import Matinier.Assistant.Database

/-!
# The meeting plugin's control records

What the user confirmed is an intent with its scope; a consumed intent admits one
operation, and an operation may start an execution. The row of a session carries two
epochs: that of the meeting analysis and that of the plugin's authority. `MeetingDb` is the
assistant's database with these tables and with the answers of the host around it.
-/

namespace Matinier
namespace Assistant

abbrev MediaSessionId := ℕ
abbrev IntentId := ℕ
abbrev OperationId := ℕ
abbrev CapabilityGrantId := ℕ
abbrev SegmentId := ℕ

def meetingPluginId : String := "com.matinier.meeting-assistant"

inductive HostAction where
  | analysisActivate
  | analysisDeactivate
  | ask
  | markCreate
  | markAccept
  | markDismiss
  | execute
  | input
  | cancel
  deriving DecidableEq, Repr

/-- The capability each action takes. -/
def HostAction.capability : HostAction → String
  | .analysisActivate | .analysisDeactivate => "meeting.state.query"
  | .ask => "meeting.turn.submit"
  | .execute => "meeting.execution.submit"
  | .markCreate | .markAccept | .markDismiss => "meeting.mark.write"
  | .input => "meeting.execution.input"
  | .cancel => "meeting.execution.cancel"

/-- The effect a capability grant for an action is given. -/
def HostAction.effect : HostAction → ToolEffect
  | .execute => .externalWrite
  | _ => .localWrite

/-- The actions that carry a capability grant of their own. -/
def HostAction.TakesGrant (a : HostAction) : Prop := a = .execute ∨ a = .input

instance (a : HostAction) : Decidable a.TakesGrant := inferInstanceAs (Decidable (_ ∨ _))

/-- The actions that start an execution. -/
def HostAction.Starts (a : HostAction) : Prop := a = .ask ∨ a = .execute

instance (a : HostAction) : Decidable a.Starts := inferInstanceAs (Decidable (_ ∨ _))

inductive ScopeSource where
  | plugin
  | hostHistory
  deriving DecidableEq, Repr

/-- What a scope may carry: only a confirmed execution writes outside, with a fixed team
and a budget within the selected candidates. -/
structure HostActionScope.Bounded (action : HostAction) (source : ScopeSource)
    (analysisEpoch : Option ℕ) (teamId : Option String)
    (candidateRevisions : List (String × ℕ)) (maxSideEffects : ℕ) : Prop where
  history : source = .hostHistory → action = .cancel
  analysis : action = .analysisActivate ∨ action = .analysisDeactivate → analysisEpoch.isSome
  execution : action = .execute → teamId.isSome ∧ candidateRevisions ≠ [] ∧
    1 ≤ maxSideEffects ∧ maxSideEffects ≤ candidateRevisions.length
  others : action ≠ .execute → maxSideEffects = 0 ∧ teamId = none ∧ candidateRevisions = []
  keys : (candidateRevisions.map Prod.fst).Nodup

structure HostActionScope where
  pluginId : String
  pluginVersion : String
  mediaSessionId : MediaSessionId
  legacySessionId : SessionId
  actorId : String
  authorityEpoch : ℕ
  analysisEpoch : Option ℕ := none
  action : HostAction
  payloadHash : Digest
  candidateRevisions : List (String × ℕ) := []
  snapshotId : Option Digest := none
  teamId : Option String := none
  maxSideEffects : ℕ := 0
  source : ScopeSource := .plugin
  actionGrantId : Option GrantId := none
  capabilityGrantId : Option CapabilityGrantId := none
  bounded : HostActionScope.Bounded action source analysisEpoch teamId candidateRevisions
    maxSideEffects
  deriving DecidableEq

/-- The candidates a scope selects. -/
def HostActionScope.candidateIds (scope : HostActionScope) : List String :=
  scope.candidateRevisions.map Prod.fst

/-- The revision a selected candidate had when the user confirmed. -/
def HostActionScope.revision? (scope : HostActionScope) (candidate : String) : Option ℕ :=
  (scope.candidateRevisions.find? fun entry => entry.1 = candidate).map Prod.snd

/-- What a capability grant is bound to. -/
structure CapabilityScope where
  authorityEpoch : ℕ
  action : HostAction
  payloadHash : Digest
  snapshotId : Option Digest
  teamId : Option String
  candidateRevisions : List (String × ℕ)
  maxSideEffects : ℕ
  actionGrantId : Option GrantId
  deriving DecidableEq

def capabilityGrantScope (scope : HostActionScope) : CapabilityScope where
  authorityEpoch := scope.authorityEpoch
  action := scope.action
  payloadHash := scope.payloadHash
  snapshotId := scope.snapshotId
  teamId := scope.teamId
  candidateRevisions := scope.candidateRevisions
  maxSideEffects := scope.maxSideEffects
  actionGrantId := scope.actionGrantId

/-- The normalized arguments of an action. What a mark is made of is left to its digest. -/
inductive HostArguments where
  | analysis
  | ask (message : String)
  | execute (message : String) (markIds candidateIds : List String)
  | mark (digest : Digest)
  | input (executionId : ExecutionId) (expectedStateVersion : ℕ) (input : String)
  | cancel (executionId : ExecutionId) (expectedStateVersion : ℕ)
  deriving DecidableEq

inductive IntentStatus where
  | active
  | consumed
  | revoked
  deriving DecidableEq, Repr

inductive OperationStatus where
  | accepted
  | running
  | completed
  | failed
  | cancelled
  deriving DecidableEq, Repr

inductive AnalysisState where
  | inactive
  | active
  | draining
  | completed
  deriving DecidableEq, Repr

structure IntentRecord where
  id : IntentId
  tokenHash : Digest
  scope : HostActionScope
  status : IntentStatus := .active
  createdAt : Instant
  expiresAt : Instant
  consumedAt : Option Instant := none
  revokedAt : Option Instant := none

structure OperationRecord where
  id : OperationId
  pluginId : String
  pluginVersion : String
  mediaSessionId : MediaSessionId
  legacySessionId : SessionId
  authorityEpoch : ℕ
  intentId : Option IntentId := none
  executionId : Option ExecutionId := none
  clientRequestId : String
  action : HostAction
  requestPayload : HostArguments
  status : OperationStatus := .accepted
  errorCode : Option String := none
  createdAt : Instant

structure PluginSessionRecord where
  legacySessionId : SessionId
  mediaSessionId : MediaSessionId
  pluginId : String
  pluginVersion : String
  analysisState : AnalysisState := .inactive
  analysisEpoch : ℕ := 0
  authorityEpoch : ℕ := 0
  terminalFrontier : Option (List (SegmentId × ℕ)) := none
  deriving DecidableEq

structure CapabilityGrantRecord where
  id : CapabilityGrantId
  pluginId : String
  pluginVersion : String
  mediaSessionId : MediaSessionId
  capability : String
  effect : ToolEffect
  scope : CapabilityScope
  active : Bool := true
  expiresAt : Instant
  revokedAt : Option Instant := none

instance : Row IntentRecord IntentId Digest where
  key := IntentRecord.id
  unique i := some i.tokenHash

/-- One operation for each request of a plugin's version in a media session. -/
instance : Row OperationRecord OperationId (String × String × MediaSessionId × String) where
  key := OperationRecord.id
  unique o := some (o.pluginId, o.pluginVersion, o.mediaSessionId, o.clientRequestId)

instance : Row PluginSessionRecord SessionId MediaSessionId where
  key := PluginSessionRecord.legacySessionId
  unique s := some s.mediaSessionId

instance : Row CapabilityGrantRecord CapabilityGrantId Empty where
  key := CapabilityGrantRecord.id
  unique _ := none

inductive TaskSystemProvider where
  | disabled
  | fake
  | linear
  deriving DecidableEq, Repr

/-- A candidate as the meeting now has it. -/
structure CandidateView where
  currentRevision : ℕ
  active : Bool
  evidenceRevisionsCurrent : Bool
  deriving DecidableEq

/-- The settings, and what the other tables of the host answer. -/
structure Host where
  accepting : Bool := true
  assistantEnabled : Bool := true
  pluginFrameworkEnabled : Bool := true
  taskSystemProvider : TaskSystemProvider := .fake
  linearTeamId : Option String := none
  legacySession : MediaSessionId → Option SessionId := fun media => some media
  /-- The plugin of this version is installed, enabled, verified and bound to the media session. -/
  bound : MediaSessionId → String → Bool := fun _ _ => true
  runtimeCheck : MediaSessionId → HostAction → String → Bool := fun _ _ _ => true
  permissions : String → String → List String := fun _ _ => []
  candidate : SessionId → String → Option CandidateView := fun _ _ => none

/-- The team tasks are filed with. -/
def Host.team (host : Host) : Option String :=
  host.linearTeamId.or (if host.taskSystemProvider = .fake then some "local-demo-team" else none)

structure MeetingDb where
  assistant : Db := {}
  sessions : Table PluginSessionRecord := .empty
  intents : Table IntentRecord := .empty
  operations : Table OperationRecord := .empty
  capabilityGrants : Table CapabilityGrantRecord := .empty
  host : Host := {}

/-- A transaction over all these tables. -/
abbrev MeetingTransaction (α : Type) := MeetingDb → Except Fault (α × MeetingDb)

end Assistant
end Matinier
