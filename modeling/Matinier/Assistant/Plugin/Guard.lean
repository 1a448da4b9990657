import Mathlib.Data.List.MinMax
import Matinier.Assistant.Plugin.Records
import Matinier.Assistant.Tools.Executor

/-!
# The execution guard

An execution is owned by the operation that started it, and each of its tools is let
through only under that operation's authority. The guard runs inside the transaction that
requests the tool; it reads the control records as they are then and writes nothing.
-/

namespace Matinier
namespace Assistant

def deny (message : String) : Fault := .denied message

namespace MeetingDb

variable (db : MeetingDb)

def getIntent (operation : OperationRecord) : Option IntentRecord :=
  operation.intentId.bind db.intents.get

/-- The scope of an operation, where its consumed intent still agrees with it. -/
def scopeFor (operation : OperationRecord) : Except Fault HostActionScope := do
  let intent ← require (db.getIntent operation) (deny "operation intent is unavailable")
  ensure (intent.status = .consumed) (deny "operation intent is unavailable")
  let scope := intent.scope
  ensure (scope.pluginId = operation.pluginId ∧ scope.pluginVersion = operation.pluginVersion ∧
      scope.mediaSessionId = operation.mediaSessionId ∧
      scope.legacySessionId = operation.legacySessionId ∧
      scope.authorityEpoch = operation.authorityEpoch ∧ scope.action = operation.action)
    (deny "operation ownership changed")
  return scope

def requireCapabilityGrant (scope : HostActionScope) (now : Instant) :
    Except Fault CapabilityGrantRecord := do
  let grant ← require (scope.capabilityGrantId.bind db.capabilityGrants.get)
    (deny "confirmed capability grant is unavailable")
  ensure (grant.active = true ∧ grant.revokedAt = none ∧ now < grant.expiresAt ∧
      grant.pluginId = scope.pluginId ∧ grant.pluginVersion = scope.pluginVersion ∧
      grant.mediaSessionId = scope.mediaSessionId ∧
      grant.capability = scope.action.capability ∧ grant.effect = scope.action.effect ∧
      grant.scope = capabilityGrantScope scope)
    (deny "confirmed capability grant is unavailable")
  return grant

def checkCapabilityGrant (scope : HostActionScope) (now : Instant) : Except Fault Unit :=
  if scope.action.TakesGrant then do
    let _ ← db.requireCapabilityGrant scope now
    return ()
  else .ok ()

/-- The media session has its meeting, and the plugin is bound to it. -/
def requireScope (mediaSessionId : MediaSessionId) (pluginId pluginVersion : String) :
    Except Fault SessionId := do
  let sessionId ← require (db.host.legacySession mediaSessionId)
    (deny "meeting Session is unavailable")
  ensure (pluginId = meetingPluginId) (deny "meeting capability owner is invalid")
  ensure (db.host.bound mediaSessionId pluginVersion = true)
    (deny "meeting binding is unavailable")
  return sessionId

def EpochCurrent (scope : HostActionScope) : Prop :=
  ∃ row ∈ db.sessions.get scope.legacySessionId, row.authorityEpoch = scope.authorityEpoch

instance (scope : HostActionScope) : Decidable (db.EpochCurrent scope) :=
  inferInstanceAs (Decidable (∃ row ∈ db.sessions.get scope.legacySessionId, _))

/-- The scope of an operation whose authority is in force. -/
def requireAuthority (operation : OperationRecord) (now : Instant) :
    Except Fault HostActionScope := do
  let scope ← db.scopeFor operation
  if scope.source = .hostHistory ∧ scope.action = .cancel then
    return scope
  else
    ensure (db.host.accepting = true ∧ db.host.assistantEnabled = true ∧
        db.host.pluginFrameworkEnabled = true) (deny "meeting execution is unavailable")
    ensure (operation.status ≠ .failed ∧ operation.status ≠ .cancelled)
      (deny "operation is no longer executable")
    let _ ← db.requireScope scope.mediaSessionId scope.pluginId scope.pluginVersion
    ensure (db.host.runtimeCheck scope.mediaSessionId scope.action scope.pluginVersion = true)
      (deny "meeting runtime is unavailable")
    ensure (db.EpochCurrent scope) (deny "operation authority was revoked")
    ensure (operation.action.capability ∈ db.host.permissions scope.pluginId scope.pluginVersion)
      (deny "operation permission was revoked")
    let intent ← require (db.getIntent operation) (deny "operation intent is unavailable")
    ensure (intent.revokedAt = none ∧ now < intent.expiresAt)
      (deny "operation intent expired or was revoked")
    db.checkCapabilityGrant scope now
    return scope

def startersOf (execution : ExecutionRecord) : List OperationRecord :=
  db.operations.select fun o =>
    (o.executionId = some execution.id ∨ o.executionId = some execution.rootExecutionId) ∧
      o.action.Starts

/-- The first of the operations that started an execution. -/
def ownership (execution : ExecutionRecord) : Except Fault OperationRecord :=
  require ((db.startersOf execution).argmin OperationRecord.createdAt)
    (deny "execution has no confirmed plugin ownership")

def continuationsOf (execution : ExecutionRecord) : List OperationRecord :=
  db.operations.select fun o => o.executionId = some execution.id ∧ o.action = .input

/-- The owner's scope, where its authority and that of every clarification is in force. -/
def checkOwned (execution : ExecutionRecord) (owner : OperationRecord) (now : Instant) :
    Except Fault HostActionScope := do
  let scope ← db.requireAuthority owner now
  ensure (execution.sessionId = scope.legacySessionId)
    (deny "execution belongs to another meeting")
  (db.continuationsOf execution).forM fun continuation => do
    let _ ← db.requireAuthority continuation now
    return ()
  return scope

/-- What an execution may act under; an unowned fast turn may read under nothing. -/
def checkDb (executionId : ExecutionId) (now : Instant) (allowUnownedRead : Bool := false) :
    Except Fault (Option HostActionScope) := do
  let execution ← require (db.assistant.getExecution executionId)
    (deny "execution is no longer active")
  ensure (isTerminalExecutionStatus execution.profile execution.status = false)
    (deny "execution is no longer active")
  match db.ownership execution with
  | .error e =>
    if allowUnownedRead = true ∧ execution.profile = .fastTurn then return none else throw e
  | .ok owner => do
    let scope ← db.checkOwned execution owner now
    return some scope

def SameElements (l l' : List String) : Prop := (∀ a ∈ l, a ∈ l') ∧ ∀ a ∈ l', a ∈ l

instance (l l' : List String) : Decidable (SameElements l l') :=
  inferInstanceAs (Decidable (_ ∧ _))

/-- The grant of the execution is the one the user confirmed with the scope. -/
def GrantConfirmed (scope : HostActionScope) (execution original : ExecutionRecord)
    (grant : GrantRecord) (request : ToolInvocation) (spec : ToolSpec) : Prop :=
  execution.grantId = original.grantId ∧
    (request.grantId = none ∨ request.grantId = execution.grantId) ∧
    grant.actorId = scope.actorId ∧ grant.sessionId = scope.legacySessionId ∧
    grant.linearTeamId = scope.teamId ∧ db.host.team = scope.teamId ∧
    Json.eqv grant.resourceScope
      (.obj [("linear_team_id", (scope.teamId.map Json.str).getD .null)]) = true ∧
    SameElements grant.candidateIds scope.candidateIds ∧
    grant.maxSideEffects = scope.maxSideEffects ∧ spec.capability = "task.create" ∧
    ∃ candidate ∈ request.candidateId, candidate ∈ scope.candidateIds

instance (scope : HostActionScope) (execution original : ExecutionRecord) (grant : GrantRecord)
    (request : ToolInvocation) (spec : ToolSpec) :
    Decidable (db.GrantConfirmed scope execution original grant request spec) :=
  inferInstanceAs (Decidable (_ ∧ _))

/-- The candidate is as it was confirmed, and so is its evidence. -/
def CandidateUnchanged (scope : HostActionScope) (candidate : String) (view : CandidateView) :
    Prop :=
  scope.revision? candidate = some view.currentRevision ∧ view.active = true ∧
    view.evidenceRevisionsCurrent = true

instance (scope : HostActionScope) (candidate : String) (view : CandidateView) :
    Decidable (CandidateUnchanged scope candidate view) :=
  inferInstanceAs (Decidable (_ ∧ _))

/-- The checks of an external write beyond its owner's authority. -/
def authorizeExternal (scope : HostActionScope) (request : ToolInvocation) (spec : ToolSpec) :
    Except Fault Unit := do
  let execution ← db.assistant.getExecutionRequired request.executionId
  let owner ← db.ownership execution
  let original ← require (owner.executionId.bind db.assistant.getExecution)
    (.typeError "the original execution is missing")
  let differs := deny "external-write grant differs from user confirmation"
  let grant ← require (execution.grantId.bind db.assistant.getGrant) differs
  ensure (db.GrantConfirmed scope execution original grant request spec) differs
  let candidate ← require request.candidateId differs
  let view ← require (db.host.candidate scope.legacySessionId candidate)
    (deny "meeting resource is unavailable")
  ensure (CandidateUnchanged scope candidate view)
    (deny "confirmed candidate or evidence changed")

def authorizeTool (request : ToolInvocation) (spec : ToolSpec) (now : Instant) :
    Except Fault Unit := do
  let scope ← db.checkDb request.executionId now (spec.effect ≠ .externalWrite)
  if spec.effect ≠ .externalWrite then
    return ()
  else
    let denied := deny "no confirmed external-write action"
    let scope ← require scope denied
    ensure (scope.action = .execute) denied
    db.authorizeExternal scope request spec

end MeetingDb

end Assistant
end Matinier
