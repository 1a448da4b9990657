import Matinier.Assistant.Api
import Matinier.Assistant.Plugin.Guard

/-!
# Confirmation, admission and revocation

The user confirms an action and thereby creates an intent; the plugin's command consumes
the intent and is admitted as an operation, which for a question or an execution starts an
execution in the same transaction. Revocation raises the authority epoch of a session and
withdraws what was confirmed under it. What a scope takes from the host's other tables is an
input of these transactions; its epochs are read from the session's row.
-/

namespace Matinier
namespace Assistant

/-- The digest of what an intent confirms. -/
structure HostConfig where
  canonicalHash : String → HostArguments → Digest

namespace MeetingDb

variable (db : MeetingDb)

def checkMapping (legacySessionId : SessionId) (mediaSessionId : MediaSessionId) :
    Except Fault Unit :=
  ensure (db.host.legacySession mediaSessionId = some legacySessionId)
    (.stateConflict "MediaSession does not match legacy Session")

def ensureSession (legacySessionId : SessionId) (mediaSessionId : MediaSessionId)
    (pluginVersion : String) : Except Fault (PluginSessionRecord × MeetingDb) := do
  db.checkMapping legacySessionId mediaSessionId
  let conflict : Fault := .stateConflict "meeting session has another owner or version"
  match db.sessions.get legacySessionId with
  | some row =>
    ensure (row.mediaSessionId = mediaSessionId ∧ row.pluginId = meetingPluginId ∧
      row.pluginVersion = pluginVersion) conflict
    return (row, db)
  | none =>
    let row : PluginSessionRecord :=
      { legacySessionId, mediaSessionId, pluginId := meetingPluginId, pluginVersion }
    let sessions ← require (db.sessions.insert row) conflict
    return (row, { db with sessions })

def createIntent (tokenHash : Digest) (scope : HostActionScope) (createdAt expiresAt : Instant)
    (id : IntentId) : Except Fault (IntentRecord × MeetingDb) := do
  db.checkMapping scope.legacySessionId scope.mediaSessionId
  let row : IntentRecord := { id, tokenHash, scope, createdAt, expiresAt }
  let intents ← require (db.intents.insert row) .integrity
  return (row, { db with intents })

/-- Consume the active intent of a token for exactly the scope that is expected. -/
def consumeIntent (tokenHash : Digest) (expectedScope : HostActionScope) (now : Instant) :
    Except Fault (IntentRecord × MeetingDb) := do
  let invalid := deny "intent is invalid, out of scope, expired or consumed"
  let row ← require (db.intents.getUnique tokenHash) invalid
  ensure (row.scope = expectedScope ∧ row.status = .active ∧ row.revokedAt = none ∧
    row.consumedAt = none ∧ row.createdAt ≤ now ∧ now < row.expiresAt) invalid
  let consumed := { row with status := .consumed, consumedAt := some now }
  return (consumed, { db with intents := db.intents.set consumed })

def acceptOperation (scope : HostActionScope) (clientRequestId : String)
    (requestPayload : HostArguments) (intentId : IntentId) (id : OperationId)
    (createdAt : Instant) : Except Fault (OperationRecord × MeetingDb) := do
  db.checkMapping scope.legacySessionId scope.mediaSessionId
  let row : OperationRecord :=
    { id
      pluginId := scope.pluginId
      pluginVersion := scope.pluginVersion
      mediaSessionId := scope.mediaSessionId
      legacySessionId := scope.legacySessionId
      authorityEpoch := scope.authorityEpoch
      intentId := some intentId
      clientRequestId
      action := scope.action
      requestPayload
      createdAt }
  let operations ← require (db.operations.insert row)
    (.stateConflict "request ID already binds a different operation")
  return (row, { db with operations })

def setOperation (operation : OperationRecord) : MeetingDb :=
  { db with operations := db.operations.set operation }

def requireExecution (sessionId : SessionId) (executionId : ExecutionId) :
    Except Fault ExecutionRecord := do
  let record ← require (db.assistant.getExecution executionId)
    (deny "meeting resource is unavailable")
  ensure (record.sessionId = sessionId) (deny "meeting resource is unavailable")
  return record

def stopAnalysis (legacySessionId : SessionId) : MeetingDb :=
  match db.sessions.get legacySessionId with
  | none => db
  | some row =>
    { db with sessions := db.sessions.set { row with
        analysisState := .inactive
        analysisEpoch := row.analysisEpoch + 1 } }

def activateAnalysis (row : PluginSessionRecord) : MeetingDb :=
  if row.analysisState = .active then db
  else
    { db with sessions := db.sessions.set { row with
        analysisState := .active
        analysisEpoch := row.analysisEpoch + 1
        terminalFrontier := none } }

def revokeIntents (legacySessionId : SessionId) (now : Instant) : Table IntentRecord :=
  (db.intents.select fun i => i.scope.legacySessionId = legacySessionId ∧
      i.scope.pluginId = meetingPluginId ∧ i.status = .active).foldl
    (fun intents i => intents.set { i with status := .revoked, revokedAt := some now }) db.intents

def revokeAuthority (legacySessionId : SessionId) (now : Instant) : MeetingDb :=
  let intents := db.revokeIntents legacySessionId now
  match db.sessions.get legacySessionId with
  | none => { db with intents }
  | some row =>
    { db with
      intents
      sessions := db.sessions.set { row with
        analysisState := .inactive
        analysisEpoch := row.analysisEpoch + 1
        authorityEpoch := row.authorityEpoch + 1 } }

def revokeCapabilityGrants (now : Instant) : Table CapabilityGrantRecord :=
  (db.capabilityGrants.select fun g => g.pluginId = meetingPluginId ∧ g.active = true).foldl
    (fun grants g => grants.set { g with active := false, revokedAt := some now })
    db.capabilityGrants

/-- Disable the plugin: no session is bound to it any more, and nothing it was granted is left. -/
def disablePlugin (now : Instant) : MeetingDb :=
  let sessions := db.sessions.select fun row => row.pluginId = meetingPluginId
  let revoked := sessions.foldl (fun db row => db.revokeAuthority row.legacySessionId now) db
  { revoked with
    capabilityGrants := revoked.revokeCapabilityGrants now
    host := { revoked.host with bound := fun _ _ => false } }

/-- A scope at the epochs of its session, which gets its row here; the rest of it is derived
from the host's other tables. -/
def buildScope (derived : Except Fault HostActionScope) :
    Except Fault (HostActionScope × MeetingDb) := do
  let scope ← derived
  ensure (db.host.accepting = true ∧ (scope.source = .plugin →
      db.host.assistantEnabled = true ∧ db.host.pluginFrameworkEnabled = true))
    (deny "meeting actions are unavailable")
  match scope.source with
  | .hostHistory =>
    let epoch := ((db.sessions.get scope.legacySessionId).map
      PluginSessionRecord.authorityEpoch).getD 0
    return ({ scope with authorityEpoch := epoch }, db)
  | .plugin =>
    let _ ← db.requireScope scope.mediaSessionId scope.pluginId scope.pluginVersion
    ensure (scope.action.capability ∈ db.host.permissions scope.pluginId scope.pluginVersion)
      (deny "meeting action permission is unavailable")
    let (row, db) ← db.ensureSession scope.legacySessionId scope.mediaSessionId
      scope.pluginVersion
    return ({ scope with
      authorityEpoch := row.authorityEpoch
      analysisEpoch := scope.analysisEpoch.map fun _ => row.analysisEpoch
      bounded := { scope.bounded with
        analysis := fun h => by simpa using scope.bounded.analysis h } }, db)

/-- The capability grant that is confirmed with a scope, where its action takes one. -/
def createCapabilityGrant (scope : HostActionScope) (id : CapabilityGrantId)
    (expiresAt : Instant) : Except Fault (HostActionScope × MeetingDb) :=
  if scope.action.TakesGrant then do
    let grant : CapabilityGrantRecord :=
      { id
        pluginId := scope.pluginId
        pluginVersion := scope.pluginVersion
        mediaSessionId := scope.mediaSessionId
        capability := scope.action.capability
        effect := scope.action.effect
        scope := capabilityGrantScope scope
        expiresAt }
    let capabilityGrants ← require (db.capabilityGrants.insert grant) .integrity
    return ({ scope with capabilityGrantId := some id }, { db with capabilityGrants })
  else .ok (scope, db)

end MeetingDb

structure AdmissionIds where
  operation : OperationId
  execution : ExecutionId
  grant : GrantId

/-- A command of the plugin, with what the host derives for it. -/
structure Admission where
  pluginId : String
  pluginVersion : String
  mediaSessionId : MediaSessionId
  action : HostAction
  requestId : String
  tokenHash : Digest
  arguments : HostArguments
  fromHostHistory : Bool := false
  derived : Except Fault HostActionScope
  snapshot : ContextSnapshot
  ids : AdmissionIds
  now : Instant

/-- Start the execution of a confirmed action: with the context and the grant the user saw. -/
def startAction (admission : Admission) (operation : OperationRecord) (scope : HostActionScope)
    (expiresAt : Instant) (message : String) (db : MeetingDb) :
    Except Fault (OperationRecord × MeetingDb) := do
  let snapshots ← require (db.assistant.snapshots.insert admission.snapshot) .integrity
  let (grant, assistant) ← { db.assistant with snapshots }.createGrant
    { sessionId := scope.legacySessionId
      actorId := scope.actorId
      goal := message
      capabilities := ["task.create"]
      resourceScope := .obj [("linear_team_id", (scope.teamId.map Json.str).getD .null)]
      candidateIds := scope.candidateIds
      linearTeamId := scope.teamId
      maxSideEffects := scope.maxSideEffects
      expiresAt } admission.ids.grant
  let (execution, assistant) ← assistant.createExecution scope.legacySessionId .actionRun message
    (some s!"meeting:{operation.id}") none (some admission.snapshot.id) (some grant.id)
    admission.ids.execution admission.now
  let frozen : EventRecord :=
    { executionId := execution.id
      stateVersion := execution.stateVersion
      eventType := "action.context_frozen"
      phase := execution.status
      status := execution.status }
  return ({ operation with executionId := some execution.id },
    { db with assistant := { assistant with events := assistant.events ++ [frozen] } })

def startTurn (admission : Admission) (operation : OperationRecord) (scope : HostActionScope)
    (message : String) (db : MeetingDb) : Except Fault (OperationRecord × MeetingDb) := do
  let (execution, assistant) ← db.assistant.createExecution scope.legacySessionId .fastTurn
    message (some s!"meeting:{operation.id}") none none none admission.ids.execution admission.now
  return ({ operation with executionId := some execution.id }, { db with assistant })

def submitContinuation (admission : Admission) (operation : OperationRecord)
    (scope : HostActionScope) (executionId : ExecutionId) (expectedStateVersion : ℕ)
    (input : String) (db : MeetingDb) : Except Fault (OperationRecord × MeetingDb) := do
  let execution ← db.requireExecution scope.legacySessionId executionId
  let (_, assistant) ← db.assistant.appendObservation execution.id .user
    (.obj [("input", .str input), ("actor_id", .str scope.actorId)]) [] (some operation.id)
    db.assistant.newObservationId
  let (_, assistant) ← assistant.transitionExecution execution.id
    { expectedVersion := expectedStateVersion
      targetStatus := .planning
      eventType := "action.input_received"
      result := some { inputReceived := some true }
      changedAt := admission.now }
  return ({ operation with executionId := some execution.id }, { db with assistant })

def cancelOwned (admission : Admission) (operation : OperationRecord) (scope : HostActionScope)
    (executionId : ExecutionId) (expectedStateVersion : ℕ) (db : MeetingDb) :
    Except Fault (OperationRecord × MeetingDb) := do
  let execution ← db.requireExecution scope.legacySessionId executionId
  ensure (isTerminalExecutionStatus execution.profile execution.status = false)
    (deny "execution is already terminal")
  let (_, assistant) ← db.assistant.transitionExecution execution.id
    { expectedVersion := expectedStateVersion
      targetStatus := .cancelled
      eventType := "execution.cancelled"
      result := some (cancelledResult execution (externalEffects db.assistant execution.id))
      changedAt := admission.now }
  return ({ operation with executionId := some execution.id, status := .completed },
    { db with assistant })

/-- Carry an accepted operation out as far as its admission does. -/
def carryOut (admission : Admission) (operation : OperationRecord) (scope : HostActionScope)
    (expiresAt : Instant) (db : MeetingDb) : Except Fault (OperationRecord × MeetingDb) :=
  match admission.arguments with
  | .execute message _ _ => startAction admission operation scope expiresAt message db
  | .ask message => startTurn admission operation scope message db
  | .input executionId version input =>
    submitContinuation admission operation scope executionId version input db
  | .cancel executionId version => cancelOwned admission operation scope executionId version db
  | .mark _ => .ok ({ operation with status := .completed }, db)
  | .analysis => .error (deny "invalid meeting action owner")

def HostArguments.Of : HostArguments → HostAction → Prop
  | .ask _, .ask | .execute .., .execute | .input .., .input | .cancel .., .cancel => True
  | .mark _, .markCreate | .mark _, .markAccept | .mark _, .markDismiss => True
  | .analysis, .analysisActivate | .analysis, .analysisDeactivate => True
  | _, _ => False

instance (arguments : HostArguments) (action : HostAction) : Decidable (arguments.Of action) := by
  cases arguments <;> cases action <;> first | exact isTrue trivial | exact isFalse id

/-- Admit a command under the intent it names, or return the operation it was admitted as. -/
def admitOperation (cfg : HostConfig) (admission : Admission) :
    MeetingTransaction OperationRecord :=
  fun db => do
    ensure (admission.action ≠ .analysisActivate ∧ admission.action ≠ .analysisDeactivate ∧
      admission.arguments.Of admission.action ∧ admission.pluginId = meetingPluginId)
      (deny "invalid meeting action owner")
    let intent ← require (db.intents.getUnique admission.tokenHash) (deny "intent is unavailable")
    let scope := intent.scope
    ensure (scope.pluginId = admission.pluginId ∧ scope.pluginVersion = admission.pluginVersion ∧
        scope.mediaSessionId = admission.mediaSessionId ∧ scope.action = admission.action ∧
        (scope.source = .hostHistory → admission.fromHostHistory = true))
      (deny "intent scope does not match the operation")
    match db.operations.getUnique (admission.pluginId, admission.pluginVersion,
        admission.mediaSessionId, admission.requestId) with
    | some existing =>
      ensure (existing.action = admission.action ∧
          existing.requestPayload = admission.arguments)
        (.stateConflict "request ID already binds different arguments")
      ensure (existing.intentId = some intent.id)
        (deny "operation belongs to another confirmed intent")
      return (existing, db)
    | none =>
      ensure (scope.payloadHash = cfg.canonicalHash admission.requestId admission.arguments)
        (deny "confirmed action arguments changed")
      let (rebuilt, db) ← db.buildScope admission.derived
      ensure ({ rebuilt with capabilityGrantId := scope.capabilityGrantId } = scope)
        (deny "confirmed action scope changed")
      db.checkCapabilityGrant scope admission.now
      let (_, db) ← db.consumeIntent intent.tokenHash scope admission.now
      let (accepted, db) ← db.acceptOperation scope admission.requestId admission.arguments
        intent.id admission.ids.operation admission.now
      let (operation, db) ← carryOut admission accepted scope intent.expiresAt db
      return (operation, db.setOperation operation)

/-- A confirmed preview, with what the host derives for it. -/
structure Confirmation where
  previewed : HostActionScope
  derived : Except Fault HostActionScope
  requestId : String
  arguments : HostArguments
  tokenHash : Digest
  intentId : IntentId
  capabilityGrantId : CapabilityGrantId
  expiresAt : Instant
  snapshot : ContextSnapshot
  ids : AdmissionIds
  now : Instant

def Confirmation.command (c : Confirmation) (scope : HostActionScope) : Admission where
  pluginId := scope.pluginId
  pluginVersion := scope.pluginVersion
  mediaSessionId := scope.mediaSessionId
  action := scope.action
  requestId := c.requestId
  tokenHash := c.tokenHash
  arguments := c.arguments
  fromHostHistory := scope.source = .hostHistory
  derived := c.derived
  snapshot := c.snapshot
  ids := c.ids
  now := c.now

/-- Confirm a preview: create its intent, and carry out at once what needs no command. -/
def confirm (cfg : HostConfig) (c : Confirmation) : MeetingTransaction IntentRecord :=
  fun db => do
    let (built, db) ← db.buildScope c.derived
    ensure (built = c.previewed) (deny "preview scope changed; prepare again")
    let (scope, db) ← db.createCapabilityGrant built c.capabilityGrantId c.expiresAt
    let (intent, db) ← db.createIntent c.tokenHash scope c.now c.expiresAt c.intentId
    match scope.action, scope.source with
    | .analysisActivate, _ =>
      let (intent, db) ← db.consumeIntent c.tokenHash scope c.now
      let row ← require (db.sessions.get scope.legacySessionId) .integrity
      return (intent, db.activateAnalysis row)
    | .analysisDeactivate, _ =>
      let (intent, db) ← db.consumeIntent c.tokenHash scope c.now
      return (intent, db.stopAnalysis scope.legacySessionId)
    | _, .hostHistory =>
      let (_, db) ← admitOperation cfg (c.command scope) db
      return (intent, db)
    | _, .plugin => return (intent, db)

end Assistant
end Matinier
