import Matinier.Foundation.Program
import Matinier.Foundation.Blanks
import Matinier.Assistant.Repository.Grants

/-!
# Handing a fast turn off

A fast turn is transferred into one queued action run. The service reads whether the
source is handed off already, and if so answers from the record. Otherwise it checks the
request, and one transaction creates the target and the handoff, moves the source and
appends the events; its first write may come after others have committed since the reads.
The target is enqueued after the commit.
-/

namespace Matinier
namespace Assistant

structure HandoffGrantRequest where
  actorId : String
  capabilities : List String
  resourceScope : Json
  candidateIds : List String := []
  maxSideEffects : ℕ
  expiresAt : Instant
  maxSideEffects_pos : 1 ≤ maxSideEffects
  capabilities_nodup : capabilities.Nodup
  candidateIds_nodup : candidateIds.Nodup

structure HandoffRequest where
  sourceExecutionId : ExecutionId
  expectedStateVersion : ℕ
  snapshot : ContextSnapshot
  handoffGoal : String
  reason : EvidenceClaim
  completedSteps : List HandoffCompletedStep := []
  observations : List HandoffObservation := []
  unresolvedConflicts : List Json := []
  candidatePlan : Json := .obj []
  grantId : Option GrantId := none
  grantRequest : Option HandoffGrantRequest := none
  idempotencyScope : Option String := none

structure HandoffCommit where
  handoffId : HandoffId
  sourceExecutionId : ExecutionId
  targetExecutionId : ExecutionId
  rootExecutionId : ExecutionId
  grantId : Option GrantId
  snapshotId : SnapshotId
  deriving DecidableEq

/-- What the reads of a new handoff leave: the request with the source as it was read, and
whether its snapshot is stored already. -/
structure HandoffPlan where
  request : HandoffRequest
  goal : String
  source : ExecutionRecord
  snapshotStored : Bool

structure HandoffIds where
  handoff : HandoffId
  target : ExecutionId
  grant : GrantId

namespace Db

variable (db : Db)

def getHandoffBySource (source : ExecutionId) : Option HandoffRecord :=
  db.handoffs.getUnique source

def getContextSnapshot (id : SnapshotId) : Option ContextSnapshot := db.snapshots.get id

def newStepId : StepId := (db.steps.rows.map StepRecord.id).foldr max 0 + 1

/-- Append a step after the last one of the record the caller has read. -/
def appendStepFrom (record : ExecutionRecord) (step : HandoffCompletedStep) :
    Except Fault (ExecutionRecord × Db) := do
  let row ← db.getExecutionRequired record.id
  let sequence := record.stepCount + 1
  let steps ← require (db.steps.insert {
    id := db.newStepId
    executionId := record.id
    sequence
    kind := step.kind
    output := step.output
    decisionSummary := step.decisionSummary }) .integrity
  return ({ record with stepCount := sequence },
    { db with steps, executions := db.executions.set { row with stepCount := sequence } })

def createHandoff (envelope : HandoffEnvelope) : Except Fault (HandoffRecord × Db) :=
  match db.getHandoffBySource envelope.parentExecutionId with
  | some existing => do
    ensure (existing.targetExecutionId = envelope.targetExecutionId)
      (.idempotencyConflict "source execution is already handed off to another target")
    return (existing, db)
  | none => do
    let record : HandoffRecord :=
      { id := envelope.handoffId
        sourceExecutionId := envelope.parentExecutionId
        targetExecutionId := envelope.targetExecutionId
        snapshotId := envelope.contextSnapshotId
        grantId := envelope.grantId
        envelope }
    ensure (∀ h ∈ db.handoffs.rows, h.targetExecutionId ≠ record.targetExecutionId) .integrity
    let handoffs ← require (db.handoffs.insert record) .integrity
    return (record, { db with handoffs })

end Db

/-- The checks a request passes before anything is read. -/
def checkRequest (request : HandoffRequest) : Except Fault String := do
  let goal := joinedWords request.handoffGoal
  ensure (goal ≠ "") (.value "handoff goal is required")
  ensure (request.grantId.isNone ∨ request.grantRequest.isNone)
    (.value "handoff may reference or create one Grant, not both")
  ensure (∀ ref ∈ request.reason.evidenceRefs, ref ∈ request.snapshot.evidenceRefs)
    (.value "handoff reason references unavailable evidence")
  return goal

/-- The answer to a request whose source is handed off already. -/
def replayHandoff (db : Db) (source : ExecutionId) (existing : HandoffRecord) :
    Except Fault HandoffCommit := do
  let target ← db.getExecutionRequired existing.targetExecutionId
  ensure (existing.envelope.contextSnapshotId = existing.snapshotId)
    (.runtime "persisted Handoff snapshot is inconsistent")
  return {
    handoffId := existing.id
    sourceExecutionId := source
    targetExecutionId := target.id
    rootExecutionId := target.rootExecutionId
    grantId := existing.grantId
    snapshotId := existing.snapshotId }

def checkSource (db : Db) (request : HandoffRequest) : Except Fault ExecutionRecord := do
  let source ← db.getExecutionRequired request.sourceExecutionId
  ensure (source.profile = .fastTurn) (.value "only a Fast Turn can create a Handoff")
  ensure (source.sessionId = request.snapshot.sessionId)
    (.value "handoff snapshot belongs to another Session")
  ensure (source.stateVersion = request.expectedStateVersion)
    (.value "Fast Turn changed before Handoff")
  ensure (source.snapshotId = none ∨ source.snapshotId = some request.snapshot.id)
    (.value "Fast Turn is bound to another Context Snapshot")
  return source

/-- Whether the snapshot is stored already; one that is must be the request's. -/
def checkSnapshot (db : Db) (snapshot : ContextSnapshot) : Except Fault Bool :=
  match db.getContextSnapshot snapshot.id with
  | none => .ok false
  | some existing => do
    ensure (existing.sessionId = snapshot.sessionId ∧
        existing.meetingStateVersion = snapshot.meetingStateVersion ∧
        existing.relevantContextHash = snapshot.relevantContextHash)
      (.value "persisted Context Snapshot does not match Handoff")
    return true

def checkGrant (db : Db) (sessionId : SessionId) (goal : String) :
    Option GrantId → Except Fault Unit
  | none => .ok ()
  | some grantId => do
    let record ← db.getGrantRequired grantId
    ensure (record.sessionId = sessionId) (.value "Action Grant belongs to another Session")
    ensure (joinedWords record.goal = goal) (.value "Action Grant does not cover the Handoff goal")

/-- Read on where a check passed, or return its fault. -/
def andThen {α β : Type} (x : Except Fault α) (next : α → Reader Db (Except Fault β)) :
    Reader Db (Except Fault β) :=
  match x with
  | .ok a => next a
  | .error e => pure (.error e)

/-- The reads of a request up to its first write: an answer from the record, or a plan. -/
def readHandoff (request : HandoffRequest) :
    Reader Db (Except Fault (HandoffCommit ⊕ HandoffPlan)) :=
  andThen (checkRequest request) fun goal => do
    match ← Reader.select fun db => db.getHandoffBySource request.sourceExecutionId with
    | some existing =>
      Reader.select fun db => Sum.inl <$> replayHandoff db request.sourceExecutionId existing
    | none =>
      andThen (← Reader.select fun db => checkSource db request) fun source => do
        andThen (← Reader.select fun db => checkSnapshot db request.snapshot)
          fun snapshotStored => do
            andThen (← Reader.select fun db =>
                checkGrant db source.sessionId goal request.grantId) fun _ =>
              pure (.ok (.inr { request, goal, source, snapshotStored }))

def freezeSnapshot (plan : HandoffPlan) (db : Db) : Except Fault Db :=
  if plan.snapshotStored then .ok db
  else do
    let snapshots ← require (db.snapshots.insert { plan.request.snapshot with
      evidenceRefs := plan.request.snapshot.evidenceRefs.eraseDups }) .integrity
    return { db with snapshots }

/-- The grant of the target: the one referred to, a new one, or none. -/
def resolveGrant (plan : HandoffPlan) (id : GrantId) (db : Db) :
    Except Fault (Option GrantId × Db) :=
  match plan.request.grantId, plan.request.grantRequest with
  | some grantId, _ => .ok (some grantId, db)
  | none, none => .ok (none, db)
  | none, some request => do
    let (record, db) ← db.createGrant {
      sessionId := plan.source.sessionId
      actorId := request.actorId
      goal := plan.goal
      capabilities := request.capabilities
      resourceScope := request.resourceScope
      candidateIds := request.candidateIds
      linearTeamId := none
      maxSideEffects := request.maxSideEffects
      expiresAt := request.expiresAt } id
    return (some record.id, db)

def appendProgress (plan : HandoffPlan) (db : Db) : Except Fault (ExecutionRecord × Db) := do
  let (source, db) ← plan.request.completedSteps.foldlM
    (fun state step => state.2.appendStepFrom state.1 step) (plan.source, db)
  let db ← plan.request.observations.foldlM (fun db o => Prod.snd <$>
    db.appendObservation source.id o.source o.observation o.evidenceRefs o.sourceRef
      db.newObservationId) db
  return (source, db)

def handoffEnvelope (plan : HandoffPlan) (ids : HandoffIds) (grantId : Option GrantId) :
    HandoffEnvelope where
  handoffId := ids.handoff
  parentExecutionId := plan.source.id
  targetExecutionId := ids.target
  sessionId := plan.source.sessionId
  goal := plan.goal
  grantId := grantId
  contextSnapshotId := plan.request.snapshot.id
  meetingStateVersion := plan.request.snapshot.meetingStateVersion
  evidenceRefs := plan.request.snapshot.evidenceRefs
  completedSteps := plan.request.completedSteps
  observations := plan.request.observations
  unresolvedConflicts := plan.request.unresolvedConflicts
  candidatePlan := plan.request.candidatePlan
  idempotencyScope := (plan.request.idempotencyScope.filter fun scope => scope ≠ "").getD
    s!"handoff:{plan.source.rootExecutionId}:{plan.source.id}"

def maxIdempotencyScopeChars : ℕ := 255

/-- What an envelope is checked for when it is built. -/
def checkEnvelope (envelope : HandoffEnvelope) : Except Fault Unit := do
  ensure (envelope.idempotencyScope ≠ "")
    (.value "idempotency_scope: String should have at least 1 character")
  ensure (envelope.idempotencyScope.length ≤ maxIdempotencyScopeChars)
    (.value "idempotency_scope: String should have at most 255 characters")

def handoffTransition (plan : HandoffPlan) (ids : HandoffIds) (now : Instant) :
    TransitionRequest where
  expectedVersion := plan.request.expectedStateVersion
  targetStatus := .handedOff
  eventType := "handoff.committed"
  result := some { handoffExecutionId := some ids.target, handoffId := some ids.handoff }
  snapshotId := some plan.request.snapshot.id
  changedAt := now

/-- The transaction that writes a new handoff. -/
def commitHandoff (plan : HandoffPlan) (ids : HandoffIds) (now : Instant) :
    Transaction HandoffCommit := fun db => do
  let db ← freezeSnapshot plan db
  let (grantId, db) ← resolveGrant plan ids.grant db
  let (target, db) ← db.createExecution plan.source.sessionId .actionRun plan.goal none
    (some plan.source.id) (some plan.request.snapshot.id) grantId ids.target now
  let (source, db) ← appendProgress plan db
  checkEnvelope (handoffEnvelope plan ids grantId)
  let (_, db) ← db.createHandoff (handoffEnvelope plan ids grantId)
  let (_, db) ← db.transitionExecutionFrom source (handoffTransition plan ids now)
  let received : EventRecord :=
    { executionId := target.id
      stateVersion := target.stateVersion
      eventType := "handoff.received"
      phase := .queued
      status := target.status }
  let commit : HandoffCommit :=
    { handoffId := ids.handoff
      sourceExecutionId := plan.source.id
      targetExecutionId := target.id
      rootExecutionId := target.rootExecutionId
      grantId
      snapshotId := plan.request.snapshot.id }
  return (commit, { db with events := db.events ++ [received] })

end Assistant
end Matinier
