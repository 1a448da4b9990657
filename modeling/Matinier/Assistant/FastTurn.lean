import Matinier.Assistant.ExecutionWrites

/-!
# Fast turns

A fast turn creates its execution, freezes the context of its goal, asks the planner in rounds, and
answers, fails or hands off. It is cut where it waits and at each of its transactions; whatever may
be raised may be raised at any of these places, and the time of the turn may be over. What is
raised fails the execution, but for what is raised after the time is over, or by that failing.
-/

namespace Matinier
namespace Assistant

structure FastTurnBudget where
  maxModelRounds : ℕ := 2
  maxModelRounds_pos : 1 ≤ maxModelRounds := by decide

/-- A request for a fast turn; its goal is not blank, and of joined words. -/
structure FastTurnRequest where
  sessionId : SessionId
  goal : String
  clientRequestId : Option String := none
  grantId : Option GrantId := none
  allowHandoff : Bool := false
  goal_joined : joinedWords goal = goal
  goal_length : 1 ≤ goal.length ∧ goal.length ≤ 4000

structure FastTurnResult where
  executionId : ExecutionId
  status : ExecutionStatus
  snapshotId : Option SnapshotId
  responseText : Option String
  claims : List EvidenceClaim
  handoffExecutionId : Option ExecutionId
  errorCode : Option String
  deriving DecidableEq

def ExecutionRecord.turnResult (e : ExecutionRecord) : FastTurnResult where
  executionId := e.id
  status := e.status
  snapshotId := e.snapshotId
  responseText := e.result.bind ExecutionResult.responseText
  claims := (e.result.bind ExecutionResult.claims).getD []
  handoffExecutionId := e.result.bind ExecutionResult.handoffExecutionId
  errorCode := e.errorCode

def maxHandoffGoalChars : ℕ := 2000

structure HandoffDecision where
  decisionSummary : String
  handoffGoal : String
  reason : EvidenceClaim
  requiredCapabilities : List String := []
  candidateIds : List String := []
  goal_length : 1 ≤ handoffGoal.length ∧ handoffGoal.length ≤ maxHandoffGoalChars
  reason_cited : reason.evidenceRefs ≠ []

/-- Hand the goal of a request off, for a reason that cites the first evidence of its snapshot. -/
def HandoffDecision.ofRequest (request : FastTurnRequest) (snapshot : ContextSnapshot)
    (decisionSummary text : String) : Option HandoffDecision :=
  match snapshot.evidenceRefs with
  | [] => none
  | ref :: _ =>
    if h : request.goal.length ≤ maxHandoffGoalChars then
      some {
        decisionSummary
        handoffGoal := request.goal
        reason := { text, evidenceRefs := [ref] }
        goal_length := ⟨request.goal_length.1, h⟩
        reason_cited := List.cons_ne_nil _ _ }
    else none

/-- What the planner decides in a fast turn. -/
inductive FastDecision where
  | respond (claims : List EvidenceClaim)
  | invokeTools (toolCalls : List ProposedToolCall)
  | handoff (decision : HandoffDecision)
  | needsInput (question : String) (evidenceRefs choices : List String)
  | complete (claims : List EvidenceClaim) (completionStatus : CompletionStatus)

def FastDecision.toAgent : FastDecision → AgentDecision
  | .respond claims => .respond claims
  | .invokeTools toolCalls => .invokeTools toolCalls
  | .handoff decision => .handoff decision.handoffGoal
  | .needsInput question evidenceRefs choices => .needsInput question evidenceRefs choices
  | .complete claims completionStatus => .complete claims completionStatus

/-- What a turn has come to. -/
structure RunProgress where
  snapshot : Option ContextSnapshot := none
  steps : List HandoffCompletedStep := []
  observations : List HandoffObservation := []

def createTurn (request : FastTurnRequest) (id : ExecutionId) (now : Instant) :
    Transaction ExecutionRecord := fun db =>
  db.createExecution request.sessionId .fastTurn request.goal request.clientRequestId none none
    request.grantId id now

/-- Move an execution from a status; from any other one it is left as it is. -/
def moveTurnFrom (source target : ExecutionStatus) (eventType : String)
    (snapshotId : Option SnapshotId) (id : ExecutionId) (now : Instant) (db : Db) :
    Except Fault Db := do
  let execution ← db.getExecutionRequired id
  if execution.status = source then
    let (_, db) ← db.transitionExecution execution.id {
      expectedVersion := execution.stateVersion
      targetStatus := target
      eventType
      snapshotId
      changedAt := now }
    return db
  else return db

def contextualize (id : ExecutionId) (now : Instant) (db : Db) : Except Fault Db :=
  moveTurnFrom .received .contextualizing "fast_turn.contextualizing" none id now db

/-- Store the snapshot that was built, and go on to deciding. -/
def freezeContext (snapshot : ContextSnapshot) (id : ExecutionId) (now : Instant) (db : Db) :
    Except Fault Db := do
  let snapshots ← require (db.snapshots.insert snapshot) .integrity
  moveTurnFrom .contextualizing .deciding "fast_turn.context_frozen" (some snapshot.id) id now
    { db with snapshots }

def transitionToExecutingReads (id : ExecutionId) (now : Instant) (db : Db) : Except Fault Db :=
  moveTurnFrom .deciding .executingReads "fast_turn.executing_tools" none id now db

def completeResponse (progress : RunProgress) (claims : List EvidenceClaim) (id : ExecutionId)
    (now : Instant) : Transaction ExecutionRecord := fun db => do
  let execution ← db.getExecutionRequired id
  let db ← progress.steps.foldlM (fun db step =>
    Prod.snd <$> db.appendStep execution.id step.kind step.output step.decisionSummary
      db.newStepId) db
  let db ← progress.observations.foldlM (fun db o =>
    Prod.snd <$> db.appendObservation execution.id o.source o.observation o.evidenceRefs
      o.sourceRef db.newObservationId) db
  let (responding, db) ← db.transitionExecution execution.id {
    expectedVersion := execution.stateVersion
    targetStatus := .responding
    eventType := "fast_turn.responding"
    changedAt := now }
  db.transitionExecution responding.id {
    expectedVersion := responding.stateVersion
    targetStatus := .completed
    eventType := "fast_turn.completed"
    result := some {
      responseText := some ("\n".intercalate (claims.map EvidenceClaim.text))
      claims := some claims }
    changedAt := now }

/-- Fail an execution that has not ended. -/
def failExecution (errorCode : String) (id : ExecutionId) (now : Instant) :
    Transaction ExecutionRecord := fun db => do
  let execution ← db.getExecutionRequired id
  if execution.status ∈ [ExecutionStatus.completed, .handedOff, .failed, .cancelled] then
    return (execution, db)
  else
    db.transitionExecution execution.id {
      expectedVersion := execution.stateVersion
      targetStatus := .failed
      eventType := "fast_turn.failed"
      errorCode := some errorCode
      errorMessage := some "The private Fast Turn could not complete."
      changedAt := now }

/-- What a turn is at: its first transaction, the two of its context, a round of the planner, the
tools of a round, its response, a refusal, a handoff that is about to be requested or is under way,
the failing of its execution, or its end, with what it returns. -/
inductive FastTurnStage where
  | creating
  | contextualizing
  | freezing
  | deciding (round : ℕ)
  | executing (round : ℕ)
  | responding (claims : List EvidenceClaim)
  | refusing (errorCode : String)
  | deferring (decision : Option HandoffDecision)
  | handingOff (phase : HandoffPhase)
  | failing (errorCode : String)
  | ended (result : Option FastTurnResult)

/-- A turn; it is late where its time is over and it hands off. -/
structure TurnWorld where
  db : Db := {}
  stage : FastTurnStage := .creating
  late : Bool := false
  executionId : Option ExecutionId := none
  progress : RunProgress := {}
  modelCalls : ℕ := 0

def FastTurnStage.Ended : FastTurnStage → Prop
  | .ended _ => True
  | _ => False

inductive TurnLabel where
  | others
  | create
  | advance
  | timeout
  | raise
  deriving DecidableEq

namespace TurnWorld

variable (w : TurnWorld)

def setStage (stage : FastTurnStage) : TurnWorld := { w with stage }

def ask (round : ℕ) : TurnWorld :=
  { w with stage := .deciding round, modelCalls := w.modelCalls + 1 }

/-- Continue with a handoff when the time is over, once there is a snapshot. -/
def handoffAfterTimeout (request : FastTurnRequest) : TurnWorld :=
  match w.progress.snapshot with
  | none => { w with stage := .contextualizing, late := true }
  | some snapshot =>
    let step : HandoffCompletedStep :=
      { kind := .plan, decisionSummary := some "Continue after the Fast Turn timeout" }
    { w with
      stage := .deferring (HandoffDecision.ofRequest request snapshot
        "Continue as a durable Action Run" "The authorized Fast Turn exceeded its latency budget.")
      late := true
      progress := { w.progress with steps := w.progress.steps ++ [step] } }

/-- The snapshot is there: ask the planner, or hand off if it is late. -/
def contextBuilt (request : FastTurnRequest) (snapshot : ContextSnapshot) : TurnWorld :=
  let built := { w with progress := { w.progress with snapshot := some snapshot } }
  if w.late then built.handoffAfterTimeout request else built.ask 1

def decided (outcome : PlannerOutcome) (decisionSummary : String) : TurnWorld :=
  let step : HandoffCompletedStep :=
    { kind := .plan, output := some outcome, decisionSummary := some decisionSummary }
  { w with progress := { w.progress with steps := w.progress.steps ++ [step] } }

/-- What a decision that needs no tools leads to. -/
def afterDecision (request : FastTurnRequest) : FastDecision → FastTurnStage
  | .respond claims | .complete claims _ => .responding claims
  | .handoff decision =>
    if request.allowHandoff then .deferring (some decision)
    else .refusing "fast_turn_handoff_not_authorized"
  | .needsInput .. | .invokeTools _ => .failing "fast_turn_failed"

def observed (budget : FastTurnBudget) (request : FastTurnRequest) (round : ℕ)
    (observations : List HandoffObservation) : TurnWorld :=
  let w := { w with
    progress := { w.progress with observations := w.progress.observations ++ observations } }
  if round < budget.maxModelRounds then w.ask (round + 1)
  else if request.allowHandoff then
    w.setStage (.deferring (w.progress.snapshot.bind fun snapshot =>
      HandoffDecision.ofRequest request snapshot "Continue beyond the Fast Turn budget"
        "The bounded Fast Turn needs additional durable work."))
  else w.setStage (.refusing "fast_turn_round_budget_exhausted")

def handoffRequest (request : FastTurnRequest) (execution : ExecutionRecord)
    (snapshot : ContextSnapshot) (decision : HandoffDecision) : HandoffRequest where
  sourceExecutionId := execution.id
  expectedStateVersion := execution.stateVersion
  snapshot := snapshot
  handoffGoal := decision.handoffGoal
  reason := decision.reason
  completedSteps := w.progress.steps
  observations := w.progress.observations
  candidatePlan := .obj [
    ("required_capabilities", .arr (decision.requiredCapabilities.map .str)),
    ("candidate_ids", .arr (decision.candidateIds.map .str))]
  grantId := request.grantId
  idempotencyScope := some (match request.clientRequestId with
    | some clientRequestId => s!"fast-turn:{clientRequestId}"
    | none => s!"fast-turn:{execution.id}")

def raised : TurnWorld :=
  match w.stage with
  | .creating | .failing _ => w.setStage (.ended none)
  | _ => if w.late then w.setStage (.ended none) else w.setStage (.failing "fast_turn_failed")

/-- The time of the turn runs. -/
def Timed : Prop :=
  w.late = false ∧ match w.stage with
    | .creating | .failing _ | .ended _ => False
    | _ => True

end TurnWorld

open TurnWorld in
inductive TurnSteps (budget : FastTurnBudget) (request : FastTurnRequest) :
    TurnWorld → TurnLabel → TurnWorld → Prop
  | others {w : TurnWorld} {db : Db} (hgoing : ¬ w.stage.Ended) (hwrite : Written w.db db) :
    TurnSteps budget request w .others { w with db }
  -- An execution that is not new is not run again.
  | created {w : TurnWorld} {id : ExecutionId} {now : Instant} {record : ExecutionRecord} {db : Db}
      (hstage : w.stage = .creating) (h : createTurn request id now w.db = .ok (record, db)) :
    TurnSteps budget request w .create
      (if record.status = .received then
        { w with db, stage := .contextualizing, executionId := some record.id }
      else { w with db, stage := .ended (some record.turnResult) })
  | contextualized {w : TurnWorld} {id : ExecutionId} {now : Instant} {db : Db}
      (hstage : w.stage = .contextualizing) (hid : w.executionId = some id)
      (h : contextualize id now w.db = .ok db) :
    TurnSteps budget request w .advance { w with db, stage := .freezing }
  | frozen {w : TurnWorld} {id : ExecutionId} {snapshot : ContextSnapshot} {now : Instant} {db : Db}
      (hstage : w.stage = .freezing) (hid : w.executionId = some id)
      (h : freezeContext snapshot id now w.db = .ok db) :
    TurnSteps budget request w .advance ({ w with db }.contextBuilt request snapshot)
  | decided {w : TurnWorld} {round : ℕ} {decision : FastDecision} {outcome : PlannerOutcome}
      (decisionSummary : String) (hstage : w.stage = .deciding round)
      (houtcome : outcome.decision = decision.toAgent)
      (htools : ∀ calls, decision ≠ .invokeTools calls) :
    TurnSteps budget request w .advance
      ((w.decided outcome decisionSummary).setStage (afterDecision request decision))
  | invoked {w : TurnWorld} {id : ExecutionId} {round : ℕ} {calls : List ProposedToolCall}
      {outcome : PlannerOutcome} {now : Instant} {db : Db} (decisionSummary : String)
      (hstage : w.stage = .deciding round) (hid : w.executionId = some id)
      (houtcome : outcome.decision = .invokeTools calls)
      (h : transitionToExecutingReads id now w.db = .ok db) :
    TurnSteps budget request w .advance
      { w.decided outcome decisionSummary with db, stage := .executing round }
  | observed {w : TurnWorld} {round : ℕ} (observations : List HandoffObservation)
      (hstage : w.stage = .executing round) :
    TurnSteps budget request w .advance (w.observed budget request round observations)
  | responded {w : TurnWorld} {id : ExecutionId} {claims : List EvidenceClaim} {now : Instant}
      {record : ExecutionRecord} {db : Db} (hstage : w.stage = .responding claims)
      (hid : w.executionId = some id)
      (h : completeResponse w.progress claims id now w.db = .ok (record, db)) :
    TurnSteps budget request w .advance { w with db, stage := .ended (some record.turnResult) }
  | deferred {w : TurnWorld} {id : ExecutionId} {decision : HandoffDecision}
      {execution : ExecutionRecord} {snapshot : ContextSnapshot}
      (hstage : w.stage = .deferring (some decision)) (hid : w.executionId = some id)
      (hexecution : w.db.getExecution id = some execution)
      (hsnapshot : w.progress.snapshot = some snapshot) :
    TurnSteps budget request w .advance
      (w.setStage (.handingOff (.reading
        (readHandoff (w.handoffRequest request execution snapshot decision)))))
  | handoffRead {w : TurnWorld} {phase next : HandoffPhase} (hstage : w.stage = .handingOff phase)
      (hread : phase.read w.db = some next) (hnext : ∀ e, next ≠ .raised e) :
    TurnSteps budget request w .advance (w.setStage (.handingOff next))
  | handoffWritten {w : TurnWorld} {plan : HandoffPlan} {ids : HandoffIds} {now : Instant}
      {commit : HandoffCommit} {db : Db} (hstage : w.stage = .handingOff (.writing plan))
      (h : commitHandoff plan ids now w.db = .ok (commit, db)) :
    TurnSteps budget request w .advance { w with db, stage := .handingOff (.enqueueing commit) }
  | enqueued {w : TurnWorld} {commit : HandoffCommit}
      (hstage : w.stage = .handingOff (.enqueueing commit)) :
    TurnSteps budget request w .advance (w.setStage (.handingOff (.returned commit)))
  | handedOff {w : TurnWorld} {id : ExecutionId} {commit : HandoffCommit} {source : ExecutionRecord}
      (hstage : w.stage = .handingOff (.returned commit)) (hid : w.executionId = some id)
      (hsource : w.db.getExecution id = some source) :
    TurnSteps budget request w .advance (w.setStage (.ended (some
      { source.turnResult with handoffExecutionId := some commit.targetExecutionId })))
  | failed {w : TurnWorld} {id : ExecutionId} {errorCode : String} {now : Instant}
      {record : ExecutionRecord} {db : Db}
      (hstage : w.stage = .refusing errorCode ∨ w.stage = .failing errorCode)
      (hid : w.executionId = some id)
      (h : failExecution errorCode id now w.db = .ok (record, db)) :
    TurnSteps budget request w .advance { w with db, stage := .ended (some record.turnResult) }
  | timedOut {w : TurnWorld} (htimed : w.Timed) :
    TurnSteps budget request w .timeout
      (if request.allowHandoff then w.handoffAfterTimeout request
      else w.setStage (.failing "fast_turn_timeout"))
  | raised {w : TurnWorld} (hgoing : ¬ w.stage.Ended) : TurnSteps budget request w .raise w.raised

end Assistant
end Matinier
