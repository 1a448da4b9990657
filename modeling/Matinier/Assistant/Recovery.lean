import Matinier.Assistant.Tools.Executor

/-!
# Startup recovery

`recoverStartup` repairs what a crash left behind in one transaction: it asks
for input where a claim has no call, takes interrupted external writes up for
reconciliation, fails interrupted local work and returns the rest to the queue.
An execution that the execution guard no longer allows is isolated instead and
only its existing calls are reconciled.
-/

namespace Matinier
namespace Assistant

def activeStatuses : List ExecutionStatus :=
  [.queued, .planning, .executing, .observing, .waitingExternal, .reconciling]

def unresolvedStatuses : List ToolCallStatus := [.requesting, .pending, .unknown, .reconciling]

def resumableStatuses : List ExecutionStatus := [.queued, .waitingExternal, .reconciling]

/-- What recovery is configured with. The guard, where there is one, tells whether an
execution still has its authority. -/
structure RecoveryConfig where
  registry : ToolRegistry
  executionGuard : Option (ExecutionId → Bool) := none
  toolExecutor : Option ExecutorConfig := none

structure RecoveryState where
  db : Db
  orphans : List ExecutionId := []
  readOnly : List ExecutionId := []
  enqueued : List ExecutionId := []
  resetExecutions : ℕ := 0
  reconciledExecutions : ℕ := 0
  resetSubagents : ℕ := 0

def advanceFrom (status target : ExecutionStatus) (eventType : String) (now : Instant)
    (moving : ExecutionRecord × Db) : Except Fault (ExecutionRecord × Db) :=
  if moving.1.status = status then moving.2.moveExecution moving.1 target eventType now
  else .ok moving

def moveToReconciling (db : Db) (execution : ExecutionRecord) (now : Instant) :
    Except Fault (ExecutionRecord × Db) :=
  if execution.status = .reconciling then .ok (execution, db)
  else if execution.status = .waitingExternal then
    db.moveExecution execution .reconciling "action.recovered_reconciling" now
  else do
    let moving ← advanceFrom .observing .queued "action.recovered_queued" now (execution, db)
    let moving ← advanceFrom .queued .planning "action.recovered_planning" now moving
    let (execution, db) ←
      advanceFrom .planning .executing "action.recovered_execution" now moving
    ensure (execution.status = .executing)
      (.runtime s!"cannot recover external operation from {execution.status.name}")
    db.moveExecution execution .reconciling "action.recovered_reconciling" now

def inspectionResult (question errorCode : String) : ExecutionResult where
  question := some question
  choices := some []
  errorCode := some errorCode

def leaveForInput (db : Db) (execution : ExecutionRecord) (now : Instant) :
    Except Fault (ExecutionRecord × Db) :=
  if execution.status = .queued then
    db.moveExecution execution .planning "action.recovered_planning" now
  else if execution.status = .executing then
    db.moveExecution execution .observing "action.recovered_observing" now
  else if execution.status = .waitingExternal then
    db.moveExecution execution .reconciling "action.recovered_reconciling" now
  else .ok (execution, db)

def moveToNeedsInput (db : Db) (execution : ExecutionRecord) (errorCode question : String)
    (now : Instant) : Except Fault (ExecutionRecord × Db) := do
  let moving ← leaveForInput db execution now
  let (execution, db) ← advanceFrom .observing .planning "action.recovered_planning" now moving
  ensure (execution.status = .planning ∨ execution.status = .reconciling)
    (.runtime s!"cannot isolate orphan action claim from {execution.status.name}")
  db.moveExecution execution .needsInput "action.needs_input" now
    (some (inspectionResult question errorCode)) (some errorCode) (some question)

def orphanQuestion : String :=
  "Inspect the external system before continuing: a durable action claim has no matching tool call."

/-- The call is the one the claim was made for. -/
def ClaimMatches (claim : ClaimRecord) (call : ToolCallRecord) : Prop :=
  call.executionId = claim.holderExecutionId ∧ call.capability = claim.capability ∧
    call.logicalActionKey = some claim.logicalActionKey

instance (claim : ClaimRecord) (call : ToolCallRecord) : Decidable (ClaimMatches claim call) :=
  inferInstanceAs (Decidable (_ ∧ _))

/-- Ask for input where a claim has no matching call and its execution is under way. -/
def isolateOrphan (now : Instant) (s : RecoveryState) (claim : ClaimRecord) :
    Except Fault RecoveryState :=
  if ∃ call ∈ claim.toolCallId.bind s.db.getToolCall, ClaimMatches claim call then .ok s
  else
    match s.db.getExecution claim.holderExecutionId with
    | none => .ok s
    | some execution =>
      if execution.status ∉ activeStatuses then .ok s
      else do
        let (execution, db) ←
          moveToNeedsInput s.db execution "orphan_external_action_claim" orphanQuestion now
        return { s with db, orphans := s.orphans ++ [execution.id] }

/-- Whether the guard lets an execution be resumed: it has its authority and no model
call of it was interrupted. -/
def RecoveryConfig.mayResume (cfg : RecoveryConfig) (execution : ExecutionRecord) : Bool :=
  match cfg.executionGuard with
  | none => true
  | some granted =>
    granted execution.id && !isTerminalExecutionStatus execution.profile execution.status &&
      execution.status ∈ resumableStatuses

def resetBranch (now : Instant) (s : RecoveryState) (branch : SubagentRunRecord) :
    Except Fault RecoveryState :=
  if branch.status = .running then do
    let (_, db) ← s.db.transitionSubagentRun branch.id .running
      { status := .queued, result := branch.result, changedAt := now }
    return { s with db, resetSubagents := s.resetSubagents + 1 }
  else .ok s

def interruptedUpdate (call : ToolCallRecord) (now : Instant) : ToolCallUpdate where
  status := .unknown
  result := call.result
  externalReference := call.externalReference
  errorCode := some (call.errorCode.getD "tool_outcome_unknown_after_restart")
  errorMessage := some (call.errorMessage.getD
    "The external outcome requires reconciliation after restart.")
  changedAt := now

/-- The update that takes an external call up for reconciliation after a restart. -/
def recoveredUpdate (call : ToolCallRecord) (now : Instant) : ToolCallUpdate where
  status := .reconciling
  result := call.result
  externalReference := call.externalReference
  errorCode := call.errorCode
  errorMessage := call.errorMessage
  changedAt := now

def unverifiableUpdate (call : ToolCallRecord) (now : Instant) : ToolCallUpdate where
  status := .unknown
  result := call.result
  externalReference := call.externalReference
  errorCode := some "unverifiable_external_side_effect"
  errorMessage := some "The external outcome cannot be verified automatically."
  changedAt := now

def interruptRequested (now : Instant) (db : Db) (call : ToolCallRecord) :
    Except Fault (ToolCallRecord × Db) :=
  if call.status = .requesting then
    db.updateToolCall call.id (some .requesting) (interruptedUpdate call now)
  else .ok (call, db)

/-- Take an external call up for reconciliation, or mark it unverifiable. The second
component tells whether some call was. -/
def recoverCall (cfg : RecoveryConfig) (now : Instant) (s : Db × Bool) (call : ToolCallRecord) :
    Except Fault (Db × Bool) := do
  let registered ← cfg.registry.get call.toolName
  if registered.spec.supportsReconciliation then
    let (call, db) ← interruptRequested now s.1 call
    let (_, db) ← db.updateToolCall call.id (some call.status) (recoveredUpdate call now)
    return (db, s.2)
  else
    let (_, db) ← s.1.updateToolCall call.id (some call.status) (unverifiableUpdate call now)
    return (db, true)

def interruptedMessage : String :=
  "The non-external tool was interrupted and was not automatically repeated."

def localFailure (call : ToolCallRecord) (now : Instant) (errorCode errorMessage : String) :
    ToolCallUpdate where
  status := .failed
  result := some (.failure errorCode errorMessage call.externalReference none true)
  externalReference := call.externalReference
  errorCode := some errorCode
  errorMessage := some errorMessage
  changedAt := now

def localFailureObservation (call : ToolCallRecord) (errorCode : String) : Json := .obj
  [ ("tool_name", .str call.toolName)
  , ("status", .str "failed")
  , ("error_code", .str errorCode) ]

def failLocalCall (now : Instant) (errorCode errorMessage : String) (db : Db)
    (call : ToolCallRecord) : Except Fault Db := do
  let (_, db) ← db.updateToolCall call.id (some call.status)
    (localFailure call now errorCode errorMessage)
  let (_, db) ← db.appendObservation call.executionId .system
    (localFailureObservation call errorCode) [] (some call.id) db.newObservationId
  return db

def recoverExternal (cfg : RecoveryConfig) (now : Instant) (s : RecoveryState)
    (execution : ExecutionRecord) (calls : List ToolCallRecord) : Except Fault RecoveryState := do
  let (db, unverifiable) ← calls.foldlM (recoverCall cfg now) (s.db, false)
  let (execution, db) ← moveToReconciling db execution now
  let s := { s with reconciledExecutions := s.reconciledExecutions + 1 }
  if unverifiable then
    let (_, db) ← db.moveExecution execution .needsInput "action.needs_input" now
      (some (inspectionResult "Inspect the external system before continuing this action."
        "unverifiable_external_side_effect"))
    return { s with db }
  else
    return { s with db, enqueued := s.enqueued ++ [execution.id] }

/-- Observe the local work an executing run was interrupted in. -/
def recoverExecuting (now : Instant) (moving : ExecutionRecord × Db) :
    Except Fault (ExecutionRecord × Db) :=
  if moving.1.status = .executing then do
    let interrupted := moving.2.listToolCalls moving.1.id [.prepared, .requesting, .pending]
    let db ← (interrupted.filter fun call => call.effect ≠ .externalWrite).foldlM
      (failLocalCall now "tool_interrupted_before_recovery" interruptedMessage) moving.2
    db.moveExecution moving.1 .observing "action.recovered_observing" now
  else .ok moving

/-- Return a planning or observing execution to the queue; the last component counts it. -/
def requeue (now : Instant) (moving : ExecutionRecord × Db) :
    Except Fault ((ExecutionRecord × Db) × ℕ) :=
  if moving.1.status = .planning ∨ moving.1.status = .observing then do
    let moved ← moving.2.moveExecution moving.1 .queued "action.recovered_queued" now
    return (moved, 1)
  else .ok (moving, 0)

def recoverLocal (now : Instant) (s : RecoveryState) (execution : ExecutionRecord) :
    Except Fault RecoveryState := do
  let moving ← recoverExecuting now (execution, s.db)
  let ((execution, db), reset) ← requeue now moving
  return { s with
    db
    resetExecutions := s.resetExecutions + reset
    enqueued :=
      if execution.status ∈ resumableStatuses then s.enqueued ++ [execution.id]
      else s.enqueued }

/-- Repair an execution whose branches are reset, unless it waits for input by now. -/
def recoverWork (cfg : RecoveryConfig) (now : Instant) (s : RecoveryState)
    (execution : ExecutionRecord) : Except Fault RecoveryState :=
  if execution.id ∈ s.orphans then .ok s
  else if s.db.listExternalToolCalls execution.id unresolvedStatuses ≠ [] then
    recoverExternal cfg now s execution
      (s.db.listExternalToolCalls execution.id unresolvedStatuses)
  else recoverLocal now s execution

/-- The listed row as it stands now: the session refreshes it when it is written. -/
def refreshed (db : Db) (listed : ExecutionRecord) : ExecutionRecord :=
  (db.getExecution listed.id).getD listed

def recoverExecution (cfg : RecoveryConfig) (now : Instant) (s : RecoveryState)
    (listed : ExecutionRecord) : Except Fault RecoveryState :=
  if cfg.mayResume (refreshed s.db listed) = false then
    .ok { s with readOnly := s.readOnly ++ [listed.id] }
  else do
    let s' ← (s.db.listSubagentRuns listed.id).foldlM (resetBranch now) s
    recoverWork cfg now s' (refreshed s.db listed)

/-- The transaction of `recoverStartup`. -/
def recoverDurable (cfg : RecoveryConfig) (now : Instant) (db : Db) :
    Except Fault RecoveryState := do
  let executions := db.listActionExecutions activeStatuses
  let claims := db.listExternalActionClaims [.reserved, .requesting, .unknown]
  let s ← claims.foldlM (isolateOrphan now) { db }
  executions.foldlM (recoverExecution cfg now) s

def authorityQuestion : String :=
  "This execution requires renewed user confirmation; existing effects are only reconciled."

def interruptedRequestUpdate (now : Instant) : ToolCallUpdate where
  status := .unknown
  errorCode := some "interrupted_external_request"
  changedAt := now

def interruptCall (u : ToolCallUpdate) (db : Db) (call : ToolCallRecord) : Except Fault Db :=
  if call.status = .requesting then do
    let (_, db) ← db.updateToolCall call.id (some .requesting) u
    return db
  else .ok db

def isolateStatus (db : Db) (execution : ExecutionRecord) (now : Instant) :
    Except Fault (ExecutionRecord × Db) :=
  if isTerminalExecutionStatus execution.profile execution.status = false ∧
      execution.status ≠ .needsInput then
    moveToNeedsInput db execution "meeting_authority_required" authorityQuestion now
  else .ok (execution, db)

/-- The transaction of `reconcileReadOnly`: isolate the execution and list the calls of it
that are still to be reconciled. -/
def isolateExecution (id : ExecutionId) (now : Instant) : Transaction (List ToolCallId) :=
  fun db => do
    let execution ← db.getExecutionRequired id
    let (_, isolated) ← isolateStatus db execution now
    let calls := isolated.listExternalToolCalls id unresolvedStatuses
    let interrupted ← calls.foldlM (interruptCall (interruptedRequestUpdate now)) isolated
    return (calls.map ToolCallRecord.id, interrupted)

/-- The faults that `reconcileReadOnly` leaves to the reviewer: those of the classes
`LookupError`, `ValueError` and `RuntimeError`. -/
def Fault.isReviewable : Fault → Bool
  | .lookup _ | .value _ | .runtime _ | .stateConflict _ | .idempotencyConflict _
  | .grantUnavailable _ | .grantAuthorization _ _ => true
  | .typeError _ | .integrity | .denied _ => false

/-- What a whole call of `reconcile` leaves: the database, the adapter calls made and how
it ended. -/
structure ReconcileOutcome where
  db : Db
  adapterCalls : List Flight
  reply : Except Fault ToolResult

/-- A whole call of `reconcile`, where the adapter answers as the oracle says. -/
def reconcile (cfg : ExecutorConfig) (answer : Flight → AdapterAnswer) (id : ToolCallId)
    (evidenceRefs : List String) (now : Instant) (db : Db) : ReconcileOutcome :=
  match beginReconcile cfg id evidenceRefs now db with
  | .error e => ⟨db, [], .error e⟩
  | .ok (.replied reply, db) => ⟨db, [], .ok reply⟩
  | .ok (.requested flight, db) =>
    match adapterResult flight (answer flight) with
    | .error e => ⟨db, [flight], .error e⟩
    | .ok result =>
      match persistResult flight result now db.newObservationId db with
      | .error e => ⟨db, [flight], .error e⟩
      | .ok (reply, db) => ⟨db, [flight], .ok reply⟩

structure Reconciling where
  db : Db
  adapterCalls : List Flight := []

def reconcileListed (cfg : ExecutorConfig) (answer : Flight → AdapterAnswer) (now : Instant)
    (s : Reconciling) (id : ToolCallId) : Except Fault Reconciling :=
  let outcome := reconcile cfg answer id [] now s.db
  let next : Reconciling := ⟨outcome.db, s.adapterCalls ++ outcome.adapterCalls⟩
  match outcome.reply with
  | .ok _ => .ok next
  | .error e => if e.isReviewable then .ok next else .error e

/-- Isolate an execution and reconcile its calls; whether there were any. -/
def reconcileReadOnly (toolExecutor : Option ExecutorConfig) (answer : Flight → AdapterAnswer)
    (id : ExecutionId) (now : Instant) (s : Reconciling) :
    Except Fault (Bool × Reconciling) := do
  let (ids, db) ← isolateExecution id now s.db
  let s := { s with db }
  match toolExecutor with
  | none => return (ids ≠ [], s)
  | some executor =>
    let s ← ids.foldlM (reconcileListed executor answer now) s
    return (ids ≠ [], s)

/-- What recovery reports, with the database it leaves and the adapter calls it made. -/
structure RecoveryReport where
  db : Db
  adapterCalls : List Flight
  enqueuedExecutionIds : List ExecutionId
  resetExecutionCount : ℕ
  reconciledExecutionCount : ℕ
  resetSubagentCount : ℕ
  inspectedClaimCount : ℕ

def isolateListed (cfg : RecoveryConfig) (answer : Flight → AdapterAnswer) (now : Instant)
    (s : ℕ × Reconciling) (id : ExecutionId) : Except Fault (ℕ × Reconciling) := do
  let (reconciled, next) ← reconcileReadOnly cfg.toolExecutor answer id now s.2
  return (s.1 + if reconciled then 1 else 0, next)

/-- Repair the durable state at startup and tell which executions to enqueue. -/
def recoverStartup (cfg : RecoveryConfig) (answer : Flight → AdapterAnswer) (now : Instant)
    (db : Db) : Except Fault RecoveryReport := do
  let s ← recoverDurable cfg now db
  let (reconciled, rest) ←
    s.readOnly.foldlM (isolateListed cfg answer now) (s.reconciledExecutions, ⟨s.db, []⟩)
  return {
    db := rest.db
    adapterCalls := rest.adapterCalls
    enqueuedExecutionIds := s.enqueued.eraseDups
    resetExecutionCount := s.resetExecutions
    reconciledExecutionCount := reconciled
    resetSubagentCount := s.resetSubagents
    inspectedClaimCount :=
      (db.listExternalActionClaims [.reserved, .requesting, .unknown]).length }

end Assistant
end Matinier
