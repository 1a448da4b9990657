import Mathlib.Data.Prod.Lex
import Matinier.Assistant.Plugin.RevocationFence

/-!
# The workers of meeting operations

A worker claims the oldest accepted operation, checks its authority, hands it to the runtime and
waits for that to start it; then the statuses of all running operations are refreshed. A fast
turn is run by the worker itself, up to the question to the model and beyond. Each of these is
a transaction of its own, and any of them may raise: what a worker does then is part of its
phase. When the workers start, the operations that earlier ones left running are recovered.
-/

namespace Matinier
namespace Assistant

/-- An execution that is over, or waits for its user. -/
def ExecutionRecord.Settled (e : ExecutionRecord) : Prop :=
  isTerminalExecutionStatus e.profile e.status = true ∨ e.status = .needsInput

instance (e : ExecutionRecord) : Decidable e.Settled :=
  inferInstanceAs (Decidable (_ ∨ _))

/-- The status of an operation whose execution is settled. -/
def ExecutionRecord.operationStatus (e : ExecutionRecord) : OperationStatus :=
  if e.status = .failed then .failed else .completed

namespace MeetingDb

def executionOf (db : MeetingDb) (operation : OperationRecord) : Option ExecutionRecord :=
  operation.executionId.bind db.assistant.getExecution

/-- An operation follows its execution where that is settled. -/
def refreshOperation (db : MeetingDb) (operation : OperationRecord) : MeetingDb :=
  match db.executionOf operation with
  | none => db
  | some execution =>
    if execution.Settled then
      db.setOperation { operation with
        status := execution.operationStatus
        errorCode := execution.errorCode }
    else db

def running (db : MeetingDb) : List OperationRecord :=
  db.operations.select fun o => o.status = .running

def refreshRunning (db : MeetingDb) : MeetingDb := db.running.foldl refreshOperation db

def nextAccepted (db : MeetingDb) : Option OperationRecord :=
  (db.operations.select fun o => o.status = .accepted).argmin fun o => toLex (o.createdAt, o.id)

/-- Refresh the statuses, and take the oldest accepted operation to run. -/
def claim (db : MeetingDb) : Option OperationId × MeetingDb :=
  let refreshed := db.refreshRunning
  match refreshed.nextAccepted with
  | none => (none, refreshed)
  | some operation => (some operation.id,
    refreshed.setOperation { operation with status := .running })

/-- What an operation that was left running comes to: it is settled with its execution, or
dispatched again; a fast turn whose model may have been asked is not. -/
def recoverOperation (now : Instant) (db : MeetingDb) (operation : OperationRecord) :
    Except Fault MeetingDb :=
  match db.executionOf operation with
  | none =>
    .ok (db.setOperation { operation with
      status := .failed
      errorCode := some "execution_missing" })
  | some execution =>
    if execution.Settled then
      .ok (db.setOperation { operation with status := execution.operationStatus })
    else if execution.profile = .fastTurn ∧ execution.status ≠ .received then do
      let (_, assistant) ← db.assistant.transitionExecution execution.id
        { expectedVersion := execution.stateVersion
          targetStatus := .failed
          eventType := "meeting.model_outcome_unknown"
          errorCode := some "model_outcome_unknown"
          changedAt := now }
      let failed : OperationRecord :=
        { operation with status := .failed, errorCode := some "model_outcome_unknown" }
      return ({ db with assistant } : MeetingDb).setOperation failed
    else .ok (db.setOperation { operation with status := .accepted })

def recover (now : Instant) (db : MeetingDb) : Except Fault MeetingDb :=
  db.running.foldlM (recoverOperation now) db

end MeetingDb

/-- Why a worker stops an operation. -/
inductive StopCause where
  | denied
  | startFailed
  | refreshFailed
  deriving DecidableEq

/-- An operation whose authority is revoked is cancelled; any other failure fails it. -/
def StopCause.targets : StopCause → OperationStatus × ExecutionStatus × String
  | .denied => (.cancelled, .cancelled, "authority_revoked")
  | .startFailed | .refreshFailed => (.failed, .failed, "operation_failed")

def missingRow : Fault := .typeError "'NoneType' object has no attribute"

namespace MeetingDb

/-- Stop an operation, and its execution where that is not over. -/
def stopOperation (db : MeetingDb) (id : OperationId) (cause : StopCause) (now : Instant) :
    Except Fault MeetingDb := do
  let (status, target, code) := cause.targets
  let operation ← require (db.operations.get id) missingRow
  let stopped := db.setOperation { operation with status, errorCode := some code }
  match db.executionOf operation with
  | none => return stopped
  | some execution =>
    if isTerminalExecutionStatus execution.profile execution.status = true then return stopped
    else
      let (_, assistant) ← stopped.assistant.transitionExecution execution.id
        { expectedVersion := execution.stateVersion
          targetStatus := target
          eventType := "meeting.operation_stopped"
          errorCode := some code
          changedAt := now }
      return { stopped with assistant }

end MeetingDb

structure TurnRequest where
  sessionId : SessionId
  goal : String
  clientRequestId : Option String

inductive TurnStage where
  | requested (request : TurnRequest)
  | received (execution : ExecutionId)
  | contextualized (execution : ExecutionId)
  | decided (execution : ExecutionId)
  | asked (execution : ExecutionId)

inductive DispatchPhase where
  | idle
  | claimed (id : OperationId)
  | starting (id : OperationId)
  | turning (id : OperationId) (stage : TurnStage)
  | refreshing (id : OperationId)
  | stopping (id : OperationId) (cause : StopCause)
  | dead

namespace DispatchPhase

def held : DispatchPhase → Option OperationId
  | .claimed id | .starting id | .turning id _ | .refreshing id | .stopping id _ => some id
  | .idle | .dead => none

def Alive : DispatchPhase → Prop
  | .dead => False
  | _ => True

instance (phase : DispatchPhase) : Decidable phase.Alive := by
  unfold Alive
  split <;> infer_instance

end DispatchPhase

/-- What a call raises: the database is unavailable for now, the plugin denies, or anything else. -/
inductive Raised where
  | operational
  | denied
  | other
  deriving DecidableEq

def Raised.cause : Raised → StopCause
  | .denied => .denied
  | .operational | .other => .startFailed

def Fault.cause : Fault → StopCause
  | .denied _ => .denied
  | _ => .startFailed

/-- The workers over the tables; the operations dispatched since they started, and the fast
turns whose model has ever been asked, are kept for the statements. -/
structure WorkerWorld where
  db : MeetingDb
  workers : List DispatchPhase := []
  dispatched : List OperationId := []
  asked : List ExecutionId := []

inductive WorkerAction where
  | plugin (a : PluginAction)
  | start (now : Instant) (raised : Option Raised)
  | stop
  | claim (worker : ℕ) (raised : Option Raised)
  | dispatch (worker : ℕ) (now : Instant) (raised : Option Raised)
  | turn (worker : ℕ) (id : ExecutionId) (now : Instant)
  | returned (worker : ℕ)
  | raises (worker : ℕ) (raised : Raised)
  | refresh (worker : ℕ) (raised : Bool)
  | fail (worker : ℕ) (now : Instant) (raised : Option Raised)

structure WorkerConfig where
  executor : ExecutorConfig
  host : HostConfig
  concurrency : ℕ

/-- What is handed to the runtime of an operation whose authority is in force. -/
def MeetingDb.dispatch (db : MeetingDb) (id : OperationId) (now : Instant) :
    Except Fault DispatchPhase := do
  let operation ← require (db.operations.get id) missingRow
  let scope ← db.requireAuthority operation now
  let execution ← require (db.executionOf operation) missingRow
  if operation.action = .ask then
    return .turning id (.requested
      { sessionId := scope.legacySessionId
        goal := execution.goal
        clientRequestId := execution.clientRequestId })
  else return .starting id

/-- Move an execution that is in a status on to another one. -/
def Db.advance (db : Db) (id : ExecutionId) (current target : ExecutionStatus)
    (eventType : String) (now : Instant) : Except Fault Db := do
  let execution ← db.getExecutionRequired id
  if execution.status = current then
    let (_, db) ← db.transitionExecution execution.id
      { expectedVersion := execution.stateVersion
        targetStatus := target
        eventType
        changedAt := now }
    return db
  else return db

/-- One step of a fast turn: its execution is found, and is run if it is new; then its context
is built, and the model is asked. -/
def TurnStage.step (id : ExecutionId) (now : Instant) (db : Db) :
    TurnStage → Except Fault (Option TurnStage × Db)
  | .requested request => do
    let (execution, db) ← db.createExecution request.sessionId .fastTurn request.goal
      request.clientRequestId none none none id now
    if execution.status = .received then return (some (.received execution.id), db)
    else return (none, db)
  | .received x => do
    let db ← db.advance x .received .contextualizing "fast_turn.contextualizing" now
    return (some (.contextualized x), db)
  | .contextualized x => do
    let db ← db.advance x .contextualizing .deciding "fast_turn.context_frozen" now
    return (some (.decided x), db)
  | .decided x => .ok (some (.asked x), db)
  | .asked x => .ok (some (.asked x), db)

/-- The fast turn whose model a step asks for the first time. -/
def TurnStage.asks : TurnStage → List ExecutionId
  | .decided x => [x]
  | _ => []

def WorkerAction.worker? : WorkerAction → Option ℕ
  | .claim worker _ | .dispatch worker _ _ | .turn worker _ _ | .returned worker
  | .raises worker _ | .refresh worker _ | .fail worker _ _ => some worker
  | _ => none

namespace WorkerWorld

variable (w : WorkerWorld)

def setWorker (worker : ℕ) (phase : DispatchPhase) : WorkerWorld :=
  { w with workers := w.workers.set worker phase }

def live : ℕ := w.workers.countP fun phase => phase.Alive

def workerStep (worker : ℕ) : DispatchPhase → WorkerAction → Option WorkerWorld
  | .idle, .claim _ none =>
    let (claimed, db) := w.db.claim
    some ({ w with db }.setWorker worker (claimed.elim .idle .claimed))
  | .idle, .claim _ (some .operational) => some w
  | .idle, .claim _ (some _) => some (w.setWorker worker .dead)
  | .claimed id, .dispatch _ now raised =>
    let phase := match raised, w.db.dispatch id now with
      | some raised, _ => .stopping id raised.cause
      | none, .ok phase => phase
      | none, .error fault => .stopping id fault.cause
    some ({ w with dispatched := w.dispatched ++ [id] }.setWorker worker phase)
  | .turning id stage, .turn _ x now =>
    match stage.step x now w.db.assistant with
    | .ok (next, assistant) =>
      let db := { w.db with assistant }
      some ({ w with db, asked := w.asked ++ stage.asks }.setWorker worker
        (next.elim (.refreshing id) (.turning id)))
    | .error _ => none
  | .starting id, .returned _ | .turning id _, .returned _ =>
    some (w.setWorker worker (.refreshing id))
  | .starting id, .raises _ raised | .turning id _, .raises _ raised =>
    some (w.setWorker worker (.stopping id raised.cause))
  | .refreshing _, .refresh _ false =>
    some ({ w with db := w.db.refreshRunning }.setWorker worker .idle)
  | .refreshing id, .refresh _ true => some (w.setWorker worker (.stopping id .refreshFailed))
  | .stopping id cause, .fail _ now none =>
    match w.db.stopOperation id cause now with
    | .ok db => some ({ w with db }.setWorker worker .idle)
    | .error _ => some (w.setWorker worker .dead)
  | .stopping _ _, .fail _ _ (some _) => some (w.setWorker worker .dead)
  | _, _ => none

/-- Where an action leads, if it can be taken. The plugin tracks no operation besides: that is
what the workers do. -/
def next (cfg : WorkerConfig) : WorkerAction → Option WorkerWorld
  | .plugin (.track _ _ _) => none
  | .plugin a => (w.db.next cfg.executor cfg.host a).map fun db => { w with db }
  | .start now none =>
    if w.workers = [] then
      match w.db.recover now with
      | .ok db =>
        some { w with db, workers := List.replicate cfg.concurrency .idle, dispatched := [] }
      | .error _ => some w
    else some w
  | .start _ (some _) => some w
  | .stop => some { w with workers := [] }
  | a => a.worker?.bind fun worker => w.workers[worker]?.bind fun phase =>
      w.workerStep worker phase a

def Steps (cfg : WorkerConfig) (w : WorkerWorld) (a : WorkerAction) (w' : WorkerWorld) : Prop :=
  w.next cfg a = some w'

end WorkerWorld

end Assistant
end Matinier
