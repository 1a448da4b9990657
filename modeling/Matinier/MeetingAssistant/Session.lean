import Matinier.CourseOrganizer.Events

/-!
# Meeting sessions

The state of a session of the meeting assistant, what it reads of the answers of the host, where
its commands move the pointers of its user interface, and how it saves them and publishes its view.
-/

namespace Matinier
namespace MeetingAssistant

def maxInteger : ℕ := 1000000000

def identifier (maximum : ℕ) (value : String) : Bool :=
  !(value.toList.all isSpace) && value.length ≤ maximum

def ids (maximum : ℕ) (values : List String) : Bool :=
  values.length ≤ maximum && values.all (identifier 255) && decide values.Nodup

/-- The statuses of an execution; one that is completed in part is "partial". -/
inductive ExecutionStatus where
  | received
  | contextualizing
  | deciding
  | executingReads
  | responding
  | handedOff
  | completed
  | failed
  | cancelled
  | queued
  | planning
  | executing
  | observing
  | waitingExternal
  | reconciling
  | needsInput
  | completedInPart
  deriving DecidableEq, Repr

def ExecutionStatus.quiet : ExecutionStatus → Bool
  | .completed => true
  | .failed => true
  | .cancelled => true
  | .handedOff => true
  | .completedInPart => true
  | .needsInput => true
  | _ => false

structure ExecutionRow where
  executionId : String
  status : ExecutionStatus
  deriving DecidableEq

inductive ProcessingStatus where
  | inactive
  | active
  | draining
  | completed
  deriving DecidableEq, Repr

/-- A state of the meeting as the host answers with it: what the session reads of it, and all of its
data as text. -/
structure MeetingSnapshot where
  processing : ProcessingStatus
  candidates : List String
  marks : List String
  executions : List ExecutionRow
  nextOffset : ℕ
  nextCursor : ℕ
  hasMore : Bool
  hasMoreEvents : Bool
  data : String
  deriving DecidableEq

structure MeetingDetail where
  execution : Option ExecutionRow
  nextCursor : Option ℕ
  data : String
  deriving DecidableEq

inductive OperationStatus where
  | accepted
  | queued
  | running
  | completed
  | failed
  | cancelled
  deriving DecidableEq, Repr

def OperationStatus.underWay : OperationStatus → Bool
  | .accepted => true
  | .queued => true
  | .running => true
  | _ => false

/-- What is answered about an operation, with its detail if it has an execution or an error. -/
structure OperationAnswer where
  status : OperationStatus
  detail : Option MeetingDetail

/-- The answers that a refresh reads: the state of the meeting, the executions of its newest page,
those about the pending operations in their order, and that about the selected execution. The state
is read twice if an operation is through; it is that of the second time. -/
structure MeetingReading where
  snapshot : MeetingSnapshot
  liveExecutions : List ExecutionRow
  operations : List OperationAnswer
  selected : Option MeetingDetail

structure MeetingPointers where
  offset : ℕ := 0
  eventAfter : ℕ := 0
  pageCursors : List ℕ := []
  detailOffset : ℕ := 0
  detailAfter : ℕ := 0
  detailCursors : List ℕ := []
  selectedCandidates : List String := []
  selectedMarks : List String := []
  selectedExecution : Option String := none
  pendingOperations : List String := []
  deriving DecidableEq

structure SavedPointers extends MeetingPointers where
  viewVersion : ℕ := 0
  deriving DecidableEq

/-- A value of the store is one that a session can be opened with. -/
def SavedPointers.restorable (s : SavedPointers) : Bool :=
  s.viewVersion ≤ maxInteger && ids 20 s.selectedCandidates && ids 50 s.selectedMarks &&
    ids 20 s.pendingOperations && s.selectedExecution.all (identifier 255) &&
    s.offset ≤ 1000000 && s.eventAfter ≤ maxInteger && s.detailOffset ≤ 1000000 &&
    s.detailAfter ≤ maxInteger && s.pageCursors.length ≤ 1000 && s.detailCursors.length ≤ 1000 &&
    s.pageCursors.all (· ≤ maxInteger) && s.detailCursors.all (· ≤ maxInteger)

inductive MeetingError where
  | scopeUnavailable
  | refreshFailed
  | viewUnavailable
  deriving DecidableEq, Repr

inductive MeetingNotice where
  | confirmationRequired
  | operationUnknown
  deriving DecidableEq, Repr

structure MeetingShown where
  snapshot : Option MeetingSnapshot
  detail : Option MeetingDetail
  errorCode : Option MeetingError
  notice : Option MeetingNotice
  selectedCandidates : List String
  selectedMarks : List String
  pendingOperations : List String
  detailOffset : ℕ
  liveExecutions : List ExecutionRow
  deriving DecidableEq

structure ViewRow (V : Type) where
  version : ℕ
  view : V
  deriving DecidableEq

/-- A refresh is part of the opening, of the worker or of a command. -/
inductive Refresher where
  | opening
  | worker
  | command
  deriving DecidableEq, Repr

/-- Where the worker is: made and not begun, between two polls, at the lock, or in a refresh. -/
inductive WorkerPhase where
  | starting
  | sleeping
  | waiting
  | refreshing
  deriving DecidableEq, Repr

/-- What saves or publishes: a refresh, with whether its reading succeeded; the notice of a
confirmation; an operation that was admitted, or is not known to be; and a selection. -/
inductive LockTask where
  | refresh (refresher : Refresher) (readSucceeded : Bool)
  | confirmation
  | admitted
  | unknown
  | selection
  deriving DecidableEq, Repr

/-- A call that is under way. A put is followed by the publication of a view, if one is due. -/
inductive HostCall (V : Type) where
  | put (value : SavedPointers) (expectedVersion : ℕ) (row : Option (ViewRow V))
  | publish (row : ViewRow V)
  deriving DecidableEq

/-- What the lock is held for. -/
inductive Holder (V : Type) where
  | reading (refresher : Refresher)
  | admitting
  | calling (task : LockTask) (call : HostCall V)
  deriving DecidableEq

/-- How the refreshes went, for the specification: how many failed since the last that succeeded,
whether one that began behind the last hint has succeeded and is shown by the host, and whether
there was no hint since the one under way began. -/
structure RefreshHistory where
  failedRounds : ℕ := 0
  fresh : Bool := false
  since : Bool := true
  deriving DecidableEq

structure MeetingSession (V : Type) where
  pointers : MeetingPointers := {}
  viewVersion : ℕ := 0
  stateVersion : ℕ := 0
  sequence : ℕ := 0
  snapshot : Option MeetingSnapshot := none
  liveExecutions : List ExecutionRow := []
  detail : Option MeetingDetail := none
  errorCode : Option MeetingError := none
  notice : Option MeetingNotice := none
  published : Option V := none
  saved : Option SavedPointers := none
  failures : ℕ := 0
  dirty : Bool := false
  worker : Option WorkerPhase := none
  holder : Option (Holder V) := none
  refreshers : ℕ := 0
  opened : Bool := false
  history : RefreshHistory := {}

/-- A command that moves the pointers. The candidates and marks are those asked for, or ticked. -/
inductive SelectCommand where
  | refresh
  | selectCandidates (chosen : List String)
  | selectMarks (chosen : List String)
  | selectExecution (executionId : String)
  | loadMore
  | previousPage
  | detailNext
  | detailPrevious

namespace MeetingSession

variable {V : Type} (p : MeetingSession V)

def savedPointers : SavedPointers := { p.pointers with viewVersion := p.viewVersion }

def shown : MeetingShown where
  snapshot := p.snapshot
  detail := p.detail
  errorCode := p.errorCode
  notice := p.notice
  selectedCandidates := p.pointers.selectedCandidates
  selectedMarks := p.pointers.selectedMarks
  pendingOperations := p.pointers.pendingOperations
  detailOffset := p.pointers.detailOffset
  liveExecutions := p.liveExecutions

def pollWanted : Bool :=
  !p.pointers.pendingOperations.isEmpty ||
    match p.snapshot with
    | none => false
    | some snapshot =>
      snapshot.processing = .active || snapshot.processing = .draining ||
        (p.liveExecutions ++ snapshot.executions ++
          (p.detail.bind MeetingDetail.execution).toList).any fun row => !row.status.quiet

def pollNeeded : Bool := p.failures < 3 && p.pollWanted

/-- Have a worker, if there is reason for one. A worker that begins to poll sleeps first. -/
def schedule (dirty : Bool) : MeetingSession V :=
  let marked := { p with dirty := p.dirty || dirty }
  if p.worker.isSome then marked
  else if marked.dirty then { marked with worker := some .starting }
  else if p.pollNeeded then { marked with worker := some .sleeping }
  else marked

def loopHead : MeetingSession V :=
  if p.dirty then { p with dirty := false, worker := some .waiting }
  else if p.pollNeeded then { p with worker := some .sleeping }
  else { p with worker := none }

def wake : MeetingSession V := { p with dirty := false, worker := some .waiting }

def eventBatch (sequences : List ℕ) : MeetingSession V :=
  let latest := sequences.foldl max p.sequence
  if p.sequence < latest then
    let hinted := { p with
      sequence := latest
      history := { p.history with fresh := false, since := false } }
    hinted.schedule true
  else p

def Fits (r : MeetingReading) : Prop :=
  r.operations.length = p.pointers.pendingOperations.length ∧
    r.selected.isSome = p.pointers.selectedExecution.isSome

def take (r : MeetingReading) : MeetingSession V :=
  let answers := p.pointers.pendingOperations.zip r.operations
  let pending := (answers.filter fun a => a.2.status.underWay).map Prod.fst
  let detail := answers.foldl (fun detail a => a.2.detail.or detail) p.detail
  { p with
    snapshot := some r.snapshot
    liveExecutions := r.liveExecutions
    detail := r.selected.or detail
    pointers := { p.pointers with pendingOperations := pending }
    errorCode := none }

/-- A reading fails, for its scope or for something else. -/
def failRead (scope : Bool) : MeetingSession V :=
  { p with
    failures := if scope then 3 else p.failures + 1
    errorCode := if scope then some .scopeUnavailable else some .refreshFailed
    history := { p.history with failedRounds := p.history.failedRounds + 1 } }

def select (available chosen : List String) (maximum : ℕ) : Option (List String) :=
  if ids maximum chosen && chosen.all (· ∈ available) then some chosen else none

def move : SelectCommand → MeetingPointers × Bool
  | .refresh => (p.pointers, false)
  | .selectCandidates chosen =>
    match select ((p.snapshot.map MeetingSnapshot.candidates).getD []) chosen 20 with
    | some selected => ({ p.pointers with selectedCandidates := selected }, false)
    | none => (p.pointers, true)
  | .selectMarks chosen =>
    match select ((p.snapshot.map MeetingSnapshot.marks).getD []) chosen 50 with
    | some selected => ({ p.pointers with selectedMarks := selected }, false)
    | none => (p.pointers, true)
  | .selectExecution executionId =>
    let rows := (p.snapshot.map MeetingSnapshot.executions).getD []
    if identifier 255 executionId && rows.any (·.executionId = executionId) then
      ({ p.pointers with
        selectedExecution := some executionId
        detailOffset := 0
        detailAfter := 0
        detailCursors := [] }, false)
    else (p.pointers, true)
  | .loadMore =>
    match p.snapshot with
    | none => (p.pointers, false)
    | some snapshot =>
      if snapshot.hasMore || snapshot.hasMoreEvents then
        if 1000 ≤ p.pointers.pageCursors.length then (p.pointers, true)
        else
          let paged := { p.pointers with
            pageCursors := p.pointers.pageCursors ++ [p.pointers.eventAfter]
            eventAfter := snapshot.nextCursor }
          -- The offset is checked behind the cursors.
          if snapshot.nextOffset ≤ 1000000 then
            ({ paged with offset := snapshot.nextOffset }, false)
          else (paged, true)
      else (p.pointers, false)
  | .previousPage =>
    ({ p.pointers with
      offset := p.pointers.offset - 10
      eventAfter := p.pointers.pageCursors.getLastD 0
      pageCursors := p.pointers.pageCursors.dropLast }, false)
  | .detailNext =>
    match p.detail with
    | none => (p.pointers, true)
    | some detail =>
      match detail.execution with
      | none => (p.pointers, true)
      | some execution =>
        if 1000 ≤ p.pointers.detailCursors.length then (p.pointers, true)
        else
          let paged := { p.pointers with
            selectedExecution := some execution.executionId
            detailCursors := p.pointers.detailCursors ++ [p.pointers.detailAfter]
            detailAfter := detail.nextCursor.getD p.pointers.detailAfter }
          if p.pointers.detailOffset + 10 ≤ 1000000 then
            ({ paged with detailOffset := p.pointers.detailOffset + 10 }, false)
          else (paged, true)
  | .detailPrevious =>
    ({ p.pointers with
      detailOffset := p.pointers.detailOffset - 10
      detailAfter := p.pointers.detailCursors.getLastD 0
      detailCursors := p.pointers.detailCursors.dropLast }, false)

def admitOperation (operationId : String) : MeetingSession V :=
  let pending := p.pointers.pendingOperations
  { p with
    pointers := { p.pointers with
      pendingOperations := if operationId ∈ pending then pending else pending ++ [operationId]
      selectedExecution := none
      detailOffset := 0
      detailAfter := 0
      detailCursors := [] }
    notice := none }

def finishRefresh : Refresher → MeetingSession V
  | .opening => ({ p with holder := none, opened := true } : MeetingSession V).schedule false
  | .worker => ({ p with holder := none } : MeetingSession V).loopHead
  | .command => ({ p with holder := none } : MeetingSession V).schedule false

/-- Work is over that a call failed. -/
def fail : LockTask → MeetingSession V
  | .refresh refresher readSucceeded =>
    ({ p with
      failures := p.failures + 1
      errorCode := some .viewUnavailable
      history := { p.history with
        failedRounds := p.history.failedRounds + if readSucceeded then 1 else 0 } } :
      MeetingSession V).finishRefresh refresher
  | .admitted =>
    ({ p with holder := none, errorCode := some .viewUnavailable } : MeetingSession V).schedule true
  | _ => { p with holder := none }

variable [DecidableEq V] (build : MeetingShown → Option V) (hostView : Option V)

/-- The view, unless its builder raises. -/
def view : Option V := build p.shown

def succeed : LockTask → MeetingSession V
  | .refresh refresher true =>
    ({ p with
      failures := 0
      history := { p.history with
        failedRounds := 0
        fresh := p.history.fresh || p.history.since && (p.view build).any (hostView = some ·) } } :
      MeetingSession V).finishRefresh refresher
  | .refresh refresher false => p.finishRefresh refresher
  | .admitted => ({ p with holder := none } : MeetingSession V).schedule true
  | .selection => { p with holder := none, refreshers := p.refreshers + 1 }
  | _ => { p with holder := none }

def behindPut (task : LockTask) : Option (ViewRow V) → MeetingSession V
  | some row => { p with holder := some (.calling task (.publish row)) }
  | none => p.succeed build hostView task

def save (task : LockTask) (row : Option (ViewRow V)) : MeetingSession V :=
  if p.saved = some p.savedPointers then p.behindPut build hostView task row
  else { p with holder := some (.calling task (.put p.savedPointers p.stateVersion row)) }

/-- Publish the view, unless it is published, under a version that is stored first. -/
def publish (task : LockTask) : MeetingSession V :=
  match p.view build with
  | none => p.fail task
  | some view =>
    if p.published = some view then p.save build hostView task none
    else
      ({ p with viewVersion := p.viewVersion + 1 } : MeetingSession V).save build hostView task
        (some ⟨p.viewVersion + 1, view⟩)

def answered (task : LockTask) : HostCall V → MeetingSession V
  | .put value expectedVersion row =>
    ({ p with stateVersion := expectedVersion + 1, saved := some value } :
      MeetingSession V).behindPut build hostView task row
  | .publish row =>
    ({ p with published := some row.view } : MeetingSession V).succeed build hostView task

/-- A command moves the pointers and has them saved, or raises. -/
def selectCommand (c : SelectCommand) : MeetingSession V :=
  match p.move c with
  | (pointers, true) => { p with pointers := pointers }
  | (pointers, false) =>
    ({ p with pointers := pointers, notice := none, failures := 0 } :
      MeetingSession V).save build hostView .selection none

end MeetingSession

end MeetingAssistant
end Matinier
