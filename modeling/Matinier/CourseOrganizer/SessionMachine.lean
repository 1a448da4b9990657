import Matinier.CourseOrganizer.Session
import Matinier.Foundation.Machine
import Matinier.Foundation.WriteBehind

/-!
# Course sessions and their host

A session and the host it stores its state and publishes its view at. What the session asks of the
host is under way for a while, and other work goes on meanwhile: batches and changes by tasks take
the lock of the session, commands do not. A crash may come at any time, and the session is opened
again from what the host has.
-/

namespace Matinier
namespace CourseOrganizer

/-- A batch, with what it schedules once it is stored; a change by a task; a command, with the
final document it starts to make, unless it is that of the end of the session; and the opening. -/
inductive OperationKind where
  | batch (window : Option (List PendingEvent)) (terminal : Bool)
  | change
  | command (manual : Option (String × String))
  | opening
  deriving DecidableEq

/-- Batches and changes hold the lock. -/
def OperationKind.locks : OperationKind → Bool
  | .batch _ _ => true
  | .change => true
  | _ => false

def OperationKind.isBatch : OperationKind → Bool
  | .batch _ _ => true
  | _ => false

inductive OperationStage where
  | storing (record : CourseRecord) (expectedVersion : ℕ)
  | stored (version : ℕ)
  | publishing (row : ViewRow)
  | published
  deriving DecidableEq

structure Operation where
  kind : OperationKind
  stage : OperationStage
  deriving DecidableEq

/-- Where a window is: its notes are asked for, or asked for again behind a fallback, or committed.
-/
inductive WindowStage where
  | asking
  | retrying (fallbackIds : List String)
  | finished
  deriving DecidableEq

/-- The tasks of a session. The one that ends the session takes a window first, if something is
pending, and makes the final document then. -/
inductive CourseTask where
  | window (stage : WindowStage) (snapshot : List PendingEvent) (ofTerminal : Bool)
  | terminal
  | final (jobId language : String) (ofTerminal : Bool)
  | language (target : String) (notes : CourseNotes)
  deriving DecidableEq

namespace CourseTask

def isBackground : CourseTask → Bool
  | .window _ _ ofTerminal => !ofTerminal
  | _ => false

def isTerminal : CourseTask → Bool
  | .window _ _ ofTerminal => ofTerminal
  | .terminal => true
  | .final _ _ ofTerminal => ofTerminal
  | .language _ _ => false

def isLanguage : CourseTask → Bool
  | .language _ _ => true
  | _ => false

def isManual (outputLanguage : String) : CourseTask → Bool
  | .final _ documentLanguage ofTerminal => documentLanguage = outputLanguage && !ofTerminal
  | _ => false

end CourseTask

/-- What a task comes to that changes the state. -/
inductive TaskOutcome where
  | noted (notes : List RealtimeNote)
  | fallback (notes : List RealtimeNote)
  | repaired (notes : List RealtimeNote)
  | localized (texts : List (String × String))
  | finalFailed (noCaptions : Bool)
  | finalMade (entry : HistoryEntry) (markdown : String)

/-- What is left of a task that comes to something, and the state as it is changed. -/
def CourseTask.outcome (cfg : CourseConfig) (r : CourseRecord) :
    CourseTask → TaskOutcome → Option (Option CourseTask × CourseRecord)
  | .window .asking snapshot ofTerminal, .noted notes =>
    some (some (.window .finished snapshot ofTerminal),
      r.commitWindow cfg snapshot notes .ready [])
  | .window .asking snapshot ofTerminal, .fallback notes =>
    some (some (.window (.retrying (notes.map RealtimeNote.id)) snapshot ofTerminal),
      r.commitWindow cfg snapshot notes .degraded [])
  | .window (.retrying fallbackIds) snapshot ofTerminal, .repaired notes =>
    some (some (.window .finished snapshot ofTerminal),
      r.commitWindow cfg [] notes .ready fallbackIds)
  | .language target notes, .localized texts =>
    if texts.length = notes.items.length then
      some (none, r.writeLanguage target (localizedNotes target texts notes))
    else none
  | .final jobId documentLanguage ofTerminal, .finalFailed noCaptions =>
    some (some (.final jobId documentLanguage ofTerminal), r.recordFinalFailure noCaptions)
  | .final jobId _ _, .finalMade entry markdown =>
    some (none, r.recordFinalSuccess entry markdown jobId)
  | _, _ => none

def finalTask (r : CourseRecord) : Option CourseTask :=
  match r.terminalJobId, r.terminalTrigger with
  | some jobId, some _ => some (.final jobId r.outputLanguage true)
  | _, _ => none

def CourseTask.next (r : CourseRecord) : CourseTask → Option CourseTask
  | .terminal => if r.pending = [] then finalTask r else some (.window .asking r.pending true)
  | .window .asking _ _ => none
  | .window _ _ true => finalTask r
  | _ => none

structure CourseProcess where
  state : CourseState
  opened : Bool
  operations : List Operation
  tasks : List CourseTask
  terminalTask : Bool

inductive CourseCommand where
  | generateFinal (commandId : String)
  | retryFinal (commandId : String)
  | setLanguage (language : String)
  | selectVersion

namespace CourseProcess

variable (cfg : CourseConfig) (p : CourseProcess)

def setRecord (r : CourseRecord) : CourseProcess :=
  { p with state := { r with stateVersion := p.state.stateVersion } }

def putState (kind : OperationKind) : CourseProcess :=
  { p with operations :=
      ⟨kind, .storing p.state.toDict p.state.stateVersion⟩ :: p.operations }

def publishView (kind : OperationKind) : CourseProcess :=
  { p with operations :=
      ⟨kind, .publishing ⟨p.state.viewVersion, p.state.view⟩⟩ :: p.operations }

def schedule (window : Option (List PendingEvent)) : CourseProcess :=
  match window with
  | some snapshot => { p with tasks := .window .asking snapshot false :: p.tasks }
  | none => p

def scheduleTerminal : CourseProcess :=
  if p.tasks.any CourseTask.isTerminal then p
  else { p with tasks := .terminal :: p.tasks, terminalTask := true }

/-- A session that is opened on what the host has; its view is published first. -/
def opening (version : ℕ) (stored : Option CourseRecord) (afterSequence : ℤ) : CourseProcess :=
  publishView
    { state := restoredState cfg.toRealtimeConfig version stored afterSequence
      opened := false
      operations := []
      tasks := []
      terminalTask := false } .opening

def finishOpening : CourseProcess :=
  if p.state.terminalJobId.isSome && p.state.terminalTrigger.isSome then
    { p.scheduleTerminal with opened := true }
  else if p.state.pending = [] then { p with opened := true }
  else match p.state.windowReady? cfg with
    | none => p
    | some false => { p with opened := true }
    | some true => (p.setRecord { p.state.toCourseRecord with status := .processing }).putState
        .opening

def batch (events : List JsonValue) : CourseProcess × Option ℤ :=
  match eventBatch cfg (p.tasks.any CourseTask.isBackground) p.terminalTask events
      p.state.toCourseRecord with
  | .raised r => (p.setRecord r, none)
  | .unchanged => (p, some p.state.lastSequence)
  | .changed r window terminal => ((p.setRecord r).putState (.batch window terminal), none)

/-- Start to make a final document now, unless one in that language is being made. -/
def generateFinal (commandId : String) : CourseProcess :=
  if p.tasks.any (CourseTask.isManual p.state.outputLanguage) then p
  else (p.setRecord (p.state.startFinal none)).putState
    (.command (some (commandId, p.state.outputLanguage)))

def command : CourseCommand → CourseProcess
  | .generateFinal commandId => p.generateFinal commandId
  | .retryFinal commandId =>
    if p.state.terminalTrigger.isSome then
      if p.tasks.any CourseTask.isTerminal then p
      else (p.setRecord (p.state.startFinal (some commandId))).putState (.command none)
    else p.generateFinal commandId
  | .setLanguage language =>
    let target := if language = "source" then p.state.sourceLanguage else some language
    match target with
    | none => p
    | some target =>
      if isLanguage target && !(p.tasks.any CourseTask.isLanguage) then
        { p with tasks := .language target p.state.notes :: p.tasks }
      else p
  | .selectVersion => p

/-- The state was stored: the memory has its version, and a batch is answered, or the view is
published. -/
def resume (kind : OperationKind) (version : ℕ) : CourseProcess × Option ℤ :=
  if version ≤ p.state.stateVersion then (p, none)
  else
    let told := { p with state := { p.state with stateVersion := version } }
    match kind with
    | .batch window terminal =>
      let scheduled := told.schedule window
      (if terminal then scheduled.scheduleTerminal else scheduled, some p.state.lastSequence)
    | .opening => ({ told.schedule (some told.state.pending) with opened := true }, none)
    | kind => (told.publishView kind, none)

/-- The view was published: what a command starts is started. -/
def finishPublishing (kind : OperationKind) : CourseProcess :=
  match kind with
  | .command none => p.scheduleTerminal
  | .command (some (jobId, language)) =>
    { p with tasks := .final jobId language false :: p.tasks }
  | .opening => { p with operations := ⟨.opening, .published⟩ :: p.operations }
  | _ => p

def lockFree : Bool := p.operations.all fun op => !op.kind.locks

end CourseProcess

/-- What the host has of a session, the session while it is open, the final captions that were in
some batch, and whether an answer to a put was lost since the session was opened. -/
structure CourseWorld where
  stored : Option CourseRecord := none
  version : ℕ := 0
  view : Option ViewRow := none
  process : Option CourseProcess := none
  delivered : List PendingEvent := []
  lost : Bool := false

inductive CourseAction where
  | opening (afterSequence : ℤ)
  | batch (events : List JsonValue) (answer : Option ℤ)
  | command (command : CourseCommand)
  | outcome (task : CourseTask) (outcome : TaskOutcome)
  | advanced (task : CourseTask)
  | ended (task : CourseTask)
  | stores (kind : OperationKind)
  | refuses (kind : OperationKind)
  | loses (kind : OperationKind)
  | resumes (kind : OperationKind) (answer : Option ℤ)
  | publishes (kind : OperationKind)
  | rejects (kind : OperationKind)
  | opened
  | crashed

/-- The final captions of a batch that are well formed. -/
def finalCaptions (events : List JsonValue) : List PendingEvent :=
  events.filterMap fun
    | .obj entries => pendingEvent entries
    | _ => none

/-- The steps of a session and its host. The host may refuse to store a state or to publish a view
for reasons of its own. The answer to a put that was taken may be lost: the put raises then, and
the session is not told of the version. -/
inductive CourseSteps (cfg : CourseConfig) : CourseWorld → CourseAction → CourseWorld → Prop
  | opening {w : CourseWorld} (afterSequence : ℤ) (hclosed : w.process = none)
      (hafter : 0 ≤ afterSequence) :
      CourseSteps cfg w (.opening afterSequence)
        { w with process := some (.opening cfg w.version w.stored afterSequence), lost := false }
  | batch {w : CourseWorld} {p : CourseProcess} (events : List JsonValue)
      (hprocess : w.process = some p) (hopened : p.opened = true) (hlock : p.lockFree = true) :
      CourseSteps cfg w (.batch events (p.batch cfg events).2)
        { w with
          process := some (p.batch cfg events).1
          delivered := w.delivered ++ finalCaptions events }
  | command {w : CourseWorld} {p : CourseProcess} (command : CourseCommand)
      (hprocess : w.process = some p) (hopened : p.opened = true) :
      CourseSteps cfg w (.command command) { w with process := some (p.command command) }
  | outcome {w : CourseWorld} {p : CourseProcess} {task : CourseTask}
    {before after : List CourseTask}
      {left : Option CourseTask} {r : CourseRecord} (outcome : TaskOutcome)
      (hprocess : w.process = some p) (hlock : p.lockFree = true)
      (htask : p.tasks = before ++ task :: after)
      (houtcome : task.outcome cfg p.state.toCourseRecord outcome = some (left, r)) :
      CourseSteps cfg w (.outcome task outcome)
        { w with
          process := some
            ((({ p with tasks := before ++ left.toList ++ after } : CourseProcess).setRecord
              r).putState .change) }
  -- The end of a session waits for the window that it finds under way. That window may be over
  -- before it looks, so nothing is said here of the windows that are under way now.
  | advanced {w : CourseWorld} {p : CourseProcess} {task next : CourseTask}
      {before after : List CourseTask} (hprocess : w.process = some p)
      (htask : p.tasks = before ++ task :: after)
      (hnext : task.next p.state.toCourseRecord = some next) :
      CourseSteps cfg w (.advanced task)
        { w with process := some { p with tasks := before ++ next :: after } }
  | ended {w : CourseWorld} {p : CourseProcess} {task : CourseTask} {before after : List CourseTask}
      (hprocess : w.process = some p) (htask : p.tasks = before ++ task :: after) :
      CourseSteps cfg w (.ended task) { w with process := some { p with tasks := before ++ after } }
  | stores {w : CourseWorld} {p : CourseProcess} {kind : OperationKind} {record : CourseRecord}
      {before after : List Operation} (hprocess : w.process = some p)
      (hoperation : p.operations = before ++ ⟨kind, .storing record w.version⟩ :: after) :
      CourseSteps cfg w (.stores kind)
        { w with
          stored := some record
          version := w.version + 1
          process := some { p with operations :=
            before ++ ⟨kind, .stored (w.version + 1)⟩ :: after } }
  | refuses {w : CourseWorld} {p : CourseProcess} {kind : OperationKind} {record : CourseRecord}
      {expectedVersion : ℕ} {before after : List Operation} (hprocess : w.process = some p)
      (hoperation : p.operations = before ++ ⟨kind, .storing record expectedVersion⟩ :: after) :
      CourseSteps cfg w (.refuses kind)
        { w with process := some { p with operations := before ++ after } }
  | loses {w : CourseWorld} {p : CourseProcess} {kind : OperationKind} {version : ℕ}
      {before after : List Operation} (hprocess : w.process = some p)
      (hoperation : p.operations = before ++ ⟨kind, .stored version⟩ :: after) :
      CourseSteps cfg w (.loses kind)
        { w with process := some { p with operations := before ++ after }, lost := true }
  | resumes {w : CourseWorld} {p : CourseProcess} {kind : OperationKind} {version : ℕ}
      {before after : List Operation} (hprocess : w.process = some p)
      (hoperation : p.operations = before ++ ⟨kind, .stored version⟩ :: after) :
      CourseSteps cfg w
        (.resumes kind (({ p with operations := before ++ after } : CourseProcess).resume kind
          version).2)
        { w with
          process := some
            (({ p with operations := before ++ after } : CourseProcess).resume kind version).1 }
  | publishes {w : CourseWorld} {p : CourseProcess} {kind : OperationKind} {row : ViewRow}
      {before after : List Operation} (hprocess : w.process = some p)
      (hoperation : p.operations = before ++ ⟨kind, .publishing row⟩ :: after)
      (haccepts : ViewRow.accepts w.view row = true) :
      CourseSteps cfg w (.publishes kind)
        { w with
          view := some row
          process := some
            (({ p with operations := before ++ after } : CourseProcess).finishPublishing kind) }
  | rejects {w : CourseWorld} {p : CourseProcess} {kind : OperationKind} {row : ViewRow}
      {before after : List Operation} (hprocess : w.process = some p)
      (hoperation : p.operations = before ++ ⟨kind, .publishing row⟩ :: after) :
      CourseSteps cfg w (.rejects kind)
        { w with process := some { p with operations := before ++ after } }
  | opened {w : CourseWorld} {p : CourseProcess} {before after : List Operation}
      (hprocess : w.process = some p)
      (hoperation : p.operations = before ++ ⟨.opening, .published⟩ :: after) :
      CourseSteps cfg w .opened
        { w with
          process := some
            (({ p with operations := before ++ after } : CourseProcess).finishOpening cfg) }
  | crashed {w : CourseWorld} : CourseSteps cfg w .crashed { w with process := none }

end CourseOrganizer
end Matinier
