import Matinier.MeetingAssistant.Session
import Matinier.Foundation.Machine

/-!
# Meeting sessions and their host

A session of the meeting assistant and the host that stores its pointers and has its view. The lock
of the session is held over its calls, one of which is under way at a time: the host refuses it, or
it does what is asked and its answer arrives or is lost. Hints come at any time. A session may be
closed or crash at any time, behind a call that the host still takes or not, and it is opened again
from what the host has.
-/

namespace Matinier
namespace MeetingAssistant

variable {V : Type} [DecidableEq V]

/-- What the host has of a session, and the session while it is open. The versions of the views that
were accepted, and whether the answer to a put or to the last publication that was taken was lost
since the session was opened, are kept for the specification. -/
structure MeetingWorld (V : Type) where
  stored : Option SavedPointers := none
  version : ℕ := 0
  row : Option (ViewRow V) := none
  accepted : List ℕ := []
  session : Option (MeetingSession V) := none
  lostPut : Bool := false
  lostView : Bool := false

/-- The session that is opened on what the host has; its first refresh is read for. -/
def MeetingSession.opening (version : ℕ) (stored : Option SavedPointers) (afterSequence : ℕ) :
    MeetingSession V where
  pointers := (stored.map SavedPointers.toMeetingPointers).getD {}
  viewVersion := (stored.map SavedPointers.viewVersion).getD 0
  stateVersion := version
  sequence := afterSequence
  holder := some (.reading .opening)

namespace MeetingWorld

variable (w : MeetingWorld V)

def hostView : Option V := w.row.map ViewRow.view

def restorable : Bool :=
  w.version ≤ maxInteger && w.stored.all SavedPointers.restorable

/-- A put is taken at the version of the host only, and a view if its version is above that of the
one there is, or if nothing has changed. -/
def accepts : HostCall V → Bool
  | .put _ expectedVersion _ => expectedVersion = w.version
  | .publish row => w.row.all fun there => row = there || there.version < row.version

def applied : HostCall V → MeetingWorld V
  | .put value _ _ => { w with stored := some value, version := w.version + 1 }
  | .publish row => { w with row := some row, accepted := row.version :: w.accepted }

def heard : HostCall V → MeetingWorld V
  | .put _ _ _ => w
  | .publish _ => { w with lostView := false }

def unheard : HostCall V → MeetingWorld V
  | .put _ _ _ => { w with lostPut := true }
  | .publish _ => { w with lostView := true }

end MeetingWorld

/-- The answer to a call is one that the session reads. -/
def HostCall.readable : HostCall V → Prop
  | .put _ expectedVersion _ => expectedVersion + 1 ≤ maxInteger
  | .publish _ => True

inductive MeetingAction where
  | opening (afterSequence : ℕ)
  | hint (sequences : List ℕ)
  | starts
  | wakes
  | workerRefreshes
  | commandRefreshes
  | confirms
  | applies
  | selects (command : SelectCommand)
  | reads (reading : MeetingReading)
  | failsToRead (scope : Bool)
  | admits (operationId : String)
  | admitsUnknown
  | answers
  | refuses
  | loses
  | closes
  | closesBehind

/-- The steps of a session and its host. An answer that the session does not read is one that is
lost. -/
inductive MeetingSteps (build : MeetingShown → Option V) :
    MeetingWorld V → MeetingAction → MeetingWorld V → Prop
  | opening {w : MeetingWorld V} (afterSequence : ℕ) (hclosed : w.session = none)
      (hrestorable : w.restorable = true) :
      MeetingSteps build w (.opening afterSequence)
        { w with
          session := some (.opening w.version w.stored afterSequence)
          lostPut := false
          lostView := false }
  | hint {w : MeetingWorld V} {p : MeetingSession V} (sequences : List ℕ)
      (hsession : w.session = some p) (hopened : p.opened = true) :
      MeetingSteps build w (.hint sequences) { w with session := some (p.eventBatch sequences) }
  | starts {w : MeetingWorld V} {p : MeetingSession V} (hsession : w.session = some p)
      (hworker : p.worker = some .starting) :
      MeetingSteps build w .starts { w with session := some p.loopHead }
  | wakes {w : MeetingWorld V} {p : MeetingSession V} (hsession : w.session = some p)
      (hworker : p.worker = some .sleeping) :
      MeetingSteps build w .wakes { w with session := some p.wake }
  | workerRefreshes {w : MeetingWorld V} {p : MeetingSession V} (hsession : w.session = some p)
      (hlock : p.holder = none) (hworker : p.worker = some .waiting) :
      MeetingSteps build w .workerRefreshes
        { w with
          session := some
            { p with
              holder := some (.reading .worker)
              worker := some .refreshing
              history := { p.history with since := true } } }
  | commandRefreshes {w : MeetingWorld V} {p : MeetingSession V} (hsession : w.session = some p)
      (hlock : p.holder = none) (hwaits : 0 < p.refreshers) :
      MeetingSteps build w .commandRefreshes
        { w with
          session := some
            { p with
              holder := some (.reading .command)
              refreshers := p.refreshers - 1
              history := { p.history with since := true } } }
  | confirms {w : MeetingWorld V} {p : MeetingSession V} (hsession : w.session = some p)
      (hopened : p.opened = true) (hlock : p.holder = none) :
      MeetingSteps build w .confirms
        { w with
          session := some
            (({ p with notice := some .confirmationRequired } : MeetingSession V).publish build
              w.hostView .confirmation) }
  | applies {w : MeetingWorld V} {p : MeetingSession V} (hsession : w.session = some p)
      (hopened : p.opened = true) (hlock : p.holder = none)
      (hroom : p.pointers.pendingOperations.length < 20) :
      MeetingSteps build w .applies { w with session := some { p with holder := some .admitting } }
  | selects {w : MeetingWorld V} {p : MeetingSession V} (command : SelectCommand)
      (hsession : w.session = some p) (hopened : p.opened = true) (hlock : p.holder = none) :
      MeetingSteps build w (.selects command)
        { w with session := some (p.selectCommand build w.hostView command) }
  | reads {w : MeetingWorld V} {p : MeetingSession V} {refresher : Refresher}
      (reading : MeetingReading) (hsession : w.session = some p)
      (hholder : p.holder = some (.reading refresher)) (hfits : p.Fits reading) :
      MeetingSteps build w (.reads reading)
        { w with
          session := some ((p.take reading).publish build w.hostView (.refresh refresher true)) }
  | failsToRead {w : MeetingWorld V} {p : MeetingSession V} {refresher : Refresher} (scope : Bool)
      (hsession : w.session = some p) (hholder : p.holder = some (.reading refresher)) :
      MeetingSteps build w (.failsToRead scope)
        { w with
          session := some
            ((p.failRead scope).publish build w.hostView (.refresh refresher false)) }
  | admits {w : MeetingWorld V} {p : MeetingSession V} (operationId : String)
      (hsession : w.session = some p) (hholder : p.holder = some .admitting)
      (hidentifier : identifier 36 operationId = true) :
      MeetingSteps build w (.admits operationId)
        { w with
          session := some ((p.admitOperation operationId).save build w.hostView .admitted none) }
  | admitsUnknown {w : MeetingWorld V} {p : MeetingSession V} (hsession : w.session = some p)
      (hholder : p.holder = some .admitting) :
      MeetingSteps build w .admitsUnknown
        { w with
          session := some
            (({ p with notice := some .operationUnknown } : MeetingSession V).publish build
              w.hostView .unknown) }
  | answers {w : MeetingWorld V} {p : MeetingSession V} {task : LockTask} {call : HostCall V}
      (hsession : w.session = some p) (hholder : p.holder = some (.calling task call))
      (haccepts : w.accepts call = true) (hreadable : call.readable) :
      MeetingSteps build w .answers
        { (w.applied call).heard call with
          session := some (p.answered build (w.applied call).hostView task call) }
  | refuses {w : MeetingWorld V} {p : MeetingSession V} {task : LockTask} {call : HostCall V}
      (hsession : w.session = some p) (hholder : p.holder = some (.calling task call)) :
      MeetingSteps build w .refuses { w with session := some (p.fail task) }
  | loses {w : MeetingWorld V} {p : MeetingSession V} {task : LockTask} {call : HostCall V}
      (hsession : w.session = some p) (hholder : p.holder = some (.calling task call))
      (haccepts : w.accepts call = true) :
      MeetingSteps build w .loses
        { (w.applied call).unheard call with session := some (p.fail task) }
  | closes {w : MeetingWorld V} : MeetingSteps build w .closes { w with session := none }
  | closesBehind {w : MeetingWorld V} {p : MeetingSession V} {task : LockTask} {call : HostCall V}
      (hsession : w.session = some p) (hholder : p.holder = some (.calling task call))
      (haccepts : w.accepts call = true) :
      MeetingSteps build w .closesBehind { w.applied call with session := none }

end MeetingAssistant
end Matinier
