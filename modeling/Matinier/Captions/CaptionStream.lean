import Matinier.Captions.Reconciler

/-!
# A caption stream

A session with a handler for its events. The task of `_consume_events` takes one event of the
provider's iterator after the other and calls the handler, which stores what is final and
publishes what is new. It is not the task that sends the audio: `send_frame` looks at that one
only.
-/

namespace Matinier
namespace Captions

structure SegmentRow where
  revision : ℕ
  text : String
  deriving DecidableEq, Repr

/-- What the handler of an event waits for. -/
inductive HandlerPoint where
  /-- The last publication for the event. -/
  | last
  /-- `publish_error` of a stream that failed, before its `publish_status`. -/
  | streamError
  /-- The last publication for a stream that failed. -/
  | streamFailed
  deriving DecidableEq, Repr

structure CaptionStream where
  session : AudioSession
  reconciler : Reconciler
  rows : String → Option SegmentRow
  /-- The runtime has come to an end: it handles nothing any more. -/
  terminal : Bool := false
  handling : Option HandlerPoint := none
  draftIntervalMs : ℚ := 250
  lastDraftPublishAtMs : String → Option ℚ := fun _ => none
  /-- Every event the iterator has given out. -/
  yielded : List ProviderEvent := []

namespace CaptionStream

variable (w : CaptionStream)

def die (error : AudioError) : CaptionStream :=
  { w with session := { w.session with events := .raised error }, handling := none }

def leave : CaptionStream :=
  { w with session := { w.session with events := .returned }, handling := none }

/-- `upsert_final`: a row that is not older stays. -/
def upsertFinal (caption : CaptionEvent) : CaptionStream :=
  match w.rows caption.segmentId with
  | some row =>
    if caption.revision ≤ row.revision then w
    else { w with
      rows := Function.update w.rows caption.segmentId (some ⟨caption.revision, caption.text⟩) }
  | none => { w with
      rows := Function.update w.rows caption.segmentId (some ⟨caption.revision, caption.text⟩) }

def written (persist : Option AudioError) (wrote : CaptionStream) : CaptionStream :=
  match persist with
  | some error => w.die error
  | none => wrote

/-- The drafts of a translation are published at intervals. -/
def draftDue (nowMs : ℚ) (segmentId : String) : Bool :=
  match w.session.kind, w.lastDraftPublishAtMs segmentId with
  | .translation, some last => w.draftIntervalMs ≤ nowMs - last
  | _, _ => true

def publishDraft (nowMs : ℚ) (segmentId : String) : CaptionStream :=
  if w.draftDue nowMs segmentId then
    { w with
      handling := some .last
      lastDraftPublishAtMs := Function.update w.lastDraftPublishAtMs segmentId (some nowMs) }
  else w

/-- The handler of an event that may be a revision, up to its publication. -/
def handleResult (event : ProviderEvent) (persist : Option AudioError) (nowMs : ℚ) :
    CaptionStream :=
  match w.reconciler.consume event with
  | .error error => w.die error
  | .ok (reconciler, none) => { w with reconciler }
  | .ok (reconciler, some caption) =>
    let revised := { w with reconciler }
    match caption.status with
    | .draft => revised.publishDraft nowMs caption.segmentId
    | .final =>
      revised.written persist { revised.upsertFinal caption with handling := some .last }

/-- A stream that failed: the record is written, and a translation runtime has come to an end
then, before anything is published. -/
def handleStreamError (persist : Option AudioError) : CaptionStream :=
  match w.session.kind with
  | .transcription => w.written persist { w with handling := some .streamError }
  | .translation => w.written persist { w with terminal := true, handling := some .streamFailed }

/-- `handle_asr_event` and `handle_event`, up to where they are suspended first. -/
def handleEvent (event : ProviderEvent) (persist : Option AudioError) (nowMs : ℚ) :
    CaptionStream :=
  if w.terminal then w
  else match event.eventType with
    | .streamStarted => w.written persist { w with handling := some .last }
    | .streamError => w.handleStreamError persist
    | .streamCompleted | .partialResult | .finalResult => w.handleResult event persist nowMs

def afterEvent (event : ProviderEvent) : CaptionStream :=
  if w.session.kind = .translation ∧ event.eventType = .streamError ∧ w.handling = none ∧
      w.session.events = .running then w.leave
  else w

def Listening : Prop := w.session.state ≠ .idle ∧ w.session.events = .running ∧ w.handling = none

instance : Decidable w.Listening := inferInstanceAs (Decidable (_ ∧ _))

end CaptionStream

inductive StreamAction where
  /-- A step of the audio side. -/
  | audio (a : AudioAction)
  /-- The iterator gives out an event. -/
  | event (event : ProviderEvent) (persist : Option AudioError) (nowMs : ℚ)
  | published
  | publishRaises (error : AudioError)
  | iteratorEnds
  | iteratorRaises (error : AudioError)

namespace CaptionStream

variable (w : CaptionStream)

def published : Option CaptionStream :=
  match w.handling with
  | some .last => some { w with handling := none }
  | some .streamError => some { w with handling := some .streamFailed }
  | some .streamFailed =>
    match w.session.kind with
    | .transcription => some { w with terminal := true, handling := none }
    | .translation => some w.leave
  | none => none

def next : StreamAction → Option CaptionStream
  | .audio .eventsReturn | .audio (.eventsRaise _) => none
  | .audio a => (w.session.next a).map fun session => { w with session }
  | .event event persist nowMs =>
    if w.Listening then
      some ({ w with yielded := w.yielded ++ [event] }.handleEvent event persist nowMs
        |>.afterEvent event)
    else none
  | .published => if w.session.events = .running then w.published else none
  | .publishRaises error =>
    if w.session.events = .running ∧ w.handling ≠ none then some (w.die error) else none
  | .iteratorEnds => if w.Listening then some w.leave else none
  | .iteratorRaises error => if w.Listening then some (w.die error) else none

def Steps (w : CaptionStream) (a : StreamAction) (t : CaptionStream) : Prop := w.next a = some t

def Accepting : Prop := w.session.state = .started ∧ w.session.sender.done = false

instance : Decidable w.Accepting := inferInstanceAs (Decidable (_ ∧ _))

def create (session : AudioSession) (rows : String → Option SegmentRow) : CaptionStream where
  session
  reconciler := { kind := session.kind }
  rows

end CaptionStream
end Captions
end Matinier
