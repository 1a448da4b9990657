import Matinier.Captions.AudioChunker
import Matinier.Foundation.Machine

/-!
# The audio side of a provider session

A transcription session and a translation session hand audio on in the same way: the frames of
`send_frame` are gathered into chunks, the chunks wait in a bounded queue, and a task of its own
sends them to the provider one after the other. `finish` puts what is left and a stop marker
behind them and waits for the task, the provider and the events. The two sessions have texts of
their own, and one of them looks for the error of its task when it is finished after it failed.
-/

namespace Matinier
namespace Captions

inductive SessionKind where
  | transcription
  | translation
  deriving DecidableEq, Repr

inductive AudioError where
  | value (message : String)
  | state (message : String)
  | backpressure (message : String)
  | invalidState (message : String)
  /-- An exception of the provider or of an event handler. -/
  | raised (message : String)
  | cancelled
  deriving DecidableEq, Repr

namespace SessionKind

def notAccepting : SessionKind → AudioError
  | .transcription => .state "transcription session is not accepting audio"
  | .translation => .state "translation session is not accepting audio"

def senderStopped : SessionKind → AudioError
  | .transcription => .state "transcription audio sender has stopped"
  | .translation => .state "translation sender has stopped"

def queueFull : SessionKind → AudioError
  | .transcription =>
    .backpressure "transcription audio queue is full; audio was not silently dropped"
  | .translation =>
    .backpressure "translation audio queue is full; audio was not silently dropped"

def tailRefused : SessionKind → AudioError
  | .transcription => queueFull .transcription
  | .translation => .backpressure "translation audio queue is full while finishing"

def cannotFinish : SessionKind → AudioError
  | .transcription => .state "transcription session cannot finish in its current state"
  | .translation => .state "translation session cannot finish in its current state"

end SessionKind

inductive SessionState where
  | idle
  | started
  | finishing
  | completed
  | failed
  deriving DecidableEq, Repr

inductive QueueItem where
  | chunk (bytes : Bytes)
  | stop
  deriving DecidableEq, Repr

/-- The task of `_send_chunks`: in `queue.get`, in `provider.send_audio`, or over. -/
inductive SenderTask where
  | waiting
  | sending
  | returned
  | raised (error : AudioError)
  | cancelled
  deriving DecidableEq, Repr

/-- The task of `_consume_events`. -/
inductive EventTask where
  | running
  | returned
  | raised (error : AudioError)
  deriving DecidableEq, Repr

/-- Where a call of `finish` that has not ended is suspended. -/
inductive FinishPoint where
  /-- The stop marker waits for room in the queue. -/
  | stopEnqueue
  | sender
  | provider
  | events
  deriving DecidableEq, Repr

structure AudioSession where
  kind : SessionKind
  queueMax : ℕ
  chunker : AudioChunker
  state : SessionState := .idle
  queue : List QueueItem := []
  sender : SenderTask := .waiting
  events : EventTask := .running
  finishPoint : Option FinishPoint := none
  -- What was seen of it: the chunks the provider got and those the queue took, every call of
  -- `send_frame` and every end of a `finish`, and how many chunks the queue had taken when it
  -- first refused one.
  received : List Bytes := []
  enqueued : List Bytes := []
  calls : List (Bytes × Option AudioError) := []
  finished : List (Option AudioError) := []
  refusedAt : Option ℕ := none

def AudioSession.create (kind : SessionKind) (queueMaxChunks chunkDurationMs : ℤ) :
    Except AudioError AudioSession :=
  if queueMaxChunks ≤ 0 then .error (.value "queue_max_chunks must be positive")
  else match AudioChunker.create 16000 1 2 chunkDurationMs with
    | .error message => .error (.value message)
    | .ok chunker => .ok { kind, queueMax := queueMaxChunks.toNat, chunker }

namespace SenderTask

def done : SenderTask → Bool
  | waiting | sending => false
  | returned | raised _ | cancelled => true

/-- `Task.exception()`: what a call of it raises or returns, if anything. -/
def exception : SenderTask → Option AudioError
  | waiting | sending => some (.invalidState "Exception is not set.")
  | returned => none
  | raised error => some error
  | cancelled => some .cancelled

end SenderTask

namespace AudioSession

variable (s : AudioSession)

/-- `put_nowait` of a chunk, where the queue has room. -/
def putNowait (chunk : Bytes) : AudioSession :=
  { s with queue := s.queue ++ [.chunk chunk], enqueued := s.enqueued ++ [chunk] }

/-- The queue is full: what it had taken by the first time is remembered. -/
def refuse : AudioSession :=
  { s with refusedAt := s.refusedAt.or (some s.enqueued.length) }

/-- The loop of `send_frame`. It ends at the first chunk that is refused. -/
def enqueueAll : List Bytes → AudioSession → AudioSession × Option AudioError
  | [], s => (s, none)
  | chunk :: chunks, s =>
    if s.queue.length < s.queueMax then enqueueAll chunks (s.putNowait chunk)
    else (s.refuse, some s.kind.queueFull)

def sendFrame (pcm : Bytes) : AudioSession × Option AudioError :=
  if s.state ≠ .started then (s, some s.kind.notAccepting)
  else if s.sender.done then (s, some (s.sender.exception.getD s.kind.senderStopped))
  else match s.chunker.feed pcm with
    | .error message => (s, some (.value message))
    | .ok (chunks, chunker) => enqueueAll chunks { s with chunker }

def recordCall (pcm : Bytes) (call : AudioSession × Option AudioError) : AudioSession :=
  { call.1 with calls := call.1.calls ++ [(pcm, call.2)] }

def endFinish (error : Option AudioError) : AudioSession :=
  { s with finished := s.finished ++ [error] }

def failFinish (error : AudioError) : AudioSession :=
  { s with state := .failed, finishPoint := none, finished := s.finished ++ [some error] }

def awaitSender : AudioSession :=
  match s.sender.exception with
  | some error => s.failFinish error
  | none => { s with finishPoint := some .provider }

/-- `finish` from where the tail is in the queue. -/
def finishSender : AudioSession :=
  if s.sender.done then s.awaitSender else { s with finishPoint := some .stopEnqueue }

def flushed : AudioSession :=
  { s with state := .finishing, chunker := s.chunker.flush.2 }

/-- `finish` of an open session: the tail is queued, or refused outside of the handler. -/
def finishStarted : AudioSession :=
  match s.chunker.flush.1 with
  | none => s.flushed.finishSender
  | some tail =>
    if s.queue.length < s.queueMax then (s.flushed.putNowait tail).finishSender
    else s.flushed.refuse.endFinish (some s.kind.tailRefused)

/-- `finish` up to where it is suspended first. -/
def finish : AudioSession :=
  match s.state with
  | .completed => s.endFinish none
  | .started => s.finishStarted
  | .failed =>
    match s.kind with
    | .transcription => s.endFinish (some (s.sender.exception.getD s.kind.cannotFinish))
    | .translation => s.endFinish (some s.kind.cannotFinish)
  | .idle | .finishing => s.endFinish (some s.kind.cannotFinish)

/-- `finish` goes on, where what it waits for is over. -/
def resume : Option AudioSession :=
  match s.finishPoint with
  | some .stopEnqueue | some .sender => if s.sender.done then some s.awaitSender else none
  | some .events =>
    match s.events with
    | .running => none
    | .returned =>
      some { s with state := .completed, finishPoint := none, finished := s.finished ++ [none] }
    | .raised error => some (s.failFinish error)
  | some .provider | none => none

def take : Option AudioSession :=
  match s.sender, s.queue with
  | .waiting, .stop :: queue => some { s with queue, sender := .returned }
  | .waiting, .chunk chunk :: queue =>
    some { s with queue, sender := .sending, received := s.received ++ [chunk] }
  | _, _ => none

def endSender (error : AudioError) : SenderTask :=
  if error = .cancelled then .cancelled else .raised error

end AudioSession

inductive AudioAction where
  /-- The provider starts. A second call of `start` raises and changes nothing. -/
  | start
  | sendFrame (pcm : Bytes)
  | finish
  /-- `finish` goes on. -/
  | resume
  /-- The stop marker gets its room. -/
  | putStop
  /-- The sender gets an item of the queue. -/
  | take
  /-- `provider.send_audio` returns. -/
  | sent
  | sendRaises (error : AudioError)
  /-- `provider.finish` returns. -/
  | providerFinished
  | providerFinishRaises (error : AudioError)
  /-- The events of the provider are over. -/
  | eventsReturn
  | eventsRaise (error : AudioError)
  deriving DecidableEq, Repr

namespace AudioSession

variable (s : AudioSession)

def next : AudioAction → Option AudioSession
  | .start => if s.state = .idle then some { s with state := .started } else none
  | .sendFrame pcm => some (recordCall pcm (s.sendFrame pcm))
  | .finish => some s.finish
  | .resume => s.resume
  | .putStop =>
    if s.finishPoint = some .stopEnqueue ∧ s.queue.length < s.queueMax then
      some { s with queue := s.queue ++ [.stop], finishPoint := some .sender }
    else none
  | .take => if s.state = .idle then none else s.take
  | .sent => if s.sender = .sending then some { s with sender := .waiting } else none
  | .sendRaises error =>
    if s.sender = .sending then some { s with sender := endSender error } else none
  | .providerFinished =>
    if s.finishPoint = some .provider then some { s with finishPoint := some .events } else none
  | .providerFinishRaises error =>
    if s.finishPoint = some .provider then some (s.failFinish error) else none
  | .eventsReturn =>
    if s.state ≠ .idle ∧ s.events = .running then some { s with events := .returned } else none
  | .eventsRaise error =>
    if s.state ≠ .idle ∧ s.events = .running then some { s with events := .raised error }
    else none

def Steps (s : AudioSession) (a : AudioAction) (t : AudioSession) : Prop := s.next a = some t

def frames : List Bytes := s.calls.map Prod.fst

def AllTaken : Prop := ∀ call ∈ s.calls, call.2 = none

instance : Decidable s.AllTaken := inferInstanceAs (Decidable (∀ _ ∈ _, _))

end AudioSession
end Captions
end Matinier
