import Mathlib.Algebra.Order.Ring.Rat
import Matinier.Captions.AudioSession
import Matinier.Foundation.Blanks

/-!
# Reconciling what a provider says

The events of a provider carry revisions of segments. An event that was delivered before, or
that says what was said before, is dropped, and so is everything behind the Final of a segment.
The two reconcilers differ in the texts of their errors and in what they compare.
-/

namespace Matinier
namespace Captions

inductive EventType where
  | streamStarted
  | partialResult
  | finalResult
  | streamCompleted
  | streamError
  deriving DecidableEq, Repr

/-- An event of a speech recognition or of a translation provider. The latter has no
confidence. -/
structure ProviderEvent where
  eventType : EventType
  providerEventId : String
  segmentId : Option String := none
  text : Option String := none
  beginTimeMs : Option ℤ := none
  endTimeMs : Option ℤ := none
  confidence : Option ℚ := none
  receivedAtMs : ℤ := 0
  deriving DecidableEq

inductive CaptionStatus where
  | draft
  | final
  deriving DecidableEq, Repr

/-- A revision as it is stored and published. -/
structure CaptionEvent where
  segmentId : String
  revision : ℕ
  status : CaptionStatus
  text : String
  audioStartMs : Option ℤ
  audioEndMs : Option ℤ
  confidence : Option ℚ
  providerEventId : String
  receivedAtMs : ℤ
  deriving DecidableEq

/-- What two events that say the same have in common. -/
structure Fingerprint where
  eventType : EventType
  segmentId : String
  text : String
  beginTimeMs : Option ℤ
  endTimeMs : Option ℤ
  confidence : Option ℚ
  deriving DecidableEq

namespace SessionKind

def segmentRequired : SessionKind → AudioError
  | .transcription => .value "caption ASR event requires a stable segment_id"
  | .translation => .value "translation event requires a segment_id"

def textRequired : SessionKind → AudioError
  | .transcription => .value "caption ASR event requires text"
  | .translation => .value "translation event requires text"

def comparedConfidence : SessionKind → ProviderEvent → Option ℚ
  | .transcription, event => event.confidence
  | .translation, _ => none

end SessionKind

/-- `TranscriptReconciler` and `TranslationReconciler`. -/
structure Reconciler where
  kind : SessionKind
  lastRevision : String → ℕ := fun _ => 0
  final : List String := []
  seenEventIds : List String := []
  seenFingerprints : List Fingerprint := []

def ProviderEvent.IsResult (event : ProviderEvent) : Prop :=
  event.eventType = .partialResult ∨ event.eventType = .finalResult

instance (event : ProviderEvent) : Decidable event.IsResult := inferInstanceAs (Decidable (_ ∨ _))

namespace Reconciler

variable (r : Reconciler) (event : ProviderEvent)

def fingerprint (segmentId text : String) : Fingerprint :=
  ⟨event.eventType, segmentId, text, event.beginTimeMs, event.endTimeMs,
    r.kind.comparedConfidence event⟩

def caption (segmentId text : String) : CaptionEvent where
  segmentId
  revision := r.lastRevision segmentId + 1
  status := if event.eventType = .finalResult then .final else .draft
  text
  audioStartMs := event.beginTimeMs
  audioEndMs := event.endTimeMs
  confidence := r.kind.comparedConfidence event
  providerEventId := event.providerEventId
  receivedAtMs := event.receivedAtMs

def seeId : Reconciler := { r with seenEventIds := event.providerEventId :: r.seenEventIds }

def seeSaying (segmentId text : String) : Reconciler :=
  { r with seenFingerprints := r.fingerprint event segmentId text :: r.seenFingerprints }

def revise (segmentId : String) : Reconciler :=
  { r with
    lastRevision := Function.update r.lastRevision segmentId (r.lastRevision segmentId + 1)
    final := if event.eventType = .finalResult then segmentId :: r.final else r.final }

/-- An event with a segment and a text that is not blank. -/
def consumeSaid (segmentId text : String) : Reconciler × Option CaptionEvent :=
  if event.providerEventId ∈ r.seenEventIds then (r, none)
  else if r.fingerprint event segmentId text ∈ r.seenFingerprints then (r.seeId event, none)
  else if segmentId ∈ r.final then ((r.seeId event).seeSaying event segmentId text, none)
  else
    (((r.seeId event).seeSaying event segmentId text).revise event segmentId,
      some (r.caption event segmentId text))

/-- `consume`. -/
def consume : Except AudioError (Reconciler × Option CaptionEvent) :=
  if ¬ event.IsResult then .ok (r, none)
  else match event.segmentId, event.text with
    | none, _ => .error r.kind.segmentRequired
    | some "", _ => .error r.kind.segmentRequired
    | some _, none => .error r.kind.textRequired
    | some segmentId, some text =>
      if notBlank text then .ok (r.consumeSaid event segmentId text) else .ok (r, none)

end Reconciler
end Captions
end Matinier
