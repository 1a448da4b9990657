import Matinier.Captions.Reconciler

/-!
# The captions that are shown

What the reconciler of a stream gives out reaches the client live, and its Finals also as the
rows that were stored of them. The client looks at the parts of a live caption first, and passes
over rows whose text says nothing. It keeps the revision of each segment that it has merged
last, and takes a caption only where its revision is above that.
-/

namespace Matinier
namespace Captions

namespace Reconciler

/-- The captions that the reconciler makes of the events of a stream. An event that it refuses
changes nothing. -/
def emitted (r : Reconciler) : List ProviderEvent → List CaptionEvent
  | [] => []
  | event :: events =>
    match r.consume event with
    | .error _ => r.emitted events
    | .ok (r', none) => r'.emitted events
    | .ok (r', some caption) => caption :: r'.emitted events

end Reconciler

structure Segment where
  id : String
  segmentId : String
  revision : ℕ
  status : CaptionStatus
  displayText : String
  audioStartMs : Option ℤ
  audioEndMs : Option ℤ
  confidence : Option ℚ
  finalizedAt : String
  deriving DecidableEq

/-- The numbers of new rows, and how times are written and read. -/
structure ViewConfig where
  newId : CaptionEvent → String
  isoformat : ℤ → String
  dateParse : String → Option ℤ

section

variable (cfg : ViewConfig)

def segmentOf (id : String) (caption : CaptionEvent) : Segment where
  id
  segmentId := caption.segmentId
  revision := caption.revision
  status := .final
  displayText := caption.text
  audioStartMs := caption.audioStartMs
  audioEndMs := caption.audioEndMs
  confidence := caption.confidence
  finalizedAt := cfg.isoformat caption.receivedAtMs

/-- `upsert_final`: a row of the segment that is not older stays, and an older one is
overwritten. -/
def upsertFinal (rows : List Segment) (caption : CaptionEvent) : List Segment :=
  match rows.find? fun row => row.segmentId = caption.segmentId with
  | none => rows ++ [segmentOf cfg (cfg.newId caption) caption]
  | some existing =>
    if caption.revision ≤ existing.revision then rows
    else rows.map fun row =>
      if row.segmentId = caption.segmentId then segmentOf cfg existing.id caption else row

def persisted (captions : List CaptionEvent) : List Segment :=
  (captions.filter fun caption => caption.status = .final).foldl (upsertFinal cfg) []

structure CaptionState where
  activeDraftSegments : String → Option CaptionEvent := fun _ => none
  finalSegments : String → Option CaptionEvent := fun _ => none
  lastRevisionBySegment : String → Option ℕ := fun _ => none

def mergeCaption (state : CaptionState) (caption : CaptionEvent) : CaptionState :=
  let currentRevision := (state.lastRevisionBySegment caption.segmentId).getD 0
  if caption.revision ≤ currentRevision then state
  else if caption.status = .draft ∧ (state.finalSegments caption.segmentId).isSome then state
  else
    let lastRevisionBySegment :=
      Function.update state.lastRevisionBySegment caption.segmentId (some caption.revision)
    if caption.status = .draft then
      { state with
        lastRevisionBySegment
        activeDraftSegments :=
          Function.update state.activeDraftSegments caption.segmentId (some caption) }
    else
      { lastRevisionBySegment
        activeDraftSegments := Function.update state.activeDraftSegments caption.segmentId none
        finalSegments := Function.update state.finalSegments caption.segmentId (some caption) }

/-- White space and line terminators, of which `trim` of JavaScript clears the ends of a text. -/
def isTrimmed (c : Char) : Bool :=
  c.toNat ∈ [0x9, 0xA, 0xB, 0xC, 0xD, 0x20, 0xA0, 0x1680, 0x2028, 0x2029, 0x202F, 0x205F, 0x3000,
    0xFEFF] ∨ 0x2000 ≤ c.toNat ∧ c.toNat ≤ 0x200A

def shown (text : String) : Bool := text.toList.any fun c => ¬ isTrimmed c

/-- The caption that is merged for a row. -/
def Segment.caption (segment : Segment) : CaptionEvent where
  segmentId := segment.segmentId
  revision := segment.revision
  status := .final
  text := segment.displayText
  audioStartMs := segment.audioStartMs
  audioEndMs := segment.audioEndMs
  confidence := segment.confidence
  providerEventId := "snapshot:" ++ segment.id
  receivedAtMs := (cfg.dateParse segment.finalizedAt).getD 0

def hydrateFinalSnapshot (state : CaptionState) (snapshot : List Segment) : CaptionState :=
  snapshot.foldl (fun current segment =>
    if segment.status ≠ .final ∨ ¬ shown segment.displayText then current
    else mergeCaption current (segment.caption cfg)) state

def isCaptionPayload (caption : CaptionEvent) : Bool :=
  caption.segmentId ≠ "" && 0 < caption.revision && shown caption.text &&
    (caption.audioStartMs.all fun ms => 0 ≤ ms) && (caption.audioEndMs.all fun ms => 0 ≤ ms) &&
    (caption.confidence.all fun confidence => 0 ≤ confidence) &&
    caption.providerEventId ≠ "" && 0 ≤ caption.receivedAtMs

/-- A message that was published for a caption of the session that is shown. -/
def decodeLiveCaptionEvent (caption : CaptionEvent) : Option CaptionEvent :=
  if isCaptionPayload caption then some caption else none

/-- What reaches the client: the message of a caption, or a snapshot of rows. -/
inductive Delivery where
  | live (caption : CaptionEvent)
  | snapshot (segments : List Segment)

def deliver (state : CaptionState) : Delivery → CaptionState
  | .live caption => (decodeLiveCaptionEvent caption).elim state (mergeCaption state)
  | .snapshot segments => hydrateFinalSnapshot cfg state segments

def view (deliveries : List Delivery) : CaptionState := deliveries.foldl (deliver cfg) {}

end

end Captions
end Matinier
