import Mathlib.Data.List.Sort
import Mathlib.Data.Rat.Defs
import Mathlib.Data.String.Basic
import Matinier.Foundation.Blanks
import Matinier.Plugins.Framing

/-!
# Caption events of a course

What the course plugin reads of a media event, and when the final captions that are pending are
enough for a window.
-/

namespace Matinier

namespace JsonText

/-- The digits of a token as a number, whatever else there is in it. -/
def digitsValue (cs : List Char) : ℕ :=
  cs.foldl (fun n c => if c.isDigit then 10 * n + (c.toNat - 48) else n) 0

/-- What a floating-point literal stands for. -/
def floatValue (token : List Char) : ℚ :=
  let unsigned := dropSign token
  let mantissa := unsigned.takeWhile fun c => c != 'e' && c != 'E'
  let exponent := (unsigned.dropWhile fun c => c != 'e' && c != 'E').drop 1
  let fraction := (mantissa.dropWhile fun c => c != '.').drop 1
  let unscaled : ℚ := digitsValue mantissa / 10 ^ fraction.length
  let scaled := if exponent.head? = some '-' then unscaled / 10 ^ digitsValue exponent
    else unscaled * 10 ^ digitsValue exponent
  if token.head? = some '-' then -scaled else scaled

end JsonText

namespace CourseOrganizer

open Plugins (JsonEntries)

def asInt : JsonValue → Option ℤ
  | .int n => some n
  | .bool b => some (if b then 1 else 0)
  | _ => none

def asNumber : JsonValue → Option ℚ
  | .float f => some (JsonText.floatValue f.token)
  | value => (asInt value).map fun n => n

/-- A value that may be asked for in a set. -/
def hashable : JsonValue → Bool
  | .arr _ => false
  | .obj _ => false
  | _ => true

def truncated (n : ℕ) (text : String) : String := String.ofList (text.toList.take n)

def startsWith (start text : String) : Bool := start.toList.isPrefixOf text.toList

def removePrefix (start text : String) : String :=
  if startsWith start text then String.ofList (text.toList.drop start.length) else text

/-- A language code and its subtags. -/
def isLanguage (language : String) : Bool :=
  match language.toList.splitOn '-' with
  | [] => false
  | code :: subtags =>
    (2 ≤ code.length && code.length ≤ 8 && code.all Char.isAlpha) &&
      subtags.all fun tag => 1 ≤ tag.length && tag.length ≤ 8 && tag.all Char.isAlphanum

structure PendingEvent where
  streamKey : String
  eventType : String
  logicalId : String
  sequence : ℤ
  revision : ℤ
  text : String
  startMs : ℤ
  endMs : ℤ
  language : String
  confidence : Option ℚ
  sourceSegmentIds : List String
  deriving DecidableEq

def PendingEvent.valid (e : PendingEvent) : Bool :=
  e.streamKey ≠ "" && e.logicalId ≠ "" && e.text ≠ "" &&
    (e.eventType = "transcript.final" || e.eventType = "translation.final") &&
    1 ≤ e.sequence && 1 ≤ e.revision && 0 ≤ e.startMs && e.startMs ≤ e.endMs &&
    (e.sourceSegmentIds.all fun source => source ≠ "") && e.sourceSegmentIds.Nodup

/-- The sequence of an event; without one the whole batch is refused. -/
def eventSequence : JsonValue → Option ℤ
  | .obj entries => do
    let sequence ← (JsonValue.lookup "sequence" entries).bind asInt
    guard (1 ≤ sequence)
    return sequence
  | _ => none

def legacySourceIds (eventType logicalId : String) : List String :=
  if eventType = "transcript.final" then [removePrefix "transcript:" logicalId]
  else if startsWith "translation:" logicalId then []
  else [logicalId]

def stringItems : List JsonValue → Option (List String)
  | [] => some []
  | .str s :: rest => (stringItems rest).map (s :: ·)
  | _ :: _ => none

/-- The segments an event is from: those of its payload, or what its evidence or its name says. -/
def sourceIds (eventType logicalId : String) (payload : JsonEntries) : Option (List String) :=
  match (JsonValue.lookup "source_segment_ids" payload).getD .null with
  | .null =>
    match JsonValue.lookup "evidence" payload with
    | some (.obj evidence) =>
      match JsonValue.lookup "segment_id" evidence with
      | some (.str segmentId) =>
        if eventType = "transcript.final" then some [segmentId]
        else some (legacySourceIds eventType logicalId)
      | _ => some (legacySourceIds eventType logicalId)
    | _ => some (legacySourceIds eventType logicalId)
  | .arr items => stringItems items
  | _ => none

def textField (key : String) (entries : JsonEntries) : Option String :=
  match JsonValue.lookup key entries with
  | some (.str s) => some s
  | _ => none

def intField (key : String) (entries : JsonEntries) : Option ℤ :=
  (JsonValue.lookup key entries).bind asInt

def objectField (key : String) (entries : JsonEntries) : Option JsonEntries :=
  match JsonValue.lookup key entries with
  | some (.obj fields) => some fields
  | _ => none

/-- The least integer for which there is no floating-point number. -/
def floatOverflow : ℕ := 2 ^ 1024 - 2 ^ 970

/-- A confidence, which may be missing. -/
def confidenceField (payload : JsonEntries) : Option (Option ℚ) :=
  match (JsonValue.lookup "confidence" payload).getD .null with
  | .null => some none
  | .int n => if n.natAbs < floatOverflow then some (some n) else none
  | value => (asNumber value).map some

def pendingEvent (entries : JsonEntries) : Option PendingEvent := do
  let eventType ← textField "event_type" entries
  let logicalId ← textField "logical_id" entries
  let revision ← intField "revision" entries
  let startMs ← intField "media_time_ms" entries
  let durationMs ← asInt ((JsonValue.lookup "duration_ms" entries).getD (.int 0))
  let payload ← objectField "payload" entries
  let text ← textField "text" payload
  let language ← textField "language" payload
  let confidence ← confidenceField payload
  let sequence ← eventSequence (.obj entries)
  let sources ← sourceIds eventType logicalId payload
  let event : PendingEvent :=
    { streamKey := eventType ++ ":" ++ logicalId ++ ":" ++ language
      eventType := eventType
      logicalId := logicalId
      sequence := sequence
      revision := revision
      text := truncated 12000 (stripped text)
      startMs := max 0 startMs
      endMs := max 0 startMs + max 0 durationMs
      language := language
      confidence := confidence
      sourceSegmentIds := sources }
  guard (event.valid = true)
  return event

structure TranscriptFragment where
  segmentId : String
  revision : ℤ
  text : String
  startMs : ℤ
  endMs : ℤ
  language : String
  confidence : Option ℚ
  sourceSegmentIds : List String

def TranscriptFragment.valid (f : TranscriptFragment) : Bool :=
  notBlank f.segmentId && notBlank f.text &&
    (f.sourceSegmentIds.all fun source => source ≠ "") && f.sourceSegmentIds.Nodup &&
    1 ≤ f.revision && 0 ≤ f.startMs && f.startMs ≤ f.endMs && isLanguage f.language &&
    f.confidence.all fun c => 0 ≤ c && c ≤ 1

def PendingEvent.fragment (e : PendingEvent) : Option TranscriptFragment :=
  let fragment : TranscriptFragment := ⟨e.logicalId, e.revision, e.text, e.startMs, e.endMs,
    e.language, e.confidence, e.sourceSegmentIds⟩
  if fragment.valid then some fragment else none

/-- The events of each list of sources, in the order in which these come up. -/
def groupedEvents (pending : List PendingEvent) : List (List PendingEvent) :=
  let keys := (pending.map PendingEvent.sourceSegmentIds).filter fun sources => sources ≠ []
  keys.eraseDups.map fun sources => pending.filter fun e => e.sourceSegmentIds = sources

def newer (e e' : PendingEvent) : Bool :=
  e.revision < e'.revision || e.revision = e'.revision && e.sequence < e'.sequence

/-- The first of the greatest by revision and sequence. -/
def latestEvent : List PendingEvent → Option PendingEvent
  | [] => none
  | e :: rest => some (rest.foldl (fun best e' => if newer best e' then e' else best) e)

def isTranslation (outputLanguage : String) (e : PendingEvent) : Bool :=
  e.eventType = "translation.final" && e.language = outputLanguage

def preferredEvent (outputLanguage : String) (group : List PendingEvent) : Option PendingEvent :=
  let translations := group.filter (isTranslation outputLanguage)
  let sources := group.filter fun e => e.eventType = "transcript.final"
  latestEvent (if translations ≠ [] then translations else if sources ≠ [] then sources
    else group)

def eventPrecedes (e e' : PendingEvent) : Prop :=
  e.startMs < e'.startMs ∨ e.startMs = e'.startMs ∧ e.logicalId ≤ e'.logicalId

instance : DecidableRel eventPrecedes := fun _ _ => inferInstanceAs (Decidable (_ ∨ _))

/-- One event for each list of sources, without the transcripts that are translated elsewhere; none
for an event that no fragment can be made of. -/
def preferredFragments (pending : List PendingEvent) (outputLanguage : String) :
    Option (List TranscriptFragment) :=
  let selected := (groupedEvents pending).filterMap (preferredEvent outputLanguage)
  let translated := (selected.filter (isTranslation outputLanguage)).flatMap
    PendingEvent.sourceSegmentIds
  let kept := selected.filter fun e => e.eventType ≠ "transcript.final" ||
    !(e.sourceSegmentIds.all fun source => source ∈ translated)
  (kept.insertionSort eventPrecedes).mapM PendingEvent.fragment

structure RealtimeConfig where
  minWindowMs : ℤ := 60000
  triggerChars : ℕ := 1600
  maxNotes : ℕ := 500
  maxNotes_pos : 0 < maxNotes := by decide

/-- The fragments are long enough for a window, or have enough text. -/
def windowReady (cfg : RealtimeConfig) (fragments : List TranscriptFragment) : Bool :=
  match (fragments.map TranscriptFragment.startMs).min?,
      (fragments.map TranscriptFragment.endMs).max? with
  | some startMs, some endMs =>
    cfg.minWindowMs ≤ endMs - startMs ||
      cfg.triggerChars ≤ (fragments.map fun f => f.text.length).sum
  | _, _ => false

end CourseOrganizer
end Matinier
