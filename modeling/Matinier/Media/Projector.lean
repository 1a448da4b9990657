import Matinier.Foundation.Machine
import Matinier.Media.Records
import Mathlib.Data.List.Sort
import Mathlib.Data.Prod.Lex

/-!
# The media event projector

The final captions and translations of a session, and its end, are projected into the event log
of its media session. A projection reads what is pending, appends events for one batch of it in
one transaction, advances the offsets of the batch in another one, and starts again until a
batch is not full. An event that is in the log already is not appended again.

Sessions begin and end, captions and translations become final and are revised, and API calls
make media sessions, all between any two steps of a projection. One projection at a time holds
the lock of the projector. It may be abandoned anywhere: by an error, or by the end of the
process. Every event it appends stays, as do the offsets it has advanced.
-/

namespace Matinier
namespace Media

open Assistant

def maxEventPayloadBytes : ℕ := 64 * 1024

/-- The configuration of a projector, and the length of a payload in canonical JSON. -/
structure ProjectorConfig where
  batchSize : ℕ := 100
  scanSessionLimit : ℕ := 100
  encodedLength : EventPayload → ℕ
  batchSize_pos : 0 < batchSize := by decide
  batchSize_le : batchSize ≤ 1000 := by decide
  scanSessionLimit_pos : 0 < scanSessionLimit := by decide
  scanSessionLimit_le : scanSessionLimit ≤ 10000 := by decide

structure ProjectionItem where
  sourceTable : String
  sourceType : String
  sourceLogicalId : String
  eventType : String
  logicalId : String
  revision : ℕ
  mediaTimeMs : Option ℤ
  durationMs : Option ℤ
  source : String
  payload : EventPayload
  createdAt : Instant
  terminalStatus : Option MediaStatus := none

structure MediaCatchUpResult where
  legacySessionId : SessionId
  projectedEventCount : ℕ
  latestSequence : ℕ
  deriving DecidableEq

def duration (startMs endMs : Option ℤ) : Option ℤ :=
  match startMs, endMs with
  | some first, some last => some (max 0 (last - first))
  | _, _ => none

def transcriptId (segmentId : String) : String := "transcript:" ++ segmentId

def translationId (language : LanguageCode) (segmentId : String) : String :=
  "translation:" ++ language.value ++ ":" ++ segmentId

def terminalId (sessionId : SessionId) : String :=
  "session:" ++ toString sessionId ++ ":terminal"

def SessionStatus.terminal? : SessionStatus → Option MediaStatus
  | .completed => some .completed
  | .failed => some .failed
  | .cancelled => some .cancelled
  | .created | .starting | .running | .finalizing => none

def SessionStatus.mediaStatus : SessionStatus → MediaStatus
  | .completed => .completed
  | .failed => .failed
  | .created | .starting | .running | .finalizing | .cancelled => .active

def SegmentRecord.item (sessionId : SessionId) (record : SegmentRecord) : ProjectionItem where
  sourceTable := "segments"
  sourceType := "transcript.final"
  sourceLogicalId := transcriptId record.segmentId
  eventType := "transcript.final"
  logicalId := transcriptId record.segmentId
  revision := record.revision
  mediaTimeMs := record.audioStartMs
  durationMs := duration record.audioStartMs record.audioEndMs
  source := "host.transcription"
  payload := .transcript record.displayText record.language record.trackId record.confidence
    sessionId record.segmentId record.id
  createdAt := record.finalizedAt

def TranslationSegmentRecord.item (sessionId : SessionId) (record : TranslationSegmentRecord) :
    ProjectionItem where
  sourceTable := "translation_segments"
  sourceType := "translation.final"
  sourceLogicalId := translationId record.targetLanguage record.segmentId
  eventType := "translation.final"
  logicalId := translationId record.targetLanguage record.segmentId
  revision := record.revision
  mediaTimeMs := record.audioStartMs
  durationMs := duration record.audioStartMs record.audioEndMs
  source := "host.translation"
  payload := .translation record.text record.sourceLanguage record.targetLanguage.value
    record.sourceSegmentIds sessionId record.segmentId record.id
  createdAt := record.finalizedAt

def SessionRecord.item (record : SessionRecord) (status : MediaStatus) : ProjectionItem where
  sourceTable := "sessions"
  sourceType := "session." ++ record.status.name
  sourceLogicalId := terminalId record.id
  eventType := "session." ++ record.status.name
  logicalId := terminalId record.id
  revision := 1
  mediaTimeMs := none
  durationMs := none
  source := "host.session"
  payload := .session record.id record.status record.stopReason
  createdAt := record.endedAt.getD record.createdAt
  terminalStatus := some status

/-- The order of the captions: those with a start by it, then the others. -/
def SegmentRecord.Before (a b : SegmentRecord) : Prop :=
  toLex (a.audioStartMs.isNone, toLex (a.audioStartMs.getD 0, toLex (a.finalizedAt, a.id))) ≤
    toLex (b.audioStartMs.isNone, toLex (b.audioStartMs.getD 0, toLex (b.finalizedAt, b.id)))

instance (a b : SegmentRecord) : Decidable (a.Before b) :=
  inferInstanceAs (Decidable (_ ≤ _))

def TranslationSegmentRecord.Before (a b : TranslationSegmentRecord) : Prop :=
  toLex (a.audioStartMs.isNone, toLex (a.audioStartMs.getD 0, toLex (a.finalizedAt, a.id))) ≤
    toLex (b.audioStartMs.isNone, toLex (b.audioStartMs.getD 0, toLex (b.finalizedAt, b.id)))

instance (a b : TranslationSegmentRecord) : Decidable (a.Before b) :=
  inferInstanceAs (Decidable (_ ≤ _))

namespace SessionMedia

/-- The items of a session with this end, in the order in which they are projected. -/
def itemsEnding (m : SessionMedia) (ending : Option MediaStatus) : List ProjectionItem :=
  ((m.segments.select fun s => s.status = .final).insertionSort SegmentRecord.Before).map
      (·.item m.legacy.id) ++
    ((m.translations.select fun t => t.status = .final).insertionSort
      TranslationSegmentRecord.Before).map (·.item m.legacy.id) ++
    (ending.map m.legacy.item).toList

def sourceItems (m : SessionMedia) : List ProjectionItem :=
  m.itemsEnding m.legacy.status.terminal?

def processed (m : SessionMedia) (item : ProjectionItem) : ℕ :=
  match m.bridge with
  | none => 0
  | some _ =>
    match m.offsets.get (item.sourceTable, item.sourceType, item.sourceLogicalId) with
    | none => 0
    | some offset => offset.processedRevision

def readPendingItems (m : SessionMedia) : List ProjectionItem :=
  m.sourceItems.filter fun item => m.processed item < item.revision

def ensureLegacySessionBridge (m : SessionMedia) : SessionMedia :=
  match m.bridge with
  | some _ => m
  | none =>
    let record : MediaSessionRecord :=
      { sourceKind := m.legacy.sourceType, status := m.legacy.status.mediaStatus }
    { m with bridge := some record }

end SessionMedia

/-- The event of an item under a sequence number. -/
def ProjectionItem.event (item : ProjectionItem) (sequence : ℕ) : MediaEventRecord where
  sequence := sequence
  eventType := item.eventType
  mediaTimeMs := item.mediaTimeMs
  durationMs := item.durationMs
  logicalId := item.logicalId
  revision := item.revision
  finality := if item.sourceTable = "sessions" then .derived else .final
  source := item.source
  payload := item.payload
  createdAt := item.createdAt

def ProjectionItem.offset (item : ProjectionItem) : MediaBridgeOffsetRecord where
  sourceTable := item.sourceTable
  sourceType := item.sourceType
  sourceLogicalId := item.sourceLogicalId
  processedRevision := item.revision

/-- The bounds on what the contract of an event takes of an item. -/
def ProjectionItem.Accepted (cfg : ProjectorConfig) (item : ProjectionItem) : Prop :=
  0 ≤ item.mediaTimeMs.getD 0 ∧ 0 ≤ item.durationMs.getD 0 ∧
    1 ≤ item.logicalId.length ∧ item.logicalId.length ≤ 256 ∧ 1 ≤ item.revision ∧
    cfg.encodedLength item.payload ≤ maxEventPayloadBytes

instance (cfg : ProjectorConfig) (item : ProjectionItem) : Decidable (item.Accepted cfg) :=
  inferInstanceAs (Decidable (_ ∧ _ ∧ _ ∧ _ ∧ _ ∧ _))

namespace SessionMedia

def findSourceRevision (m : SessionMedia) (item : ProjectionItem) : Option MediaEventRecord :=
  m.events.getUnique (item.source, item.logicalId, item.revision)

/-- Append the event of an item under the next sequence number, unless it is there. -/
def appendEvent (cfg : ProjectorConfig) (item : ProjectionItem) (m : SessionMedia) :
    Except Fault SessionMedia :=
  match m.findSourceRevision item with
  | some _ => pure m
  | none => do
    let bridge ← require m.bridge (.lookup "MediaSession does not exist")
    let sequence := bridge.nextSequence
    ensure (1 ≤ sequence ∧ item.Accepted cfg) (.value "MediaEvent is not valid")
    let events ← require (m.events.insert (item.event sequence)) .integrity
    pure { m with bridge := some { bridge with nextSequence := sequence + 1 }, events := events }

/-- Append the events of a batch, and count the new ones. -/
def appendEvents (cfg : ProjectorConfig) :
    List ProjectionItem → SessionMedia → Except Fault (SessionMedia × ℕ)
  | [], m => pure (m, 0)
  | item :: rest, m => do
    let appended ← m.appendEvent cfg item
    let (last, projected) ← appendEvents cfg rest appended
    pure (last, if (m.findSourceRevision item).isNone then projected + 1 else projected)

def persistEventBatch (cfg : ProjectorConfig) (items : List ProjectionItem) (m : SessionMedia) :
    Except Fault (SessionMedia × ℕ) :=
  appendEvents cfg items m.ensureLegacySessionBridge

def advanceBridgeOffset (m : SessionMedia) (item : ProjectionItem) : Except Fault SessionMedia := do
  ensure (1 ≤ item.revision) (.value "processed_revision must be positive")
  match m.offsets.get (item.sourceTable, item.sourceType, item.sourceLogicalId) with
  | some existing =>
    if existing.processedRevision < item.revision then
      pure { m with offsets := m.offsets.set { existing with processedRevision := item.revision } }
    else pure m
  | none => do
    let offsets ← require (m.offsets.insert item.offset) .integrity
    pure { m with offsets := offsets }

def terminalStatus (items : List ProjectionItem) : Option MediaStatus :=
  items.foldl (fun status item => item.terminalStatus <|> status) none

def endBridge (status : Option MediaStatus) (m : SessionMedia) : SessionMedia :=
  match status with
  | none => m
  | some status => { m with bridge := m.bridge.map fun bridge => { bridge with status := status } }

def advanceOffsets (items : List ProjectionItem) (m : SessionMedia) :
    Except Fault SessionMedia := do
  let advanced ← items.foldlM advanceBridgeOffset m
  pure (advanced.endBridge (terminalStatus items))

def latestSequence (m : SessionMedia) : ℕ :=
  m.events.rows.foldl (fun latest event => max latest event.sequence) 0

/-- One batch after another, until one is not full. What earlier batches did stays where a
later one fails. -/
def projectRounds (cfg : ProjectorConfig) :
    ℕ → ℕ → SessionMedia → SessionMedia × Except Fault ℕ
  | 0, _, m => (m, .error (.runtime "projection did not end"))
  | fuel + 1, total, m =>
    match m.readPendingItems with
    | [] => (m.ensureLegacySessionBridge, .ok total)
    | items =>
      let batch := items.take cfg.batchSize
      match m.persistEventBatch cfg batch with
      | .error fault => (m, .error fault)
      | .ok (persisted, projected) =>
        match persisted.advanceOffsets batch with
        | .error fault => (persisted, .error fault)
        | .ok advanced =>
          if batch.length < cfg.batchSize then (advanced, .ok (total + projected))
          else projectRounds cfg fuel (total + projected) advanced

/-- Project everything that is pending; a round more than there are items is enough. -/
def projectToCompletion (cfg : ProjectorConfig) (m : SessionMedia) :
    SessionMedia × Except Fault MediaCatchUpResult :=
  let (last, outcome) := projectRounds cfg (m.readPendingItems.length + 1) 0 m
  (last, outcome.map fun total =>
    { legacySessionId := m.legacy.id, projectedEventCount := total
      latestSequence := last.latestSequence })

end SessionMedia

namespace SessionMedia

def upsertFinal (caption : SegmentRecord) (m : SessionMedia) : Except Fault SessionMedia := do
  ensure (caption.status = .final) (.value "only Final captions can be persisted")
  ensure (caption.trackId ≠ "") (.value "track_id is required")
  ensure (caption.language ≠ "") (.value "language is required")
  match m.segments.get caption.segmentId with
  | some existing =>
    if caption.revision ≤ existing.revision then pure m
    else pure { m with segments := m.segments.set { caption with id := existing.id } }
  | none => do
    let segments ← require (m.segments.insert caption) .integrity
    pure { m with segments := segments }

def upsertFinalTranslation (caption : TranslationSegmentRecord) (m : SessionMedia) :
    Except Fault SessionMedia := do
  ensure (caption.status = .final) (.value "only Final translations can be persisted")
  match m.translations.get (caption.targetLanguage, caption.segmentId) with
  | some existing =>
    if caption.revision ≤ existing.revision then pure m
    else pure { m with translations := m.translations.set { caption with id := existing.id } }
  | none => do
    let translations ← require (m.translations.insert caption) .integrity
    pure { m with translations := translations }

/-- Align one translation with other captions. -/
def realign (language : LanguageCode) (segmentId : String) (aligned : List String)
    (m : SessionMedia) : SessionMedia :=
  match m.translations.get (language, segmentId) with
  | none => m
  | some existing =>
    { m with translations := m.translations.set { existing with sourceSegmentIds := aligned } }

/-- What a commit leaves of a session. Its writer may have loaded the record before others
changed it, so any status may follow any other. -/
def commitSession (status : SessionStatus) (stopReason : Option String) (endedAt : Option Instant)
    (m : SessionMedia) : SessionMedia :=
  { m with legacy := { m.legacy with status, stopReason, endedAt } }

end SessionMedia

/-- How far the projection of a session has come. -/
inductive Phase where
  | reading
  | bridging (items : List ProjectionItem)
  | appending (batch rest : List ProjectionItem)
  | advancing (batch : List ProjectionItem)

/-- The next step of a projection; an error ends it. -/
def Phase.move (cfg : ProjectorConfig) (m : SessionMedia) : Phase → SessionMedia × Option Phase
  | .reading => (m, some (.bridging m.readPendingItems))
  | .bridging [] => (m.ensureLegacySessionBridge, none)
  | .bridging items =>
    let batch := items.take cfg.batchSize
    (m.ensureLegacySessionBridge, some (.appending batch batch))
  | .appending batch [] => (m, some (.advancing batch))
  | .appending batch (item :: rest) =>
    match m.appendEvent cfg item with
    | .ok appended => (appended, some (.appending batch rest))
    | .error _ => (m, none)
  | .advancing batch =>
    match m.advanceOffsets batch with
    | .ok advanced => (advanced, if batch.length < cfg.batchSize then none else some .reading)
    | .error _ => (m, none)

structure MediaWorld where
  db : MediaDb := .empty
  projection : Option (SessionId × Phase) := none

inductive MediaAction where
  -- the host
  | create (record : SessionRecord)
  | session (sessionId : SessionId) (status : SessionStatus) (stopReason : Option String)
      (endedAt : Option Instant)
  | caption (sessionId : SessionId) (caption : SegmentRecord)
  | translation (sessionId : SessionId) (caption : TranslationSegmentRecord)
  | realign (sessionId : SessionId) (language : LanguageCode) (segmentId : String)
      (aligned : List String)
  | bridge (sessionId : SessionId)
  -- the projector
  | project (sessionId : SessionId)
  | move
  | abandon

namespace MediaWorld

variable (cfg : ProjectorConfig) (w : MediaWorld)

def change (sessionId : SessionId) (f : SessionMedia → Option SessionMedia) :
    Option MediaWorld := do
  let m ← w.db.get sessionId
  let changed ← f m
  some { w with db := w.db.set changed }

def next : MediaAction → Option MediaWorld
  | .create record => do
    let db ← w.db.insert { legacy := { record with status := .created } }
    some { w with db := db }
  | .session id status stopReason endedAt =>
    w.change id fun m => some (m.commitSession status stopReason endedAt)
  | .caption id caption => w.change id fun m => (m.upsertFinal caption).toOption
  | .translation id caption => w.change id fun m => (m.upsertFinalTranslation caption).toOption
  | .realign id language segmentId aligned =>
    w.change id fun m => some (m.realign language segmentId aligned)
  | .bridge id => w.change id fun m => some m.ensureLegacySessionBridge
  | .project id =>
    if w.projection.isNone ∧ (w.db.get id).isSome then
      some { w with projection := some (id, .reading) }
    else none
  | .move => do
    let (id, phase) ← w.projection
    let m ← w.db.get id
    let (moved, rest) := phase.move cfg m
    some { db := w.db.set moved, projection := rest.map fun phase => (id, phase) }
  | .abandon => some { w with projection := none }

end MediaWorld

abbrev MediaSteps (cfg : ProjectorConfig) (w : MediaWorld) (action : MediaAction)
    (w' : MediaWorld) : Prop :=
  w.next cfg action = some w'

end Media
end Matinier
