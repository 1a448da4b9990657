import Matinier.Meeting.Policy

/-!
# The transactions of the projector

A batch of captions is committed in one transaction: the candidates are changed, the state is
merged, the offsets of the batch advance and the head is replaced. Captions that cannot be
projected only have their offsets advanced. A failed batch leaves its error with the head.
Each of these transactions is fenced by the epoch it runs under.
-/

namespace Matinier
namespace Meeting

open Assistant

/-- What the projector is configured with. What the candidates become is left to a function of
the operations, their evidence and the captions as they are. -/
structure ProjectorConfig where
  policy : PolicyConfig := {}
  merge : MergeConfig
  maxInputChars : ℕ := 12000
  staleAfterSeconds : ℕ := 10
  applyOperations : SessionId → List CandidateOperation → List ProjectionSegment →
    Table SegmentRecord → Table ActionCandidateRecord →
      Except Fault (List ActionCandidate × Table ActionCandidateRecord)

/-- Advance the offset of a caption; it never goes back. -/
def advanceOffset (sessionId : SessionId) (segmentId : SegmentId) (processedRevision : ℕ)
    (processedAt : Instant) (offsets : Table OffsetRecord) : Except Fault (Table OffsetRecord) := do
  ensure (1 ≤ processedRevision) (.value "processed_revision must be positive")
  match offsets.get (sessionId, segmentId) with
  | some existing =>
    if processedRevision ≤ existing.processedRevision then return offsets
    else return offsets.set { existing with processedRevision, processedAt }
  | none =>
    require (offsets.insert { sessionId, segmentId, processedRevision, processedAt }) .integrity

def currentRevision (segments : Table SegmentRecord) (sessionId : SessionId)
    (segmentId : SegmentId) : Option ℕ :=
  ((segments.get (sessionId, segmentId)).filter fun record => record.status = .final).map
    SegmentRecord.revision

/-- The evidence is of the session, at its current final revisions. -/
def validateCurrentEvidence (segments : Table SegmentRecord) (sessionId : SessionId)
    (evidence : List ProjectionSegment) : Except Fault Unit := do
  ensure (∀ segment ∈ evidence, segment.record.sessionId = sessionId)
    (.value "candidate evidence belongs to another Session")
  ensure (∀ segment ∈ evidence,
      currentRevision segments sessionId segment.segmentId = some segment.revision)
    (.value "candidate evidence is not the current Final revision")

def applyCandidates (cfg : ProjectorConfig) (db : ProjectionDb) (sessionId : SessionId)
    (operations : List CandidateOperation) (evidence : List ProjectionSegment) :
    Except Fault (List ActionCandidate × Table ActionCandidateRecord) := do
  validateCurrentEvidence db.segments sessionId evidence
  cfg.applyOperations sessionId operations evidence db.segments db.candidates

def later : Option Instant → Option Instant → Option Instant
  | none, second => second
  | first, none => first
  | some first, some second => some (max first second)

def emptyState (sessionId : SessionId) : MeetingState where
  sessionId := sessionId
  version := 0

namespace ProjectionDb

variable (db : ProjectionDb)

/-- The state of the head, or that of a session without one. -/
def liveState (sessionId : SessionId) : MeetingState :=
  ((db.heads.get sessionId).map HeadRecord.state).getD (emptyState sessionId)

def liveVersion (sessionId : SessionId) : ℕ :=
  ((db.heads.get sessionId).map HeadRecord.version).getD 0

def finals (sessionId : SessionId) : List SegmentRecord :=
  db.segments.select fun s => s.sessionId = sessionId ∧ s.status = .final

/-- The captions of the frontier, or of the session, whose revision is not processed. -/
def pendingCount (sessionId : SessionId) (frontier : Option (List (SegmentId × ℕ))) : ℕ :=
  match frontier with
  | some frozen => frozen.countP fun entry => (db.processed sessionId entry.1).getD 0 < entry.2
  | none => (db.finals sessionId).countP fun s =>
      match db.processed sessionId s.segmentId with
      | none => true
      | some revision => revision < s.revision

def latestFinalUpdatedAt (sessionId : SessionId) : Option Instant :=
  ((db.finals sessionId).map SegmentRecord.updatedAt).max?

def oldestFinalUpdatedAt (sessionId : SessionId) : Option Instant :=
  ((db.finals sessionId).map SegmentRecord.updatedAt).min?

def sourceFrontier (sessionId : SessionId) : List (SegmentId × ℕ) :=
  (db.offsets.select fun o => o.sessionId = sessionId).map fun o =>
    (o.segmentId, o.processedRevision)

def replaceHead (head : HeadRecord) (expectedVersion : ℕ) : Except Fault ProjectionDb := do
  match db.heads.get head.sessionId with
  | none =>
    ensure (expectedVersion = 0) (.stateConflict "Meeting State head does not exist")
    let heads ← require (db.heads.insert { head with version := 1 }) .integrity
    return { db with heads }
  | some existing =>
    ensure (existing.version = expectedVersion)
      (.stateConflict "Meeting State head no longer has the expected version")
    return { db with heads := db.heads.set { head with version := expectedVersion + 1 } }

end ProjectionDb

/-- How long after the projected caption another one was final, in milliseconds. -/
def lagMs : Option Instant → Option Instant → ℕ
  | some latest, some through => (latest - through) * 1000
  | _, _ => 0

def headStatus (cfg : ProjectorConfig) (pending lag : ℕ) : HeadStatus :=
  if pending = 0 then .ready
  else if cfg.staleAfterSeconds * 1000 ≤ lag then .stale
  else .lagging

/-- A batch that was extracted, with the state it was extracted from. -/
structure Projection where
  current : MeetingState
  expectedVersion : ℕ
  delta : MeetingStateDelta
  batch : List ProjectionSegment

def Projection.sessionId (p : Projection) : SessionId := p.current.sessionId

def batchRevisions (batch : List ProjectionSegment) : List (SegmentId × ℕ) :=
  batch.map fun segment => (segment.segmentId, segment.revision)

def recordRevisions (records : List SegmentRecord) : List (SegmentId × ℕ) :=
  records.map fun record => (record.segmentId, record.revision)

def advanceOffsets (sessionId : SessionId) (now : Instant) (entries : List (SegmentId × ℕ))
    (offsets : Table OffsetRecord) : Except Fault (Table OffsetRecord) :=
  entries.foldlM (fun offsets entry => advanceOffset sessionId entry.1 entry.2 now offsets) offsets

def projectedHead (cfg : ProjectorConfig) (db : ProjectionDb) (p : Projection)
    (frontier : Option (List (SegmentId × ℕ))) (state : MeetingState) (now : Instant) :
    HeadRecord :=
  let pending := db.pendingCount p.sessionId frontier
  let latest := db.latestFinalUpdatedAt p.sessionId
  let through := later ((db.heads.get p.sessionId).bind HeadRecord.projectedThrough)
    (p.batch.map fun segment => segment.record.updatedAt).max?
  { sessionId := p.sessionId
    version := p.expectedVersion + 1
    status := headStatus cfg pending (lagMs latest through)
    state
    sourceFrontier := db.sourceFrontier p.sessionId
    latestFinalUpdatedAt := latest
    projectedThrough := through
    lagMs := lagMs latest through
    pendingSegmentCount := pending
    lastSuccessAt := some now }

def commitProjection (cfg : ProjectorConfig) (p : Projection) (epoch : ℕ) (now : Instant)
    (db : ProjectionDb) : Except Fault ProjectionDb := do
  let admission ← db.fence cfg.policy p.sessionId epoch
  ensure (∀ segment ∈ p.batch, admission.PermitsSegment segment.segmentId segment.revision)
    (deny "batch exceeds the terminal frontier")
  ensure (db.liveVersion p.sessionId = p.expectedVersion)
    (.stateConflict "Meeting State changed during extraction")
  let (shown, candidates) ← applyCandidates cfg db p.sessionId p.delta.actionOperations p.batch
  let next ← mergeMeetingState cfg.merge p.current p.delta shown (batchRevisions p.batch)
    (p.expectedVersion + 1)
  let offsets ← advanceOffsets p.sessionId now (batchRevisions p.batch) db.offsets
  let advanced := { db with candidates, offsets }
  advanced.replaceHead (projectedHead cfg advanced p admission.terminalFrontier next now)
    p.expectedVersion

/-- Advance the offsets of captions that cannot be projected. -/
def skipInvalid (cfg : ProjectorConfig) (sessionId : SessionId) (epoch : ℕ)
    (records : List SegmentRecord) (now : Instant) (db : ProjectionDb) :
    Except Fault ProjectionDb := do
  let current ← db.fence cfg.policy sessionId epoch
  let permitted := records.filter fun record =>
    record.sessionId = sessionId ∧ current.PermitsSegment record.segmentId record.revision
  let offsets ← advanceOffsets sessionId now (recordRevisions permitted) db.offsets
  return { db with offsets }

def initialHead (sessionId : SessionId) : HeadRecord where
  sessionId := sessionId
  version := 0
  status := .stale
  state := emptyState sessionId
  latestFinalUpdatedAt := none
  lagMs := 0
  pendingSegmentCount := 0

/-- A head with the error of a failed batch; its state and version stay. -/
def HeadRecord.failed (head : HeadRecord) (latest : Option Instant) (lag pending : ℕ)
    (errorCode : String) (now : Instant) : HeadRecord :=
  { head with
    status := .stale
    latestFinalUpdatedAt := latest
    lagMs := lag
    pendingSegmentCount := pending
    lastErrorAt := some now
    lastErrorCode := some errorCode }

/-- Leave the error of a failed batch with the head of its session. -/
def recordFailure (cfg : ProjectorConfig) (sessionId : SessionId) (epoch : ℕ)
    (errorCode : String) (now : Instant) (db : ProjectionDb) : Except Fault ProjectionDb := do
  let admission ← db.fence cfg.policy sessionId epoch
  let head := (db.heads.get sessionId).getD (initialHead sessionId)
  let lagFrom := head.projectedThrough.or (db.oldestFinalUpdatedAt sessionId)
  let failed := head.failed (db.latestFinalUpdatedAt sessionId) (lagMs (some now) lagFrom)
    (db.pendingCount sessionId admission.terminalFrontier) errorCode now
  let heads ← require (db.heads.put failed) .integrity
  return { db with heads }

/-- Store a final caption, unless it is known at this revision or a later one. -/
def upsertFinal (caption : SegmentRecord) (db : ProjectionDb) : ProjectionDb :=
  let final := { caption with status := .final }
  match db.segments.get (caption.sessionId, caption.segmentId) with
  | some existing =>
    if caption.revision ≤ existing.revision then db
    else { db with segments := db.segments.set final }
  | none => { db with segments := (db.segments.insert final).getD db.segments }

end Meeting
end Matinier
