import Mathlib.Data.Prod.Lex
import Matinier.Foundation.Machine
import Matinier.Meeting.Projector

/-!
# The projectors and the world around them

A projector scans for captions that are not projected, buffers them, and takes the buffered
captions of a session as a batch. Between the reads of a batch and its commit a model is
asked, so anything may happen: captions are revised, the analysis is stopped, revoked or
started again, its frontier is frozen, and other projectors commit. What has been read and is
not committed yet is a task; a task may be dropped at any time.
-/

namespace Matinier
namespace Meeting

open Assistant

abbrev ProjectorId := ℕ
abbrev TaskId := ℕ

/-- The captions of a session that wait to be projected, and the epoch they were read under. -/
structure SessionBuffer where
  analysisEpoch : Option ℕ := none
  segments : List ProjectionSegment := []

/-- Put a caption over an older revision of it. -/
def putSegment (segments : List ProjectionSegment) (segment : ProjectionSegment) :
    List ProjectionSegment :=
  match segments.find? fun current => current.segmentId = segment.segmentId with
  | none => segments ++ [segment]
  | some current =>
    if current.revision < segment.revision then
      segments.map fun old => if old.segmentId = segment.segmentId then segment else old
    else segments

def bufferSegments (admission : AnalysisAdmission) (segments : List ProjectionSegment)
    (buffer : Option SessionBuffer) : Option SessionBuffer :=
  segments.foldl (fun buffer segment =>
    if admission.PermitsSegment segment.segmentId segment.revision then
      let kept := (buffer.filter fun b => b.analysisEpoch = admission.analysisEpoch).getD
        { analysisEpoch := admission.analysisEpoch }
      some { kept with segments := putSegment kept.segments segment }
    else buffer) buffer

/-- The order in which captions are projected: those with a start by it, then the others. -/
def ProjectionSegment.Before (a b : ProjectionSegment) : Prop :=
  toLex (a.record.audioStartMs.isNone, toLex (a.record.audioStartMs.getD 0,
      toLex (a.record.finalizedAt, a.segmentId))) ≤
    toLex (b.record.audioStartMs.isNone, toLex (b.record.audioStartMs.getD 0,
      toLex (b.record.finalizedAt, b.segmentId)))

instance (a b : ProjectionSegment) : Decidable (a.Before b) :=
  inferInstanceAs (Decidable (_ ≤ _))

/-- The first of the captions, as many as have a number of characters together; one at least. -/
def takeUpTo (limit count : ℕ) : List ProjectionSegment → List ProjectionSegment
  | [] => []
  | segment :: rest =>
    let next := count + segment.record.displayText.length
    if 0 < count ∧ limit < next then []
    else segment :: if limit ≤ next then [] else takeUpTo limit next rest

def selectBatch (cfg : ProjectorConfig) (segments : List ProjectionSegment) :
    List ProjectionSegment :=
  takeUpTo cfg.maxInputChars 0 (segments.insertionSort ProjectionSegment.Before)

def acknowledge (batch : List ProjectionSegment) (epoch : ℕ) (buffer : Option SessionBuffer) :
    Option SessionBuffer :=
  buffer.map fun b =>
    if b.analysisEpoch = some epoch then
      { b with segments := b.segments.filter fun current =>
          ¬ ∃ segment ∈ batch, segment.segmentId = current.segmentId ∧
            current.revision ≤ segment.revision }
    else b

/-- Keep the last operation on each candidate, and every creation. -/
def coalesceActionOperations (operations : List CandidateOperation) : List CandidateOperation :=
  (operations.reverse.foldl (fun (retained, touched) operation =>
    match operation with
    | .create _ => (operation :: retained, touched)
    | _ =>
      if ∃ candidate ∈ operation.touched, candidate ∈ touched then (retained, touched)
      else (operation :: retained, operation.touched ++ touched)) ([], [])).1

/-- One caption that is too long for the model is projected piece by piece. -/
def Oversized (cfg : ProjectorConfig) : List ProjectionSegment → Prop
  | [segment] => cfg.maxInputChars < segment.record.displayText.length
  | _ => False

instance (cfg : ProjectorConfig) (batch : List ProjectionSegment) :
    Decidable (Oversized cfg batch) := by
  unfold Oversized
  split <;> infer_instance

/-- The delta of a caption from those of its pieces. -/
def joinDeltas (sessionId : SessionId) (batch : List ProjectionSegment)
    (deltas : List MeetingStateDelta) : Except Fault MeetingStateDelta :=
  bindDelta sessionId (batch.map ProjectionSegment.segmentId)
    { topics := deltas.flatMap fun d => d.topics
      entities := deltas.flatMap fun d => d.entities
      decisions := deltas.flatMap fun d => d.decisions
      highlights := deltas.flatMap fun d => d.highlights
      conflicts := deltas.flatMap fun d => d.conflicts
      actionOperations := coalesceActionOperations (deltas.flatMap fun d => d.actionOperations) }

/-- The delta of a batch: its only answer, or the joined answers for the pieces of a caption. -/
def batchDelta (cfg : ProjectorConfig) (sessionId : SessionId) (batch : List ProjectionSegment)
    (answers : List MeetingStateDelta) : Option MeetingStateDelta :=
  if Oversized cfg batch then (joinDeltas sessionId batch answers).toOption
  else match answers with
    | [delta] => some delta
    | _ => none

/-- How far a batch has come. -/
inductive BatchPhase where
  | selected (batch : List ProjectionSegment)
  | extracting (batch : List ProjectionSegment) (current : MeetingState) (expectedVersion : ℕ)
      (answers : List MeetingStateDelta)
  | failed (fault : Fault)

inductive Task where
  | scanned (projector : ProjectorId) (sessionId : SessionId) (epoch : ℕ)
      (snapshots : List ProjectionSegment) (invalid : List SegmentRecord)
  | batch (projector : ProjectorId) (sessionId : SessionId) (epoch : ℕ) (phase : BatchPhase)
  | freezing (sessionId : SessionId) (epoch : ℕ) (frontier : List (SegmentId × ℕ))
  | finishing (sessionId : SessionId) (epoch : ℕ)

structure World where
  db : ProjectionDb := {}
  buffers : ProjectorId → SessionId → Option SessionBuffer := fun _ _ => none
  inflight : ProjectorId → SessionId → Bool := fun _ _ => false
  tasks : TaskId → Option Task := fun _ => none

inductive Action where
  -- the host, its users and the captions
  | ensureSession (sessionId : SessionId) (mediaSessionId : MediaSessionId) (pluginVersion : String)
  | activate (sessionId : SessionId) (mediaSessionId : MediaSessionId)
      (pluginVersion actorId : String)
  | confirmActivation (sessionId : SessionId)
  | deactivate (sessionId : SessionId)
  | revoke (sessionId : SessionId) (now : Instant)
  | disable (now : Instant)
  | host (host : Host) (runtimeReady : String → Bool)
  | session (record : SessionRecord)
  | caption (caption : SegmentRecord)
  -- a projector
  | scan (projector : ProjectorId) (sessionId : SessionId) (seen : SegmentId → Bool) (task : TaskId)
  | skip (task : TaskId) (now : Instant)
  | buffer (task : TaskId)
  | adopt (projector : ProjectorId) (sessionId : SessionId)
  | take (projector : ProjectorId) (sessionId : SessionId) (task : TaskId)
  | read (task : TaskId)
  | extract (task : TaskId) (payload : DeltaPayload)
  | fail (task : TaskId) (fault : Fault)
  | commit (task : TaskId) (now : Instant)
  | record (task : TaskId) (errorCode : String) (now : Instant)
  | drop (task : TaskId)
  | clear (projector : ProjectorId)
  -- the policy
  | readFrontier (sessionId : SessionId) (task : TaskId)
  | freeze (task : TaskId)
  | checkDrained (sessionId : SessionId) (epoch : ℕ) (task : TaskId)
  | finish (task : TaskId)

def Action.task? : Action → Option TaskId
  | .skip id _ | .buffer id | .read id | .extract id _ | .fail id _ | .commit id _
  | .record id _ _ | .freeze id | .finish id => some id
  | _ => none

/-- The final captions of a session that are not processed at their revision. -/
def ProjectionDb.pendingFinals (db : ProjectionDb) (sessionId : SessionId) : List SegmentRecord :=
  (db.finals sessionId).filter fun s =>
    match db.processed sessionId s.segmentId with
    | none => true
    | some revision => revision < s.revision

namespace World

variable (w : World)

def setTask (id : TaskId) (task : Option Task) : World :=
  { w with tasks := Function.update w.tasks id task }

def setBuffer (projector : ProjectorId) (sessionId : SessionId) (buffer : Option SessionBuffer) :
    World :=
  let ofProjector := Function.update (w.buffers projector) sessionId buffer
  { w with buffers := Function.update w.buffers projector ofProjector }

def setInflight (projector : ProjectorId) (sessionId : SessionId) (busy : Bool) : World :=
  let ofProjector := Function.update (w.inflight projector) sessionId busy
  { w with inflight := Function.update w.inflight projector ofProjector }

def start (id : TaskId) (task : Task) : Option World :=
  if (w.tasks id).isNone then some (w.setTask id (some task)) else none

def release (projector : ProjectorId) (sessionId : SessionId) (id : TaskId) : World :=
  (w.setTask id none).setInflight projector sessionId false

def discard (projector : ProjectorId) (sessionId : SessionId) (epoch : ℕ) (id : TaskId) : World :=
  let kept := (w.buffers projector sessionId).filter fun b => b.analysisEpoch ≠ some epoch
  (w.setBuffer projector sessionId kept).release projector sessionId id

/-- A batch has raised: it is denied where its epoch is no longer permitted, else it failed. -/
def raise (cfg : ProjectorConfig) (projector : ProjectorId) (sessionId : SessionId) (epoch : ℕ)
    (id : TaskId) (fault : Fault) : World :=
  match fault with
  | .denied _ => w.discard projector sessionId epoch id
  | _ =>
    if (w.db.admission cfg.policy sessionId).Permits epoch then
      w.setTask id (some (.batch projector sessionId epoch (.failed fault)))
    else w.discard projector sessionId epoch id

/-- What a scan of a session's captions finds. -/
def scanSession (cfg : ProjectorConfig) (projector : ProjectorId) (sessionId : SessionId)
    (seen : SegmentId → Bool) (id : TaskId) : Option World :=
  let admission := w.db.admission cfg.policy sessionId
  match admission.analysisEpoch with
  | none => none
  | some epoch =>
    if admission.allowed = true then
      let records := (w.db.pendingFinals sessionId).filter fun s =>
        seen s.segmentId = true ∧ admission.PermitsSegment s.segmentId s.revision
      w.start id (.scanned projector sessionId epoch (records.filterMap snapshot)
        (records.filter fun s => ¬ s.Projectable))
    else none

/-- Take the buffered captions of a session as a batch, where their epoch is permitted. -/
def takeBatch (cfg : ProjectorConfig) (projector : ProjectorId) (sessionId : SessionId)
    (id : TaskId) : Option World :=
  match w.buffers projector sessionId with
  | none => none
  | some b =>
    if b.segments = [] ∨ w.inflight projector sessionId = true then none
    else
      match b.analysisEpoch with
      | none => some (w.setBuffer projector sessionId none)
      | some epoch =>
        if (w.db.admission cfg.policy sessionId).Permits epoch then
          (w.setInflight projector sessionId true).start id
            (.batch projector sessionId epoch (.selected (selectBatch cfg b.segments)))
        else some (w.setBuffer projector sessionId none)

def BatchPermitted (cfg : ProjectorConfig) (sessionId : SessionId) (epoch : ℕ)
    (batch : List ProjectionSegment) : Prop :=
  let admission := w.db.admission cfg.policy sessionId
  admission.Permits epoch ∧
    ∀ segment ∈ batch, admission.PermitsSegment segment.segmentId segment.revision

instance (cfg : ProjectorConfig) (sessionId : SessionId) (epoch : ℕ)
    (batch : List ProjectionSegment) : Decidable (w.BatchPermitted cfg sessionId epoch batch) :=
  inferInstanceAs (Decidable (_ ∧ _))

def batchStep (cfg : ProjectorConfig) (projector : ProjectorId) (sessionId : SessionId)
    (epoch : ℕ) (id : TaskId) : BatchPhase → Action → Option World
  | .selected batch, .read _ =>
    some (w.setTask id (some (.batch projector sessionId epoch
      (.extracting batch (w.db.liveState sessionId) (w.db.liveVersion sessionId) []))))
  | .extracting batch current version answers, .extract _ payload =>
    if w.BatchPermitted cfg sessionId epoch batch then
      match parseMeetingStateDelta sessionId batch payload with
      | .ok delta => some (w.setTask id (some (.batch projector sessionId epoch
          (.extracting batch current version (answers ++ [delta])))))
      | .error fault => some (w.raise cfg projector sessionId epoch id fault)
    else some (w.discard projector sessionId epoch id)
  | .extracting batch current version answers, .commit _ now =>
    (batchDelta cfg sessionId batch answers).map fun delta =>
      match commitProjection cfg ⟨current, version, delta, batch⟩ epoch now w.db with
      | .ok db =>
        (({ w with db }).setBuffer projector sessionId
          (acknowledge batch epoch (w.buffers projector sessionId))).release projector sessionId id
      | .error fault => w.raise cfg projector sessionId epoch id fault
  | .extracting .., .fail _ fault => some (w.raise cfg projector sessionId epoch id fault)
  | .failed _, .record _ errorCode now =>
    if ¬ ∃ b ∈ w.buffers projector sessionId, b.analysisEpoch = some epoch then
      some (w.release projector sessionId id)
    else match recordFailure cfg sessionId epoch errorCode now w.db with
    | .ok db => some (({ w with db }).release projector sessionId id)
    | .error _ => some (w.release projector sessionId id)
  | _, _ => none

def taskStep (cfg : ProjectorConfig) (id : TaskId) : Task → Action → Option World
  | .scanned projector sessionId epoch snapshots invalid, .skip _ now =>
    match skipInvalid cfg sessionId epoch invalid now w.db with
    | .ok db => some ({ w with db }.setTask id
        (some (.scanned projector sessionId epoch snapshots [])))
    | .error (.denied _) =>
      some (w.setTask id (some (.scanned projector sessionId epoch snapshots [])))
    | .error _ => some (w.setTask id none)
  | .scanned projector sessionId _ snapshots [], .buffer _ =>
    some ((w.setBuffer projector sessionId (bufferSegments (w.db.admission cfg.policy sessionId)
      snapshots (w.buffers projector sessionId))).setTask id none)
  | .batch projector sessionId epoch phase, a =>
    w.batchStep cfg projector sessionId epoch id phase a
  | .freezing sessionId epoch frontier, .freeze _ =>
    some ({ w with db := w.db.freezeFrontier sessionId epoch frontier }.setTask id none)
  | .finishing sessionId epoch, .finish _ =>
    match w.db.finish cfg.policy sessionId epoch with
    | .ok db => some ({ w with db }.setTask id none)
    | .error _ => some (w.setTask id none)
  | _, _ => none

def next (cfg : ProjectorConfig) : Action → Option World
  | .ensureSession sessionId mediaSessionId pluginVersion =>
    (w.db.meeting.ensureSession sessionId mediaSessionId pluginVersion).toOption.map fun made =>
      { w with db := { w.db with meeting := made.2 } }
  | .activate sessionId mediaSessionId pluginVersion actorId =>
    (w.db.activate cfg.policy sessionId mediaSessionId pluginVersion actorId).toOption.map fun db =>
      { w with db }
  | .confirmActivation sessionId =>
    (w.db.meeting.sessions.get sessionId).map fun row =>
      { w with db := { w.db with meeting := w.db.meeting.activateAnalysis row } }
  | .deactivate sessionId => some { w with db := w.db.deactivate sessionId }
  | .revoke sessionId now => some { w with db := w.db.revoke sessionId now }
  | .disable now => some { w with db := { w.db with meeting := w.db.meeting.disablePlugin now } }
  | .host host runtimeReady =>
    some { w with db := { w.db with meeting := { w.db.meeting with host }, runtimeReady } }
  | .session record =>
    (w.db.legacySessions.put record).map fun legacySessions =>
      { w with db := { w.db with legacySessions } }
  | .caption caption => some { w with db := upsertFinal caption w.db }
  | .scan projector sessionId seen id => w.scanSession cfg projector sessionId seen id
  | .adopt projector sessionId =>
    let admission := w.db.admission cfg.policy sessionId
    if admission.allowed = true then
      let b := (w.buffers projector sessionId).getD {}
      some (w.setBuffer projector sessionId
        (some { b with analysisEpoch := admission.analysisEpoch }))
    else none
  | .take projector sessionId id => w.takeBatch cfg projector sessionId id
  | .drop id =>
    match w.tasks id with
    | some (.batch projector sessionId _ _) => some (w.release projector sessionId id)
    | _ => some (w.setTask id none)
  | .clear projector =>
    some { w with buffers := Function.update w.buffers projector fun _ => none }
  | .readFrontier sessionId id =>
    (w.db.meeting.sessions.get sessionId).bind fun row =>
      if w.db.Eligible cfg.policy row ∧ row.analysisState = .active ∧
          ∃ legacy ∈ w.db.legacySessions.get sessionId, legacy.status.Terminal then
        w.start id (.freezing sessionId row.analysisEpoch (w.db.finalRevisions sessionId))
      else none
  | .checkDrained sessionId epoch id =>
    if w.db.FinishReady cfg.policy sessionId epoch then w.start id (.finishing sessionId epoch)
    else none
  | a => a.task?.bind fun id => (w.tasks id).bind fun task => w.taskStep cfg id task a

def Steps (cfg : ProjectorConfig) (w : World) (a : Action) (w' : World) : Prop :=
  w.next cfg a = some w'

end World

end Meeting
end Matinier
