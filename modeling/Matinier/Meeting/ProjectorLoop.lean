import Mathlib.Data.List.AList
import Matinier.Meeting.ProjectorMachine

/-!
# The projector's own loop

A projector polls for captions, buffers them and schedules the sessions whose captions are ready;
its workers project one batch each, and a caller may ask to be told when a session has caught up.
All of them take turns: a turn ends where the poll sleeps, a worker waits for the queue or for the
model, or a request returns. Within a turn each call of the database or of the policy is a stage of
its own, for the host and the captions may write between two of them, and any of them may raise.
-/

namespace Matinier
namespace Meeting

open Assistant

structure LoopConfig extends ProjectorConfig where
  batchSegments : ℕ := 10
  batchTriggerChars : ℕ := 2000
  maxBatchWait : ℕ := 4
  scanOverlap : ℕ := 2
  concurrency : ℕ := 2
  retryDelays : List ℕ := [1, 2, 5, 10, 30]
  limits_pos : 0 < batchSegments ∧ 0 < batchTriggerChars ∧ 0 < maxInputChars ∧ 0 < maxBatchWait ∧
    0 < staleAfterSeconds ∧ 0 < concurrency
  delays_pos : retryDelays ≠ [] ∧ ∀ delay ∈ retryDelays, 0 < delay

structure PendingBuffer extends SessionBuffer where
  firstPendingAt : Option Instant := none
  finalizing : Bool := false
  priorityRequested : Bool := false
  failureCount : ℕ := 0
  retryAt : Instant := 0

abbrev Buffers := AList fun _ : SessionId => PendingBuffer

/-- Put a buffer in its place, or remove the one there is. -/
def Buffers.put (buffers : Buffers) (sessionId : SessionId) : Option PendingBuffer → Buffers
  | none => buffers.erase sessionId
  | some b => buffers.insert sessionId b

@[simp] theorem Buffers.lookup_put_self (buffers : Buffers) (s : SessionId)
    (b : Option PendingBuffer) : (buffers.put s b).lookup s = b := by
  cases b with
  | none => exact AList.lookup_erase s buffers
  | some b => exact AList.lookup_insert buffers

theorem Buffers.lookup_put_ne (buffers : Buffers) {s t : SessionId} (h : t ≠ s)
    (b : Option PendingBuffer) : (buffers.put s b).lookup t = buffers.lookup t := by
  cases b with
  | none => exact AList.lookup_erase_ne h
  | some b => exact AList.lookup_insert_ne h

def AnalysisAdmission.PermitsBuffer (admission : AnalysisAdmission) (b : PendingBuffer) : Prop :=
  admission.allowed = true ∧ admission.analysisEpoch = b.analysisEpoch

instance (admission : AnalysisAdmission) (b : PendingBuffer) :
    Decidable (admission.PermitsBuffer b) :=
  inferInstanceAs (Decidable (_ ∧ _))

namespace PendingBuffer

variable (b : PendingBuffer)

def Lacks (segment : ProjectionSegment) : Prop :=
  ∀ current ∈ b.segments, current.segmentId = segment.segmentId →
    current.revision < segment.revision

instance (segment : ProjectionSegment) : Decidable (b.Lacks segment) :=
  inferInstanceAs (Decidable (∀ current ∈ b.segments, _))

/-- Put a caption that is lacking; the first one begins to wait. -/
def add (now : Instant) (segment : ProjectionSegment) : PendingBuffer :=
  { b with
    firstPendingAt := if b.segments = [] then some now else b.firstPendingAt
    segments := putSegment b.segments segment }

def charCount : ℕ := (b.segments.map fun segment => segment.record.displayText.length).sum

def age (now : Instant) : ℕ :=
  match b.firstPendingAt with
  | some since => now - since
  | none => 0

/-- The captions are to be projected now: someone asks for them, the session is over, or they are
many enough, long enough or have waited long enough. -/
def Ready (cfg : LoopConfig) (now : Instant) (priority : Bool) : Prop :=
  priority = true ∨ b.finalizing = true ∨ cfg.batchSegments ≤ b.segments.length ∨
    cfg.batchTriggerChars ≤ b.charCount ∨ cfg.maxBatchWait ≤ b.age now

instance (cfg : LoopConfig) (now : Instant) (priority : Bool) :
    Decidable (b.Ready cfg now priority) :=
  inferInstanceAs (Decidable (_ ∨ _))

def acknowledged (now : Instant) (batch : List ProjectionSegment) : PendingBuffer :=
  let left := b.segments.filter fun current =>
    ¬ ∃ segment ∈ batch, segment.segmentId = current.segmentId ∧
      current.revision ≤ segment.revision
  { b with
    segments := left
    failureCount := 0
    retryAt := 0
    firstPendingAt := if left = [] then none else some now
    priorityRequested := if left = [] then false else b.priorityRequested }

/-- A batch has failed; the next one waits, longer each time. -/
def delayed (cfg : LoopConfig) (now : Instant) : PendingBuffer :=
  { b with
    failureCount := b.failureCount + 1
    retryAt := now +
      cfg.retryDelays.getD (min b.failureCount (cfg.retryDelays.length - 1)) 0 }

end PendingBuffer

/-- Buffer one caption as its session is admitted; a buffer of another epoch is given up. -/
def bufferSegment (now : Instant) (admission : AnalysisAdmission) (b : Option PendingBuffer)
    (segment : ProjectionSegment) : Option PendingBuffer :=
  if admission.PermitsSegment segment.segmentId segment.revision then
    let kept := (b.filter fun b => b.analysisEpoch = admission.analysisEpoch).getD
      { analysisEpoch := admission.analysisEpoch }
    some (if kept.Lacks segment then kept.add now segment else kept)
  else b

/-- Buffer captions in turn, each as the admission that was read of its session says. -/
def bufferCaptions (now : Instant) (read : SessionId → AnalysisAdmission)
    (segments : List ProjectionSegment) (buffers : Buffers) : Buffers :=
  segments.foldl (fun buffers segment =>
    let s := segment.record.sessionId
    buffers.put s (bufferSegment now (read s) (buffers.lookup s) segment)) buffers

def markFinalizing (sessions : List SessionId) (buffers : Buffers) : Buffers :=
  sessions.foldl (fun buffers s =>
    buffers.insert s { (buffers.lookup s).getD {} with finalizing := true }) buffers

/-- What a caller waits for: the revisions of a session's captions, under an epoch. -/
structure CatchUpTarget where
  id : ℕ
  sessionId : SessionId
  targetRevisions : List (SegmentId × ℕ)
  analysisEpoch : ℕ
  deriving DecidableEq

def CatchUpTarget.Reached (target : CatchUpTarget) (processed : SegmentId → Option ℕ) : Prop :=
  ∀ entry ∈ target.targetRevisions, entry.2 ≤ (processed entry.1).getD 0

instance (target : CatchUpTarget) (processed : SegmentId → Option ℕ) :
    Decidable (target.Reached processed) :=
  inferInstanceAs (Decidable (∀ entry ∈ target.targetRevisions, _))

inductive CatchUpOutcome where
  | result (stateVersion : ℕ) (sourceFrontier : List (SegmentId × ℕ))
  | cancelled
  deriving DecidableEq

/-- What became of the future of a target. -/
structure Settlement where
  targetId : ℕ
  outcome : CatchUpOutcome
  deriving DecidableEq

inductive Verdict where
  | ends (outcome : CatchUpOutcome)
  | stays
  | goes
  deriving DecidableEq

structure BatchJob where
  sessionId : SessionId
  epoch : ℕ
  batch : List ProjectionSegment
  current : MeetingState
  expectedVersion : ℕ
  answers : List MeetingStateDelta := []

/-- Whose captions are checked: those a poll has found, or those a request has read. -/
inductive Reader where
  | poll (admissions : SessionId → Option AnalysisAdmission) (finalizing : List SessionId)
  | request (sessionId : SessionId) (admission : AnalysisAdmission)
      (targetRevisions : List (SegmentId × ℕ))

def Reader.admission : Reader → SessionId → Option AnalysisAdmission
  | .poll admissions _, s => admissions s
  | .request sessionId admission _, s => if s = sessionId then some admission else none

inductive Bufferer where
  | poll (finalizing : List SessionId)
  | request (target : CatchUpTarget)

inductive Resolver where
  | worker (epoch : ℕ)
  | request (target : CatchUpTarget)

/-- The call that the turn under way makes next. -/
inductive Stage where
  -- a poll
  | freezing (ids left : List SessionId) (frozen : List (SessionId × ℕ × List (SegmentId × ℕ)))
  | admitting (ids left : List SessionId) (found : SessionId → Option AnalysisAdmission)
  | finishing (left : List SessionId) (finished : Bool)
      (found : SessionId → Option AnalysisAdmission)
  | querying (admissions : SessionId → Option AnalysisAdmission)
  | observing (admissions : SessionId → Option AnalysisAdmission) (records : List SegmentRecord)
      (finalizing : List SessionId)
  | scheduling (left : List SessionId) (since : Instant)
  -- a poll or a request
  | skipping (reader : Reader) (snapshots : List ProjectionSegment) (invalid : List SegmentRecord)
      (left : List SessionId)
  | buffering (bufferer : Bufferer) (snapshots : List ProjectionSegment) (left : List SessionId)
      (read : SessionId → AnalysisAdmission) (since : Instant)
  -- a request
  | registering (sessionId : SessionId) (targetRevisions : List (SegmentId × ℕ))
      (snapshots : List ProjectionSegment)
  | forcing (sessionId : SessionId)
  -- a worker
  | requiring (sessionId : SessionId) (epoch : ℕ)
  | reading (sessionId : SessionId) (epoch : ℕ)
  | extracting (job : BatchJob)
  | judging (sessionId : SessionId) (epoch : ℕ) (errorCode : String)
  | recording (sessionId : SessionId) (epoch : ℕ) (errorCode : String)
  | draining (sessionId : SessionId) (epoch : ℕ)
  | rescheduling (sessionId : SessionId) (escaped : Bool)
  -- a worker or a request
  | resolving (resolver : Resolver) (sessionId : SessionId)
  | settling (resolver : Resolver) (sessionId : SessionId) (processed : SegmentId → Option ℕ)
      (stateVersion : ℕ) (sourceFrontier : List (SegmentId × ℕ))

/-- A batch with what the model has answered, where that can be parsed; else it fails. -/
def BatchJob.answered (job : BatchJob) (payload : DeltaPayload) : Option Stage :=
  (parseMeetingStateDelta job.sessionId job.batch payload).toOption.map fun delta =>
    .extracting { job with answers := job.answers ++ [delta] }

def Stage.isWorker : Stage → Bool
  | .requiring _ _ | .reading _ _ | .extracting _ | .judging _ _ _ | .recording _ _ _
  | .draining _ _ | .rescheduling _ _ | .resolving (.worker _) _
  | .settling (.worker _) _ _ _ _ => true
  | _ => false

structure LoopWorld where
  db : ProjectionDb := {}
  now : Instant := 0
  loopTime : Instant := 0
  running : Bool := false
  stage : Option Stage := none
  /-- The workers that wait for the queue. -/
  idle : ℕ := 0
  /-- The batches whose workers wait for the model. -/
  jobs : List BatchJob := []
  buffers : Buffers := ∅
  inflight : SessionId → Bool := fun _ => false
  /-- The queue: the sessions in it, and whether each has priority. -/
  scheduled : SessionId → Option Bool := fun _ => none
  seen : SessionId → Option ℕ := fun _ => none
  cursor : Option Instant := none
  waiters : SessionId → List CatchUpTarget := fun _ => []
  targets : List CatchUpTarget := []
  settlements : List Settlement := []

inductive LoopAction where
  -- the host, the captions and the clocks
  | host (action : Action)
  | caption (caption : SegmentRecord)
  | ticks (now loopTime : Instant)
  | starts
  | stops
  -- how turns begin
  | polls
  | requests (sessionId : SessionId)
  | takes (sessionId : SessionId)
  | answers (sessionId : SessionId) (payload : DeltaPayload)
  | fails (sessionId : SessionId) (errorCode : String)
  -- how they go on
  | proceeds
  | commits
  | raises (errorCode : String)

def Action.ofHost : Action → Bool
  | .ensureSession _ _ _ | .activate _ _ _ _ | .confirmActivation _ | .deactivate _ | .revoke _ _
  | .disable _ | .host _ _ | .session _ => true
  | _ => false

namespace ProjectionDb

variable (db : ProjectionDb)

def eligibleSessions (cfg : PolicyConfig) : List SessionId :=
  (db.meeting.sessions.select fun row => db.Eligible cfg row).map
    PluginSessionRecord.legacySessionId

def terminalFrontier (sessionId : SessionId) : List (SessionId × ℕ × List (SegmentId × ℕ)) :=
  match db.meeting.sessions.get sessionId with
  | none => []
  | some row =>
    if row.analysisState = .active ∧
        ∃ legacy ∈ db.legacySessions.get sessionId, legacy.status.Terminal then
      [(sessionId, row.analysisEpoch, db.finalRevisions sessionId)]
    else []

def freezeFrontiers (frozen : List (SessionId × ℕ × List (SegmentId × ℕ))) : ProjectionDb :=
  frozen.foldl (fun db entry => db.freezeFrontier entry.1 entry.2.1 entry.2.2) db

/-- Complete an analysis that drains, where it is drained. What is found of it before the fence is
passed still holds then, for offsets do not go back and a frontier stays as it was frozen. -/
def finishIfDrained (cfg : PolicyConfig) (sessionId : SessionId) (epoch : ℕ) : ProjectionDb :=
  if db.FinishReady cfg sessionId epoch then
    (db.finish cfg sessionId epoch).toOption.getD db
  else db

def PendingFinal (record : SegmentRecord) : Prop :=
  record.status = .final ∧ ∀ revision ∈ db.processed record.sessionId record.segmentId,
    revision < record.revision

instance (record : SegmentRecord) : Decidable (db.PendingFinal record) :=
  inferInstanceAs (Decidable (_ ∧ _))

/-- The sessions of these that are over, or about to be. -/
def finalizingSessions (admissions : SessionId → Option AnalysisAdmission) : List SessionId :=
  (db.legacySessions.select fun legacy =>
    (legacy.status = .finalizing ∨ legacy.status.Terminal) ∧
      (admissions legacy.id).isSome = true).map SessionRecord.id

end ProjectionDb

/-- The session is scanned as a whole: its epoch has not been seen, or it drains. -/
def Backfill (seen : SessionId → Option ℕ) (admissions : SessionId → Option AnalysisAdmission)
    (sessionId : SessionId) : Prop :=
  ∃ admission ∈ admissions sessionId,
    seen sessionId ≠ admission.analysisEpoch ∨ admission.state = .draining

instance (seen : SessionId → Option ℕ) (admissions : SessionId → Option AnalysisAdmission)
    (sessionId : SessionId) : Decidable (Backfill seen admissions sessionId) :=
  inferInstanceAs (Decidable (∃ admission ∈ admissions sessionId, _))

namespace LoopWorld

variable (cfg : LoopConfig) (w : LoopWorld)

/-- The caption is one that a scan of these sessions selects. -/
def Selects (admissions : SessionId → Option AnalysisAdmission) (record : SegmentRecord) : Prop :=
  w.db.PendingFinal record ∧ (admissions record.sessionId).isSome = true ∧
    ((∀ cursor ∈ w.cursor, cursor ≤ record.updatedAt + cfg.scanOverlap) ∨
      Backfill w.seen admissions record.sessionId)

instance (admissions : SessionId → Option AnalysisAdmission) (record : SegmentRecord) :
    Decidable (w.Selects cfg admissions record) :=
  inferInstanceAs (Decidable (_ ∧ _))

/-- The captions a scan of these sessions finds, the oldest first. -/
def scanRecords (admissions : SessionId → Option AnalysisAdmission) : List SegmentRecord :=
  (w.db.segments.select fun record => w.Selects cfg admissions record).insertionSort fun a b =>
    a.updatedAt ≤ b.updatedAt

def goTo (stage : Stage) : LoopWorld := { w with stage := some stage }

def pause : LoopWorld := { w with stage := none }

/-- The batch of a session is over; an exception may be on its way. -/
def leave (sessionId : SessionId) (escaped : Bool) : LoopWorld :=
  { w with
    inflight := Function.update w.inflight sessionId false
    stage := some (.rescheduling sessionId escaped) }

def Done (target : CatchUpTarget) : Prop :=
  target.id ∈ w.settlements.map Settlement.targetId

instance (target : CatchUpTarget) : Decidable (w.Done target) :=
  inferInstanceAs (Decidable (_ ∈ _))

def settleAll (ended : List (CatchUpTarget × CatchUpOutcome)) : List Settlement :=
  w.settlements ++ (ended.filter fun e => ¬ w.Done e.1).map fun e => ⟨e.1.id, e.2⟩

def discardBuffer (sessionId : SessionId) (epoch : Option ℕ) : LoopWorld :=
  let targets := w.waiters sessionId
  { w with
    buffers := w.buffers.put sessionId
      ((w.buffers.lookup sessionId).filter fun b => b.analysisEpoch ≠ epoch)
    waiters := Function.update w.waiters sessionId
      (targets.filter fun target => epoch ≠ some target.analysisEpoch)
    settlements := w.settleAll ((targets.filter fun target =>
      epoch = some target.analysisEpoch).map fun target => (target, .cancelled)) }

def verdict (admission : AnalysisAdmission) (processed : SegmentId → Option ℕ)
    (stateVersion : ℕ) (sourceFrontier : List (SegmentId × ℕ)) (target : CatchUpTarget) :
    Verdict :=
  -- A new activation may process the same revisions, but fulfils nothing of an earlier one.
  if admission.analysisEpoch ≠ some target.analysisEpoch then .ends .cancelled
  else if target.Reached processed ∧ ¬ w.Done target then
    .ends (.result stateVersion sourceFrontier)
  else if ¬ admission.Permits target.analysisEpoch then .ends .cancelled
  else if ¬ w.Done target then .stays
  else .goes

def settleWaiters (sessionId : SessionId) (admission : AnalysisAdmission)
    (processed : SegmentId → Option ℕ) (stateVersion : ℕ)
    (sourceFrontier : List (SegmentId × ℕ)) : LoopWorld :=
  let verdict := w.verdict admission processed stateVersion sourceFrontier
  let targets := w.waiters sessionId
  { w with
    waiters := Function.update w.waiters sessionId
      (targets.filter fun target => verdict target = .stays)
    settlements := w.settleAll (targets.filterMap fun target =>
      match verdict target with
      | .ends outcome => some (target, outcome)
      | _ => none) }

def enqueue (sessionId : SessionId) (priority : Bool) : LoopWorld :=
  if w.scheduled sessionId = some true ∨ w.scheduled sessionId = some priority then w
  else { w with scheduled := Function.update w.scheduled sessionId (some priority) }

def scheduleIfReady (sessionId : SessionId) (forcePriority : Bool) : LoopWorld :=
  match w.buffers.lookup sessionId with
  | none => w
  | some b =>
    if ¬ (w.db.admission cfg.policy sessionId).PermitsBuffer b then
      w.discardBuffer sessionId b.analysisEpoch
    else if b.segments = [] ∨ w.inflight sessionId = true ∨ w.loopTime < b.retryAt then w
    else if b.Ready cfg w.loopTime (forcePriority || b.priorityRequested) then
      w.enqueue sessionId (forcePriority || b.priorityRequested)
    else w

/-- The analysis of the session is not what it was: its buffer is given up. -/
def deny (sessionId : SessionId) (epoch : ℕ) : LoopWorld :=
  (w.discardBuffer sessionId (some epoch)).leave sessionId false

/-- How a turn goes on once the waiters are resolved. -/
def resolved (sessionId : SessionId) : Resolver → LoopWorld
  | .worker epoch => w.goTo (.draining sessionId epoch)
  | .request target => if w.Done target then w.pause else w.goTo (.forcing sessionId)

def buffering (bufferer : Bufferer) (snapshots : List ProjectionSegment) : Stage :=
  .buffering bufferer snapshots (snapshots.map fun segment => segment.record.sessionId).dedup
    (fun _ => {}) w.loopTime

def register (sessionId : SessionId) (targetRevisions : List (SegmentId × ℕ)) (epoch : ℕ)
    (snapshots : List ProjectionSegment) : LoopWorld :=
  let target : CatchUpTarget :=
    { id := w.targets.length, sessionId, targetRevisions, analysisEpoch := epoch }
  { w with
    targets := w.targets ++ [target]
    waiters := Function.update w.waiters sessionId (w.waiters sessionId ++ [target])
    stage := some (w.buffering (.request target) snapshots) }

/-- Have the buffer of a session under the epoch of a target, with priority. -/
def adopt (target : CatchUpTarget) (buffers : Buffers) : Buffers :=
  let b := (buffers.lookup target.sessionId).getD {}
  buffers.insert target.sessionId
    { b with analysisEpoch := some target.analysisEpoch, priorityRequested := true }

/-- The first transaction of a poll finds the sessions to freeze, and commits. -/
def freeze (ids : List SessionId) (frozen : List (SessionId × ℕ × List (SegmentId × ℕ))) :
    List SessionId → LoopWorld
  | [] =>
    { w with
      db := w.db.freezeFrontiers frozen
      stage := some (.admitting ids ids fun _ => none) }
  | s :: left => w.goTo (.freezing ids left (frozen ++ w.db.terminalFrontier s))

def admitAll (ids : List SessionId) (found : SessionId → Option AnalysisAdmission) :
    List SessionId → LoopWorld
  | [] => w.goTo (.finishing ids false found)
  | s :: left =>
    w.goTo (.admitting ids left
      (Function.update found s (some (w.db.admission cfg.policy s))))

/-- An analysis that drains is finished where it can be, and its admission is read again. -/
def finishNext (finished : Bool) (found : SessionId → Option AnalysisAdmission) :
    List SessionId → LoopWorld
  | [] => w.goTo (.querying fun s => (found s).filter fun admission => admission.allowed)
  | s :: left =>
    match (found s).filter fun admission =>
        admission.allowed = true ∧ admission.state = .draining with
    | none => w.goTo (.finishing left false found)
    | some admission =>
      if finished = true then
        w.goTo (.finishing left false
          (Function.update found s (some (w.db.admission cfg.policy s))))
      else
        match admission.analysisEpoch with
        | none => w.goTo (.finishing left false found)
        | some epoch =>
          { w with
            db := w.db.finishIfDrained cfg.policy s epoch
            stage := some (.finishing (s :: left) true found) }

def query (admissions : SessionId → Option AnalysisAdmission) : LoopWorld :=
  w.goTo (.observing admissions (w.scanRecords cfg admissions)
    (w.db.finalizingSessions admissions))

def validate (reader : Reader) (records : List SegmentRecord) : Stage :=
  let invalid := records.filter fun record => ¬ record.Projectable
  .skipping reader (records.filterMap snapshot) invalid
    (invalid.map SegmentRecord.sessionId).dedup

/-- The cursor moves to the last caption that was found, or to the present where there is none. -/
def observe (admissions : SessionId → Option AnalysisAdmission) (records : List SegmentRecord)
    (finalizing : List SessionId) : LoopWorld :=
  let observed := ((records.map SegmentRecord.updatedAt).max?).getD w.now
  let permitted := records.filter fun (found : SegmentRecord) =>
    ∃ admission ∈ admissions found.sessionId,
      admission.PermitsSegment found.segmentId found.revision
  { w with
    cursor := later w.cursor (some observed)
    stage := some (validate (.poll admissions finalizing) permitted) }

/-- Skip the invalid captions of the next session; a session that is denied is passed over. -/
def skip (reader : Reader) (snapshots : List ProjectionSegment) (invalid : List SegmentRecord) :
    List SessionId → Option LoopWorld
  | [] =>
    match reader with
    | .poll admissions finalizing =>
      some { w with
        seen := fun s => (admissions s).bind AnalysisAdmission.analysisEpoch
        stage := some (w.buffering (.poll finalizing) snapshots) }
    | .request sessionId _ targetRevisions =>
      some (w.goTo (.registering sessionId targetRevisions snapshots))
  | s :: left =>
    match (reader.admission s).bind AnalysisAdmission.analysisEpoch with
    | none => some (w.goTo (.skipping reader snapshots invalid left))
    | some epoch =>
      match skipInvalid cfg.toProjectorConfig s epoch invalid w.now w.db with
      | .ok db => some { w with db, stage := some (.skipping reader snapshots invalid left) }
      | .error (.denied _) => some (w.goTo (.skipping reader snapshots invalid left))
      | .error _ => none

/-- Buffer the captions once the admission of each session is read. -/
def buffer (bufferer : Bufferer) (snapshots : List ProjectionSegment)
    (read : SessionId → AnalysisAdmission) (since : Instant) : List SessionId → LoopWorld
  | [] =>
    let buffers := bufferCaptions since read snapshots w.buffers
    match bufferer with
    | .poll finalizing =>
      let buffers := markFinalizing finalizing buffers
      { w with buffers, stage := some (.scheduling buffers.keys w.loopTime) }
    | .request target =>
      { w with
        buffers := adopt target buffers
        stage := some (.resolving (.request target) target.sessionId) }
  | s :: left =>
    w.goTo (.buffering bufferer snapshots left
      (Function.update read s (w.db.admission cfg.policy s)) since)

def schedule (since : Instant) : List SessionId → LoopWorld
  | [] => w.pause
  | s :: left => (w.scheduleIfReady cfg s false).goTo (.scheduling left since)

def requireTarget (sessionId : SessionId) (targetRevisions : List (SegmentId × ℕ))
    (snapshots : List ProjectionSegment) : LoopWorld :=
  let admission := w.db.admission cfg.policy sessionId
  match admission.analysisEpoch with
  | none => w.pause
  | some epoch =>
    if admission.allowed = true then w.register sessionId targetRevisions epoch snapshots
    else w.pause

def read (sessionId : SessionId) (epoch : ℕ) : LoopWorld :=
  let segments := ((w.buffers.lookup sessionId).map fun b => b.segments).getD []
  match selectBatch cfg.toProjectorConfig segments with
  | [] => w.leave sessionId false
  | batch =>
    w.goTo (.extracting
      { sessionId
        epoch
        batch
        current := w.db.liveState sessionId
        expectedVersion := w.db.liveVersion sessionId })

def hand (job : BatchJob) : Option LoopWorld :=
  if job.answers = [] ∨ Oversized cfg.toProjectorConfig job.batch then
    if World.BatchPermitted { db := w.db } cfg.toProjectorConfig job.sessionId job.epoch
        job.batch then
      some { w with jobs := w.jobs ++ [job], stage := none }
    else some (w.deny job.sessionId job.epoch)
  else none

def commit (job : BatchJob) : Option LoopWorld :=
  (batchDelta cfg.toProjectorConfig job.sessionId job.batch job.answers).bind fun delta =>
    match commitProjection cfg.toProjectorConfig
        ⟨job.current, job.expectedVersion, delta, job.batch⟩ job.epoch w.now w.db with
    | .ok db =>
      some { w with
        db
        buffers := w.buffers.put job.sessionId
          ((w.buffers.lookup job.sessionId).map fun b =>
            if b.analysisEpoch = some job.epoch then b.acknowledged w.loopTime job.batch else b)
        stage := some (.resolving (.worker job.epoch) job.sessionId) }
    | .error (.denied _) => some (w.deny job.sessionId job.epoch)
    | .error _ => none

/-- A batch has failed under an epoch that is still permitted: its session is to wait. -/
def judge (sessionId : SessionId) (epoch : ℕ) (errorCode : String) : LoopWorld :=
  if (w.db.admission cfg.policy sessionId).Permits epoch then
    match (w.buffers.lookup sessionId).filter fun b => b.analysisEpoch = some epoch with
    | none => w.leave sessionId false
    | some b =>
      { w with
        buffers := w.buffers.insert sessionId (b.delayed cfg w.loopTime)
        stage := some (.recording sessionId epoch errorCode) }
  else w.deny sessionId epoch

/-- What keeps the failure from being recorded is passed over. -/
def record (sessionId : SessionId) (epoch : ℕ) (errorCode : String) : LoopWorld :=
  let db := (recordFailure cfg.toProjectorConfig sessionId epoch errorCode w.now
    w.db).toOption.getD w.db
  { w with db }.leave sessionId false

/-- The offsets and the head of the session are read, where anyone waits for it. -/
def resolve (resolver : Resolver) (sessionId : SessionId) : LoopWorld :=
  if w.waiters sessionId = [] then w.resolved sessionId resolver
  else
    w.goTo (.settling resolver sessionId (w.db.processed sessionId) (w.db.liveVersion sessionId)
      (((w.db.heads.get sessionId).map HeadRecord.sourceFrontier).getD []))

/-- A worker goes back to the queue, unless an exception is on its way: that ends it. -/
def reschedule (sessionId : SessionId) (escaped : Bool) : LoopWorld :=
  let scheduled := w.scheduleIfReady cfg sessionId false
  { scheduled with idle := if escaped = true then w.idle else w.idle + 1, stage := none }

def proceed : Stage → Option LoopWorld
  | .freezing ids left frozen => some (w.freeze ids frozen left)
  | .admitting ids left found => some (w.admitAll cfg ids found left)
  | .finishing left finished found => some (w.finishNext cfg finished found left)
  | .querying admissions => some (w.query cfg admissions)
  | .observing admissions records finalizing => some (w.observe admissions records finalizing)
  | .skipping reader snapshots invalid left => w.skip cfg reader snapshots invalid left
  | .buffering bufferer snapshots left read since =>
    some (w.buffer cfg bufferer snapshots read since left)
  | .scheduling left since => some (w.schedule cfg since left)
  | .registering sessionId targetRevisions snapshots =>
    some (w.requireTarget cfg sessionId targetRevisions snapshots)
  | .forcing sessionId => some (w.scheduleIfReady cfg sessionId true).pause
  | .requiring sessionId epoch =>
    if (w.db.admission cfg.policy sessionId).Permits epoch then
      some (w.goTo (.reading sessionId epoch))
    else some (w.deny sessionId epoch)
  | .reading sessionId epoch => some (w.read cfg sessionId epoch)
  | .extracting job => w.hand cfg job
  | .judging sessionId epoch errorCode => some (w.judge cfg sessionId epoch errorCode)
  | .recording sessionId epoch errorCode => some (w.record cfg sessionId epoch errorCode)
  | .draining sessionId epoch =>
    some ({ w with db := w.db.finishIfDrained cfg.policy sessionId epoch }.leave sessionId false)
  | .rescheduling sessionId escaped => some (w.reschedule cfg sessionId escaped)
  | .resolving resolver sessionId => some (w.resolve resolver sessionId)
  | .settling resolver sessionId processed stateVersion sourceFrontier =>
    some ((w.settleWaiters sessionId (w.db.admission cfg.policy sessionId) processed stateVersion
      sourceFrontier).resolved sessionId resolver)

/-- The next call of the turn raises something that is no denial of the policy. A poll is over, a
request fails, and a batch is judged; what raises behind the commit of a batch, or while a batch
is judged, escapes, and what raises while its session is scheduled ends the worker at once. -/
def raise (errorCode : String) : Stage → LoopWorld
  | .requiring s epoch | .reading s epoch => w.goTo (.judging s epoch errorCode)
  | .extracting job => w.goTo (.judging job.sessionId job.epoch errorCode)
  | .recording s _ _ => w.leave s false
  | .judging s _ _ | .draining s _ | .resolving (.worker _) s | .settling (.worker _) s _ _ _ =>
    w.leave s true
  | _ => w.pause

def betweenTurns (after : Option LoopWorld) : Option LoopWorld :=
  if w.running = true ∧ w.stage.isNone = true then after else none

def start : Option LoopWorld :=
  if w.running = true ∨ w.stage.isSome = true then none
  else some { w with running := true, idle := cfg.concurrency }

/-- The poll and the workers are cancelled, and everything in memory goes but the cursor. -/
def stop : LoopWorld :=
  { w with
    running := false
    idle := 0
    jobs := []
    buffers := ∅
    inflight := fun _ => false
    scheduled := fun _ => none
    seen := fun _ => none
    waiters := fun _ => []
    settlements := w.settleAll ((w.targets.filter fun target =>
      target ∈ w.waiters target.sessionId).map fun target => (target, .cancelled)) }

/-- A poll begins with the sessions whose analysis runs; one that is not found ends it. -/
def poll : LoopWorld :=
  let ids := w.db.eligibleSessions cfg.policy
  if ∀ s ∈ ids, (w.db.legacySessions.get s).isSome = true then w.goTo (.freezing ids ids [])
  else w

/-- The captions of a session, and those that are left of them, are read for a caller. -/
def request (sessionId : SessionId) : Option LoopWorld :=
  let admission := w.db.admission cfg.policy sessionId
  if admission.allowed = true ∧ (w.db.legacySessions.get sessionId).isSome = true then
    let records := (w.db.finals sessionId).filter fun record =>
      admission.PermitsSegment record.segmentId record.revision
    some (w.goTo (validate (.request sessionId admission (recordRevisions records))
      (records.filter fun record => w.db.PendingFinal record)))
  else none

/-- A worker takes a session from the queue; one that is under way or has nothing left is let go. -/
def take (sessionId : SessionId) : Option LoopWorld :=
  if 0 < w.idle ∧ (w.scheduled sessionId).isSome = true then
    let taken := { w with scheduled := Function.update w.scheduled sessionId none }
    match w.buffers.lookup sessionId with
    | none => some taken
    | some b =>
      if w.inflight sessionId = true ∨ b.segments = [] then some taken
      else
        let busy :=
          { taken with
            idle := w.idle - 1
            inflight := Function.update w.inflight sessionId true }
        match b.analysisEpoch with
        | none => some ((busy.discardBuffer sessionId none).leave sessionId false)
        | some epoch => some (busy.goTo (.requiring sessionId epoch))
  else none

def resume (sessionId : SessionId) (stage : BatchJob → Option Stage) : Option LoopWorld :=
  (w.jobs.find? fun job => job.sessionId = sessionId).bind fun job =>
    (stage job).map fun stage =>
      { w with
        jobs := w.jobs.eraseP fun job => job.sessionId = sessionId
        stage := some stage }

def next : LoopAction → Option LoopWorld
  | .host action =>
    if action.ofHost = true then
      (World.next { db := w.db } cfg.toProjectorConfig action).map fun v => { w with db := v.db }
    else none
  | .caption caption => some { w with db := upsertFinal caption w.db }
  | .ticks now loopTime =>
    if w.now ≤ now ∧ w.loopTime ≤ loopTime then some { w with now, loopTime } else none
  | .starts => w.start cfg
  | .stops => w.betweenTurns (some w.stop)
  | .polls => w.betweenTurns (some (w.poll cfg))
  | .requests s => w.betweenTurns (w.request cfg s)
  | .takes s => w.betweenTurns (w.take s)
  | .answers s payload => w.betweenTurns (w.resume s fun job => job.answered payload)
  | .fails s errorCode =>
    w.betweenTurns (w.resume s fun job => some (.judging job.sessionId job.epoch errorCode))
  | .proceeds => w.stage.bind (w.proceed cfg)
  | .commits =>
    match w.stage with
    | some (.extracting job) => w.commit cfg job
    | _ => none
  | .raises errorCode => w.stage.map (w.raise errorCode)

def Steps (cfg : LoopConfig) (w : LoopWorld) (a : LoopAction) (w' : LoopWorld) : Prop :=
  w.next cfg a = some w'

end LoopWorld

end Meeting
end Matinier
