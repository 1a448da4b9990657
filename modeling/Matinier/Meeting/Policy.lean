import Matinier.Assistant.Plugin.Operations
import Matinier.Meeting.Merge

/-!
# The analysis policy

The control row of a session says whether its meeting is analysed and under which epoch. When
the session is over, the captions that are still to be projected are frozen in the row: the
analysis drains this frontier and is then complete. A projection holds the epoch it was
admitted under, and fences every transaction of its own against it.
-/

namespace Matinier
namespace Meeting

open Assistant

inductive SessionStatus where
  | created
  | starting
  | active
  | running
  | finalizing
  | completed
  | cancelled
  | failed
  | other
  deriving DecidableEq, Repr

def SessionStatus.Live (status : SessionStatus) : Prop :=
  status = .created ∨ status = .starting ∨ status = .active ∨ status = .running

instance (status : SessionStatus) : Decidable status.Live :=
  inferInstanceAs (Decidable (_ ∨ _))

def SessionStatus.Terminal (status : SessionStatus) : Prop :=
  status = .completed ∨ status = .cancelled ∨ status = .failed

instance (status : SessionStatus) : Decidable status.Terminal :=
  inferInstanceAs (Decidable (_ ∨ _))

structure SessionRecord where
  id : SessionId
  status : SessionStatus
  deriving DecidableEq

structure OffsetRecord where
  sessionId : SessionId
  segmentId : SegmentId
  processedRevision : ℕ
  processedAt : Instant

inductive HeadStatus where
  | ready
  | lagging
  | stale
  deriving DecidableEq, Repr

structure HeadRecord where
  sessionId : SessionId
  version : ℕ
  status : HeadStatus
  state : MeetingState
  sourceFrontier : List (SegmentId × ℕ) := []
  latestFinalUpdatedAt : Option Instant
  projectedThrough : Option Instant := none
  lagMs : ℕ
  pendingSegmentCount : ℕ
  lastSuccessAt : Option Instant := none
  lastErrorAt : Option Instant := none
  lastErrorCode : Option String := none

instance : Row SessionRecord SessionId Empty where
  key := SessionRecord.id
  unique _ := none

instance : Row SegmentRecord (SessionId × SegmentId) Empty where
  key s := (s.sessionId, s.segmentId)
  unique _ := none

instance : Row OffsetRecord (SessionId × SegmentId) Empty where
  key o := (o.sessionId, o.segmentId)
  unique _ := none

instance : Row HeadRecord SessionId Empty where
  key := HeadRecord.sessionId
  unique _ := none

instance : Row ActionCandidateRecord String Empty where
  key := ActionCandidateRecord.id
  unique _ := none

/-- The tables a projection reads and writes, around those of the meeting plugin. -/
structure ProjectionDb where
  meeting : MeetingDb := {}
  legacySessions : Table SessionRecord := .empty
  segments : Table SegmentRecord := .empty
  offsets : Table OffsetRecord := .empty
  heads : Table HeadRecord := .empty
  candidates : Table ActionCandidateRecord := .empty
  /-- The runtime of this version reports that it is ready or degraded. -/
  runtimeReady : String → Bool := fun _ => true

structure PolicyConfig where
  enabled : Bool := true
  requireRuntimeReady : Bool := false

structure AnalysisAdmission where
  allowed : Bool := false
  analysisEpoch : Option ℕ := none
  authorityEpoch : Option ℕ := none
  state : AnalysisState := .inactive
  terminalFrontier : Option (List (SegmentId × ℕ)) := none

def AnalysisAdmission.Permits (admission : AnalysisAdmission) (epoch : ℕ) : Prop :=
  admission.allowed = true ∧ admission.analysisEpoch = some epoch

instance (admission : AnalysisAdmission) (epoch : ℕ) : Decidable (admission.Permits epoch) :=
  inferInstanceAs (Decidable (_ ∧ _))

/-- The caption is at its revision in the frontier, where there is one. -/
def WithinFrontier (frontier : Option (List (SegmentId × ℕ))) (segmentId : SegmentId)
    (revision : ℕ) : Prop :=
  ∀ frozen ∈ frontier, revisionIn frozen segmentId = some revision

instance (frontier : Option (List (SegmentId × ℕ))) (segmentId : SegmentId) (revision : ℕ) :
    Decidable (WithinFrontier frontier segmentId revision) :=
  inferInstanceAs (Decidable (∀ frozen ∈ frontier, _))

def AnalysisAdmission.PermitsSegment (admission : AnalysisAdmission) (segmentId : SegmentId)
    (revision : ℕ) : Prop :=
  admission.allowed = true ∧ WithinFrontier admission.terminalFrontier segmentId revision

instance (admission : AnalysisAdmission) (segmentId : SegmentId) (revision : ℕ) :
    Decidable (admission.PermitsSegment segmentId revision) :=
  inferInstanceAs (Decidable (_ ∧ _))

namespace ProjectionDb

variable (cfg : PolicyConfig) (db : ProjectionDb)

/-- The session's analysis runs, for a plugin that is bound, permitted and ready. -/
def Eligible (row : PluginSessionRecord) : Prop :=
  row.pluginId = meetingPluginId ∧
    (row.analysisState = .active ∨ row.analysisState = .draining) ∧
    db.meeting.host.bound row.mediaSessionId row.pluginVersion = true ∧
    "meeting.state.query" ∈ db.meeting.host.permissions meetingPluginId row.pluginVersion ∧
    db.meeting.host.legacySession row.mediaSessionId = some row.legacySessionId ∧
    (cfg.requireRuntimeReady = true → db.runtimeReady row.pluginVersion = true)

instance (row : PluginSessionRecord) : Decidable (db.Eligible cfg row) :=
  inferInstanceAs (Decidable (_ ∧ _))

/-- A session that is over admits what is left to drain, and nothing else. -/
def SessionAdmits (row : PluginSessionRecord) : Prop :=
  ∃ legacy ∈ db.legacySessions.get row.legacySessionId,
    ¬ (legacy.status.Terminal ∧ row.analysisState ≠ .draining) ∧ legacy.status ≠ .other

instance (row : PluginSessionRecord) : Decidable (db.SessionAdmits row) :=
  inferInstanceAs (Decidable (∃ legacy ∈ db.legacySessions.get row.legacySessionId, _))

def admission (sessionId : SessionId) : AnalysisAdmission :=
  if cfg.enabled = true then
    match db.meeting.sessions.get sessionId with
    | none => {}
    | some row =>
      { allowed := db.Eligible cfg row ∧ db.SessionAdmits row
        analysisEpoch := some row.analysisEpoch
        authorityEpoch := some row.authorityEpoch
        state := row.analysisState
        terminalFrontier := row.terminalFrontier }
  else {}

/-- Whether the session's analysis runs under the epoch. -/
def Fenced (sessionId : SessionId) (epoch : ℕ) : Prop :=
  ∃ row ∈ db.meeting.sessions.get sessionId, row.analysisEpoch = epoch ∧ db.Eligible cfg row

instance (sessionId : SessionId) (epoch : ℕ) : Decidable (db.Fenced cfg sessionId epoch) :=
  inferInstanceAs (Decidable (∃ row ∈ db.meeting.sessions.get sessionId, _))

/-- Take the place of a writer under the epoch; the row of the session is touched and kept. -/
def fence (sessionId : SessionId) (epoch : ℕ) : Except Fault AnalysisAdmission := do
  ensure (cfg.enabled = true) (deny "meeting analysis is disabled")
  let admission := db.admission cfg sessionId
  ensure (db.Fenced cfg sessionId epoch ∧ admission.Permits epoch)
    (deny "meeting analysis authority has changed")
  return admission

/-- Start the analysis of a live session. -/
def activate (sessionId : SessionId) (mediaSessionId : MediaSessionId)
    (pluginVersion actorId : String) :
    Except Fault ProjectionDb := do
  ensure (cfg.enabled = true ∧ notBlank actorId = true ∧ actorId.length ≤ 255)
    (deny "meeting analysis is unavailable")
  let unavailable := deny "analysis requires a live Session and enabled authorized binding"
  let legacy ← require (db.legacySessions.get sessionId) unavailable
  ensure (legacy.status.Live ∧ db.meeting.host.bound mediaSessionId pluginVersion = true ∧
    "meeting.state.query" ∈ db.meeting.host.permissions meetingPluginId pluginVersion) unavailable
  let (row, meeting) ← db.meeting.ensureSession sessionId mediaSessionId pluginVersion
  return { db with meeting := meeting.activateAnalysis row }

def deactivate (sessionId : SessionId) : ProjectionDb :=
  { db with meeting := db.meeting.stopAnalysis sessionId }

def revoke (sessionId : SessionId) (now : Instant) : ProjectionDb :=
  { db with meeting := db.meeting.revokeAuthority sessionId now }

/-- The revisions of the final captions of a session. -/
def finalRevisions (sessionId : SessionId) : List (SegmentId × ℕ) :=
  (db.segments.select fun s => s.sessionId = sessionId ∧ s.status = .final).map fun s =>
    (s.segmentId, s.revision)

/-- Store the control row of a session over the one there is. -/
def setSession (row : PluginSessionRecord) : ProjectionDb :=
  { db with meeting := { db.meeting with sessions := db.meeting.sessions.set row } }

/-- Freeze a frontier that was read under the epoch, where the analysis is still active. -/
def freezeFrontier (sessionId : SessionId) (epoch : ℕ) (frontier : List (SegmentId × ℕ)) :
    ProjectionDb :=
  match db.meeting.sessions.get sessionId with
  | none => db
  | some row =>
    if row.analysisEpoch = epoch ∧ row.analysisState = .active then
      db.setSession { row with analysisState := .draining, terminalFrontier := some frontier }
    else db

/-- The revision of a caption that has been processed, where one has. -/
def processed (sessionId : SessionId) (segmentId : SegmentId) : Option ℕ :=
  (db.offsets.get (sessionId, segmentId)).map OffsetRecord.processedRevision

/-- Every caption of the frontier has been processed, at its revision or a later one. -/
def Drained (sessionId : SessionId) (frontier : List (SegmentId × ℕ)) : Prop :=
  ∀ entry ∈ frontier, entry.2 ≤ (db.processed sessionId entry.1).getD 0

instance (sessionId : SessionId) (frontier : List (SegmentId × ℕ)) :
    Decidable (db.Drained sessionId frontier) :=
  inferInstanceAs (Decidable (∀ entry ∈ frontier, _))

/-- The analysis drains under the epoch, and its frontier is drained. -/
def FinishReady (sessionId : SessionId) (epoch : ℕ) : Prop :=
  let admission := db.admission cfg sessionId
  admission.Permits epoch ∧ admission.state = .draining ∧
    db.Drained sessionId (admission.terminalFrontier.getD [])

instance (sessionId : SessionId) (epoch : ℕ) : Decidable (db.FinishReady cfg sessionId epoch) :=
  inferInstanceAs (Decidable (_ ∧ _))

/-- Complete an analysis that was found ready to be finished. -/
def finish (sessionId : SessionId) (epoch : ℕ) : Except Fault ProjectionDb := do
  let _ ← db.fence cfg sessionId epoch
  match db.meeting.sessions.get sessionId with
  | none => return db
  | some row =>
    if row.analysisEpoch = epoch then
      return db.setSession { row with analysisState := .completed }
    else return db

section Spec

variable {cfg : PolicyConfig} {db : ProjectionDb} {sessionId : SessionId} {epoch : ℕ}

/-- An admission that permits an epoch is of the row of the session, whose analysis runs. -/
theorem admission_permits (h : (db.admission cfg sessionId).Permits epoch) :
    ∃ row, db.meeting.sessions.get sessionId = some row ∧ row.analysisEpoch = epoch ∧
      db.Eligible cfg row ∧ (db.admission cfg sessionId).state = row.analysisState ∧
      (db.admission cfg sessionId).terminalFrontier = row.terminalFrontier := by
  unfold admission at h ⊢
  split_ifs at h ⊢
  · cases hrow : db.meeting.sessions.get sessionId with
    | none => simp [hrow, AnalysisAdmission.Permits] at h
    | some row =>
      simp only [hrow, AnalysisAdmission.Permits, decide_eq_true_eq, Option.some.injEq] at h
      exact ⟨row, rfl, h.2, h.1.1, rfl, rfl⟩
  · simp [AnalysisAdmission.Permits] at h

/-- Whoever passes the fence does so under the session's present epoch, while its analysis runs,
and is told its frontier. -/
theorem fence_ok {admission : AnalysisAdmission}
    (h : db.fence cfg sessionId epoch = .ok admission) :
    ∃ row, db.meeting.sessions.get sessionId = some row ∧ row.analysisEpoch = epoch ∧
      (row.analysisState = .active ∨ row.analysisState = .draining) ∧
      admission.terminalFrontier = row.terminalFrontier := by
  simp only [fence, bind_eq_ok, ensure_eq_ok, pure_eq_ok] at h
  obtain ⟨_, -, _, ⟨-, hpermits⟩, rfl⟩ := h
  obtain ⟨row, hrow, hepoch, heligible, -, hfrontier⟩ := admission_permits hpermits
  exact ⟨row, hrow, hepoch, heligible.2.1, hfrontier⟩

end Spec

end ProjectionDb

end Meeting
end Matinier
