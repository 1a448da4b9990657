import Matinier.Meeting.Projector

/-!
# What the projector's transactions write

Whatever a transaction of the projector commits, it commits under the present epoch of the
session, whose analysis runs. Offsets only advance, and only to revisions that were asked for.
-/

namespace Matinier
namespace Meeting

open Assistant

/-- The revision of a caption that a table of offsets has. -/
def processedIn (offsets : Table OffsetRecord) (sessionId : SessionId) (segmentId : SegmentId) :
    Option ℕ :=
  (offsets.get (sessionId, segmentId)).map OffsetRecord.processedRevision

theorem ProjectionDb.processed_eq (db : ProjectionDb) (sessionId : SessionId)
    (segmentId : SegmentId) :
    db.processed sessionId segmentId = processedIn db.offsets sessionId segmentId := rfl

/-- One offset is written, at the later of its old revision and the new one. -/
theorem advanceOffset_ok {sessionId : SessionId} {segmentId : SegmentId} {revision : ℕ}
    {now : Instant} {offsets offsets' : Table OffsetRecord}
    (h : advanceOffset sessionId segmentId revision now offsets = .ok offsets') :
    1 ≤ revision ∧ processedIn offsets' sessionId segmentId =
        some (max ((processedIn offsets sessionId segmentId).getD 0) revision) ∧
      ∀ s g, (s, g) ≠ (sessionId, segmentId) →
        processedIn offsets' s g = processedIn offsets s g := by
  simp only [advanceOffset, bind_eq_ok, ensure_eq_ok] at h
  obtain ⟨_, hpositive, h⟩ := h
  refine ⟨hpositive, ?_⟩
  cases hold : offsets.get (sessionId, segmentId) with
  | none =>
    simp only [hold, require_eq_ok] at h
    have hwrites := Table.Writes.of_insert h
    refine ⟨?_, fun s g hne => ?_⟩
    · have hget : offsets'.get (sessionId, segmentId) = _ := hwrites.1
      simp [processedIn, hget, hold]
    · rw [processedIn, processedIn, hwrites.2 (s, g) hne]
  | some existing =>
    simp only [hold] at h
    split_ifs at h with hle
    · cases h
      exact ⟨by simp [processedIn, hold, Nat.max_eq_left hle], fun _ _ _ => rfl⟩
    · cases h
      have hkey : (existing.sessionId, existing.segmentId) = (sessionId, segmentId) :=
        Table.key_of_get hold
      let advanced : OffsetRecord :=
        { existing with processedRevision := revision, processedAt := now }
      have hrow : offsets.get (Row.key advanced) = some existing := by
        rw [show Row.key advanced = (sessionId, segmentId) from hkey]
        exact hold
      have hwrites : Table.Writes offsets (offsets.set advanced) advanced :=
        .of_set hrow ⟨rfl, Or.inl rfl⟩
      refine ⟨?_, fun s g hne => ?_⟩
      · have hget : (offsets.set advanced).get (sessionId, segmentId) = some advanced := by
          rw [← hkey]
          exact hwrites.1
        have hlt : existing.processedRevision ≤ revision := Nat.le_of_lt (Nat.lt_of_not_le hle)
        simp [processedIn, hget, hold, advanced, Nat.max_eq_right hlt]
      · have hother : (s, g) ≠ Row.key advanced :=
          hne.trans_eq (show Row.key advanced = (sessionId, segmentId) from hkey).symm
        rw [processedIn, processedIn, hwrites.2 (s, g) hother]

/-- Offsets of a session advanced, each to its old revision or to one of the entries. -/
structure Advanced (sessionId : SessionId) (entries : List (SegmentId × ℕ))
    (offsets offsets' : Table OffsetRecord) : Prop where
  positive : ∀ entry ∈ entries, 1 ≤ entry.2
  others : ∀ s g, s ≠ sessionId → processedIn offsets' s g = processedIn offsets s g
  source : ∀ g r, processedIn offsets' sessionId g = some r →
    processedIn offsets sessionId g = some r ∨ (g, r) ∈ entries
  reached : ∀ entry ∈ entries, ∃ r, processedIn offsets' sessionId entry.1 = some r ∧ entry.2 ≤ r
  grows : ∀ g r, processedIn offsets sessionId g = some r →
    ∃ r', processedIn offsets' sessionId g = some r' ∧ r ≤ r'

theorem advanceOffsets_ok {sessionId : SessionId} {now : Instant}
    {entries : List (SegmentId × ℕ)} {offsets offsets' : Table OffsetRecord}
    (h : advanceOffsets sessionId now entries offsets = .ok offsets') :
    Advanced sessionId entries offsets offsets' := by
  induction entries generalizing offsets with
  | nil =>
    cases h
    exact ⟨by simp, fun _ _ _ => rfl, fun _ _ h => Or.inl h, by simp, fun _ r h =>
      ⟨r, h, Nat.le_refl r⟩⟩
  | cons entry rest ih =>
    simp only [advanceOffsets, List.foldlM_cons, bind_eq_ok] at h
    obtain ⟨first, hfirst, hrest⟩ := h
    obtain ⟨hpositive, hwritten, hothers⟩ := advanceOffset_ok hfirst
    have hlater := ih hrest
    -- What the first advance does to each caption of the session.
    have hgrows : ∀ g r, processedIn offsets sessionId g = some r →
        ∃ r', processedIn first sessionId g = some r' ∧ r ≤ r' := by
      intro g r hr
      by_cases hg : g = entry.1
      · subst hg
        exact ⟨_, hwritten, by simp [hr]⟩
      · exact ⟨r, (hothers sessionId g (by simp [hg])).trans hr, Nat.le_refl r⟩
    constructor
    · intro e he
      rcases List.mem_cons.mp he with rfl | he
      · exact hpositive
      · exact hlater.positive e he
    · intro s g hs
      exact (hlater.others s g hs).trans (hothers s g (by simp [hs]))
    · intro g r hr
      rcases hlater.source g r hr with hr | hmem
      · by_cases hg : g = entry.1
        · subst hg
          rw [hwritten] at hr
          cases hold : processedIn offsets sessionId entry.1 with
          | none =>
            have hsame : entry.2 = r := by simpa [hold] using hr
            exact Or.inr (hsame ▸ List.mem_cons_self)
          | some old =>
            rw [hold] at hr
            rcases Nat.le_total old entry.2 with hle | hle
            · have hsame : entry.2 = r := by simpa [Nat.max_eq_right hle] using hr
              exact Or.inr (hsame ▸ List.mem_cons_self)
            · have hsame : old = r := by simpa [Nat.max_eq_left hle] using hr
              exact Or.inl (by rw [hsame])
        · exact Or.inl ((hothers sessionId g (by simp [hg])).symm.trans hr)
      · exact Or.inr (List.mem_cons_of_mem _ hmem)
    · intro e he
      rcases List.mem_cons.mp he with rfl | he
      · obtain ⟨r, hr, hle⟩ := hlater.grows e.1 _ hwritten
        exact ⟨r, hr, Nat.le_trans (Nat.le_max_right _ _) hle⟩
      · exact hlater.reached e he
    · intro g r hr
      obtain ⟨r', hr', hle⟩ := hgrows g r hr
      obtain ⟨r'', hr'', hle'⟩ := hlater.grows g r' hr'
      exact ⟨r'', hr'', Nat.le_trans hle hle'⟩

theorem advanceOffsets_returns {sessionId : SessionId} (now : Instant)
    {entries : List (SegmentId × ℕ)} (hpositive : ∀ entry ∈ entries, 1 ≤ entry.2)
    (offsets : Table OffsetRecord) :
    ∃ offsets', advanceOffsets sessionId now entries offsets = .ok offsets' := by
  have hstep : ∀ (offsets : Table OffsetRecord) (entry : SegmentId × ℕ), entry ∈ entries → True →
      ∃ offsets', advanceOffset sessionId entry.1 entry.2 now offsets = .ok offsets' ∧ True := by
    intro offsets entry hentry _
    simp only [advanceOffset, and_true, bind_eq_ok, ensure_eq_ok]
    cases hold : offsets.get (sessionId, entry.1) with
    | none =>
      have hfree : offsets.Free (⟨sessionId, entry.1, entry.2, now⟩ : OffsetRecord) :=
        fun other hother => ⟨Table.get_eq_none.mp hold other hother, Or.inl rfl⟩
      obtain ⟨offsets', hinsert⟩ := Table.insert_isSome hfree
      exact ⟨offsets', (), hpositive entry hentry, by simpa using hinsert⟩
    | some existing =>
      by_cases hle : entry.2 ≤ existing.processedRevision
      · exact ⟨offsets, (), hpositive entry hentry, by simp [hle]⟩
      · exact ⟨_, (), hpositive entry hentry, by simp only [if_neg hle]; rfl⟩
  obtain ⟨offsets', h, -⟩ := foldlM_returns hstep trivial
  exact ⟨offsets', h⟩

/-- The session's analysis runs under the epoch, and the revisions are of its frontier. -/
def RunsWithin (db : ProjectionDb) (sessionId : SessionId) (epoch : ℕ)
    (entries : List (SegmentId × ℕ)) : Prop :=
  ∃ row, db.meeting.sessions.get sessionId = some row ∧ row.analysisEpoch = epoch ∧
    (row.analysisState = .active ∨ row.analysisState = .draining) ∧
    ∀ entry ∈ entries, WithinFrontier row.terminalFrontier entry.1 entry.2

section Transactions

variable {cfg : ProjectorConfig} {db db' : ProjectionDb} {sessionId : SessionId} {epoch : ℕ}
  {now : Instant}

structure Committed (cfg : ProjectorConfig) (p : Projection) (epoch : ℕ)
    (db db' : ProjectionDb) : Prop where
  runs : RunsWithin db p.sessionId epoch (batchRevisions p.batch)
  version : db.liveVersion p.sessionId = p.expectedVersion
  current : ∀ segment ∈ p.batch,
    currentRevision db.segments p.sessionId segment.segmentId = some segment.revision
  merged : ∃ shown next, mergeMeetingState cfg.merge p.current p.delta shown
      (batchRevisions p.batch) (p.expectedVersion + 1) = .ok next ∧
    db'.liveState p.sessionId = next
  versions : db'.liveVersion p.sessionId = p.expectedVersion + 1
  offsets : Advanced p.sessionId (batchRevisions p.batch) db.offsets db'.offsets
  heads : ∀ s, s ≠ p.sessionId → db'.heads.get s = db.heads.get s
  meeting : db'.meeting = db.meeting
  segments : db'.segments = db.segments

theorem ProjectionDb.replaceHead_ok {head : HeadRecord} {expectedVersion : ℕ}
    (h : db.replaceHead head expectedVersion = .ok db') :
    ∃ heads, db' = { db with heads } ∧
      heads.get head.sessionId = some { head with version := expectedVersion + 1 } ∧
      ∀ s, s ≠ head.sessionId → heads.get s = db.heads.get s := by
  unfold replaceHead at h
  cases hold : db.heads.get head.sessionId with
  | none =>
    simp only [hold, bind_eq_ok, ensure_eq_ok, require_eq_ok, pure_eq_ok] at h
    obtain ⟨_, hzero, heads, hinsert, rfl⟩ := h
    have hwrites := Table.Writes.of_insert hinsert
    refine ⟨heads, rfl, ?_, hwrites.2⟩
    rw [hzero]
    exact hwrites.1
  | some existing =>
    simp only [hold, bind_eq_ok, ensure_eq_ok, pure_eq_ok] at h
    obtain ⟨_, -, rfl⟩ := h
    let replaced : HeadRecord := { head with version := expectedVersion + 1 }
    have hrow : db.heads.get (Row.key replaced) = some existing := hold
    have hwrites : Table.Writes db.heads (db.heads.set replaced) replaced :=
      .of_set hrow ⟨Table.key_of_get hrow, Or.inl rfl⟩
    exact ⟨_, rfl, hwrites.1, hwrites.2⟩

theorem commitProjection_ok {p : Projection} (h : commitProjection cfg p epoch now db = .ok db') :
    Committed cfg p epoch db db' := by
  simp only [commitProjection, applyCandidates, validateCurrentEvidence, bind_eq_ok, ensure_eq_ok,
    Prod.exists] at h
  obtain ⟨admission, hfence, _, hpermitted, _, hversion, shown, candidates,
    ⟨_, ⟨_, -, hcurrent⟩, -⟩, next, hmerge, offsets, hadvance, hreplace⟩ := h
  obtain ⟨row, hrow, hepoch, hruns, hfrontier⟩ := ProjectionDb.fence_ok hfence
  obtain ⟨heads, rfl, hhead, hothers⟩ := ProjectionDb.replaceHead_ok hreplace
  have hhead : heads.get p.sessionId = _ := hhead
  refine
    { runs := ⟨row, hrow, hepoch, hruns, fun entry hentry => ?_⟩
      version := hversion
      current := hcurrent
      merged := ⟨shown, next, hmerge, ?_⟩
      versions := ?_
      offsets := advanceOffsets_ok hadvance
      heads := hothers
      meeting := rfl
      segments := rfl }
  · obtain ⟨segment, hsegment, rfl⟩ := List.mem_map.mp hentry
    rw [← hfrontier]
    exact (hpermitted segment hsegment).2
  · simp [ProjectionDb.liveState, hhead, projectedHead]
  · simp [ProjectionDb.liveVersion, hhead]

/-- What skipping captions does: the offsets of those that are permitted advance. -/
structure Skipped (cfg : ProjectorConfig) (sessionId : SessionId) (epoch : ℕ)
    (records : List SegmentRecord) (db db' : ProjectionDb) : Prop where
  skips : ∃ admission, db.fence cfg.policy sessionId epoch = .ok admission ∧
    Advanced sessionId (recordRevisions (records.filter fun record =>
        record.sessionId = sessionId ∧
          admission.PermitsSegment record.segmentId record.revision))
      db.offsets db'.offsets
  rest : db' = { db with offsets := db'.offsets }

theorem skipInvalid_ok {records : List SegmentRecord}
    (h : skipInvalid cfg sessionId epoch records now db = .ok db') :
    Skipped cfg sessionId epoch records db db' := by
  simp only [skipInvalid, bind_eq_ok, pure_eq_ok] at h
  obtain ⟨admission, hfence, offsets, hadvance, rfl⟩ := h
  exact ⟨⟨admission, hfence, advanceOffsets_ok hadvance⟩, rfl⟩

/-- What recording a failure does: nothing to any state or version. -/
structure FailureRecorded (sessionId : SessionId) (epoch : ℕ) (db db' : ProjectionDb) : Prop where
  runs : RunsWithin db sessionId epoch []
  states : ∀ s, db'.liveState s = db.liveState s
  versions : ∀ s, db'.liveVersion s = db.liveVersion s
  others : ∀ s, s ≠ sessionId → db'.heads.get s = db.heads.get s
  rest : db' = { db with heads := db'.heads }

/-- A head that is written with the state and the version of its session changes neither of any. -/
theorem live_of_writes {heads : Table HeadRecord} {head : HeadRecord}
    (h : Table.Writes db.heads heads head) (hstate : head.state = db.liveState head.sessionId)
    (hversion : head.version = db.liveVersion head.sessionId) :
    (∀ s, { db with heads }.liveState s = db.liveState s) ∧
      ∀ s, { db with heads }.liveVersion s = db.liveVersion s := by
  have hhead : heads.get head.sessionId = some head := h.1
  constructor
  · intro s
    by_cases hs : s = head.sessionId
    · rw [hs, ← hstate]
      simp [ProjectionDb.liveState, hhead]
    · rw [ProjectionDb.liveState, ProjectionDb.liveState, h.2 s hs]
  · intro s
    by_cases hs : s = head.sessionId
    · rw [hs, ← hversion]
      simp [ProjectionDb.liveVersion, hhead]
    · rw [ProjectionDb.liveVersion, ProjectionDb.liveVersion, h.2 s hs]

theorem recordFailure_ok {errorCode : String}
    (h : recordFailure cfg sessionId epoch errorCode now db = .ok db') :
    FailureRecorded sessionId epoch db db' := by
  simp only [recordFailure, bind_eq_ok, require_eq_ok, pure_eq_ok] at h
  obtain ⟨admission, hfence, heads, hput, rfl⟩ := h
  obtain ⟨row, hrow, hepoch, hruns, -⟩ := ProjectionDb.fence_ok hfence
  have hwrites := Table.Writes.of_put hput fun old hold =>
    ⟨Table.key_of_get hold, Or.inl rfl⟩
  have hkey : ((db.heads.get sessionId).getD (initialHead sessionId)).sessionId = sessionId := by
    cases hold : db.heads.get sessionId with
    | none => rfl
    | some existing => exact Table.key_of_get hold
  obtain ⟨hstates, hversions⟩ : (∀ s, { db with heads }.liveState s = db.liveState s) ∧
      ∀ s, { db with heads }.liveVersion s = db.liveVersion s := by
    refine live_of_writes hwrites ?_ ?_
    all_goals
      cases hold : db.heads.get sessionId with
      | none => simp [HeadRecord.failed, initialHead, ProjectionDb.liveState,
          ProjectionDb.liveVersion, hold]
      | some existing =>
        have hkey : existing.sessionId = sessionId := Table.key_of_get hold
        simp [HeadRecord.failed, ProjectionDb.liveState, ProjectionDb.liveVersion, hkey, hold]
  exact ⟨⟨row, hrow, hepoch, hruns, by simp⟩, hstates, hversions,
    fun s hs => hwrites.2 s (hs.trans_eq hkey.symm), rfl⟩

end Transactions

end Meeting
end Matinier
