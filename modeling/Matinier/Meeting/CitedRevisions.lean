import Matinier.Meeting.AnalysisFence

/-!
# Items cite processed revisions

A batch replaces the items that cite its captions, in the transaction that advances the offsets
of these captions; so every item cites its captions at the revisions that are processed.
Captions that cannot be projected only have their offsets advanced. Where an item cites an older
revision of such a caption it is left behind: this is the only step after which an item cites a
revision that is superseded.
-/

namespace Matinier
namespace Meeting

open Assistant

/-- Every item of a head cites its captions at the revisions that are processed. -/
def CitesProcessed (db : ProjectionDb) : Prop :=
  ∀ s head, db.heads.get s = some head → ∀ item ∈ head.state.items,
    ∀ g ∈ item.sourceSegmentIds, ∃ r, item.revision? g = some r ∧ db.processed s g = some r

/-- The caption is skipped at a revision that is not processed, and an item cites it. -/
def LeavesBehind (db : ProjectionDb) (sessionId : SessionId) (admission : AnalysisAdmission)
    (record : SegmentRecord) : Prop :=
  record.sessionId = sessionId ∧ admission.PermitsSegment record.segmentId record.revision ∧
    (db.processed sessionId record.segmentId).getD 0 < record.revision ∧
    ∃ item ∈ (db.liveState sessionId).items, record.segmentId ∈ item.sourceSegmentIds

instance (db : ProjectionDb) (sessionId : SessionId) (admission : AnalysisAdmission)
    (record : SegmentRecord) : Decidable (LeavesBehind db sessionId admission record) :=
  inferInstanceAs (Decidable (_ ∧ _))

/-- Captions are skipped, and one of them is cited at an older revision. -/
def SkipsCited (cfg : ProjectorConfig) (db : ProjectionDb) (sessionId : SessionId) (epoch : ℕ)
    (invalid : List SegmentRecord) : Prop :=
  ∃ admission ∈ (db.fence cfg.policy sessionId epoch).toOption,
    (∀ record ∈ invalid, record.sessionId = sessionId →
      admission.PermitsSegment record.segmentId record.revision → 1 ≤ record.revision) ∧
    ∃ record ∈ invalid, LeavesBehind db sessionId admission record

instance (cfg : ProjectorConfig) (db : ProjectionDb) (sessionId : SessionId) (epoch : ℕ)
    (invalid : List SegmentRecord) : Decidable (SkipsCited cfg db sessionId epoch invalid) :=
  inferInstanceAs (Decidable (∃ admission ∈ (db.fence cfg.policy sessionId epoch).toOption, _))

def Task.SkipsCited (cfg : ProjectorConfig) (db : ProjectionDb) : Task → Prop
  | .scanned _ sessionId epoch _ invalid => Meeting.SkipsCited cfg db sessionId epoch invalid
  | _ => False

instance (cfg : ProjectorConfig) (db : ProjectionDb) (task : Task) :
    Decidable (task.SkipsCited cfg db) :=
  match task with
  | .scanned _ sessionId epoch _ invalid =>
    inferInstanceAs (Decidable (SkipsCited cfg db sessionId epoch invalid))
  | .batch _ _ _ _ => isFalse id
  | .freezing _ _ _ => isFalse id
  | .finishing _ _ => isFalse id

def Clean (cfg : ProjectorConfig) (w : World) (a : Action) : Prop :=
  ∀ id ∈ a.task?, ∀ task ∈ w.tasks id, ¬ task.SkipsCited cfg w.db

instance (cfg : ProjectorConfig) (w : World) (a : Action) : Decidable (Clean cfg w a) :=
  inferInstanceAs (Decidable (∀ id ∈ a.task?, ∀ task ∈ w.tasks id, _))

section Cites

variable {cfg : ProjectorConfig} {db db' : ProjectionDb} {w w' : World} {a : Action}

theorem citesProcessed_iff : CitesProcessed db ↔ ∀ s, ∀ item ∈ (db.liveState s).items,
    ∀ g ∈ item.sourceSegmentIds, ∃ r, item.revision? g = some r ∧ db.processed s g = some r := by
  constructor
  · intro h s item hitem
    cases hhead : db.heads.get s with
    | none => simp [ProjectionDb.liveState, hhead, emptyState] at hitem
    | some head =>
      have hlive : db.liveState s = head.state := by simp [ProjectionDb.liveState, hhead]
      rw [hlive] at hitem
      exact h s head hhead item hitem
  · intro h s head hhead item hitem
    have hlive : db.liveState s = head.state := by simp [ProjectionDb.liveState, hhead]
    rw [← hlive] at hitem
    exact h s item hitem

theorem CitesProcessed.of_same (h : CitesProcessed db)
    (hstates : ∀ s, db'.liveState s = db.liveState s) (hoffsets : db'.offsets = db.offsets) :
    CitesProcessed db' := by
  rw [citesProcessed_iff] at h ⊢
  intro s item hitem g hg
  rw [hstates] at hitem
  obtain ⟨r, hr, hprocessed⟩ := h s item hitem g hg
  rw [ProjectionDb.processed_eq] at hprocessed ⊢
  rw [hoffsets]
  exact ⟨r, hr, hprocessed⟩

theorem Committed.processed {p : Projection} {epoch : ℕ} (h : Committed cfg p epoch db db')
    (hoffsets : ∀ g r, db.processed p.sessionId g = some r →
      ∃ segment, db.segments.get (p.sessionId, g) = some segment ∧ r ≤ segment.revision)
    {entry : SegmentId × ℕ} (hentry : entry ∈ batchRevisions p.batch) :
    db'.processed p.sessionId entry.1 = some entry.2 := by
  have hcurrent : ∀ entry ∈ batchRevisions p.batch,
      currentRevision db.segments p.sessionId entry.1 = some entry.2 := by
    intro entry hentry
    obtain ⟨segment, hsegment, rfl⟩ := List.mem_map.mp hentry
    exact h.current segment hsegment
  obtain ⟨r, hr, hle⟩ := h.offsets.reached entry hentry
  obtain ⟨segment, hsegment, hrevision⟩ := currentRevision_eq_some (hcurrent entry hentry)
  rcases h.offsets.source entry.1 r hr with hold | hmem
  · obtain ⟨found, hfound, hbound⟩ := hoffsets entry.1 r hold
    obtain rfl := Option.some.inj (hsegment.symm.trans hfound)
    rw [ProjectionDb.processed_eq, hr]
    exact congrArg some (by omega)
  · have hsame := (hcurrent entry hentry).symm.trans (hcurrent (entry.1, r) hmem)
    rw [ProjectionDb.processed_eq, hr]
    exact hsame.symm

/-- A commit keeps the citations: items are left that cite nothing of the batch, and new ones
cite the batch at its revisions. -/
theorem Committed.cites {projector : ProjectorId} {sessionId : SessionId} {epoch : ℕ}
    {batch : List ProjectionSegment} {current : MeetingState} {expectedVersion : ℕ}
    {answers : List MeetingStateDelta} {delta : MeetingStateDelta} {id : TaskId}
    (hw : w.Sound) (hcites : CitesProcessed w.db)
    (htask : w.tasks id = some
      (.batch projector sessionId epoch (.extracting batch current expectedVersion answers)))
    (h : Committed cfg ⟨current, expectedVersion, delta, batch⟩ epoch w.db db') :
    CitesProcessed db' := by
  obtain ⟨rfl, hcurrent⟩ := h.current_live (hw.tasks id _ htask)
  obtain ⟨shown, next, hmerge, hlive⟩ := h.merged
  obtain ⟨-, -, hitems⟩ := mergeMeetingState_items hmerge
  have hlive : db'.liveState current.sessionId = next := hlive
  have hconcerns : current.userConcerns = [] := hcurrent ▸ (hw.states current.sessionId).2
  rw [citesProcessed_iff] at hcites ⊢
  intro s item hitem g hg
  by_cases hs : s = current.sessionId
  · subst hs
    rw [hlive] at hitem
    rcases hitems item hitem with hconcern | ⟨hkept, hdisjoint⟩ | hnew
    · rw [hconcerns] at hconcern
      exact absurd hconcern List.not_mem_nil
    · rw [← hcurrent] at hkept
      obtain ⟨r, hr, hprocessed⟩ := hcites current.sessionId item hkept g hg
      refine ⟨r, hr, Eq.trans ?_ hprocessed⟩
      by_contra hne
      obtain ⟨-, r', -, hmem⟩ := h.offsets.changed hne
      exact hdisjoint g hg r' hmem
    · obtain ⟨r, hr, hrevision⟩ := hnew g hg
      exact ⟨r, hrevision, h.processed (fun g r => hw.offsets _ g r) (mem_of_revisionIn hr)⟩
  · have hsame : db'.liveState s = w.db.liveState s := by
      rw [ProjectionDb.liveState, ProjectionDb.liveState, h.heads s hs]
    rw [hsame] at hitem
    obtain ⟨r, hr, hprocessed⟩ := hcites s item hitem g hg
    exact ⟨r, hr, (h.offsets.others s g hs).trans hprocessed⟩

/-- Skipping captions keeps the citations where no caption is skipped that is cited. -/
theorem Skipped.cites {sessionId : SessionId} {epoch : ℕ} {invalid : List SegmentRecord}
    (hcites : CitesProcessed db) (hclean : ¬ SkipsCited cfg db sessionId epoch invalid)
    (h : Skipped cfg sessionId epoch invalid db db') : CitesProcessed db' := by
  obtain ⟨⟨admission, hfence, hadvanced⟩, hrest⟩ := h
  have hstates : ∀ s, db'.liveState s = db.liveState s := fun s => by rw [hrest]; rfl
  rw [citesProcessed_iff] at hcites ⊢
  intro s item hitem g hg
  rw [hstates] at hitem
  obtain ⟨r, hr, hprocessed⟩ := hcites s item hitem g hg
  refine ⟨r, hr, Eq.trans ?_ hprocessed⟩
  by_contra hne
  -- The offset of a caption that the item cites has advanced.
  obtain ⟨rfl, r', hr', hmem⟩ := hadvanced.changed hne
  obtain ⟨later, hlater, hle⟩ := hadvanced.grows g r hprocessed
  obtain rfl := Option.some.inj (hlater.symm.trans hr')
  obtain ⟨record, hrecord, heq⟩ := List.mem_map.mp hmem
  obtain ⟨rfl, rfl⟩ := Prod.mk.inj heq
  obtain ⟨hinvalid, hpermitted⟩ := List.mem_filter.mp hrecord
  obtain ⟨hsession, hpermits⟩ := of_decide_eq_true hpermitted
  refine hclean ⟨admission, toOption_eq_some.mpr hfence, fun other hother hosession hopermits => ?_,
    record, hinvalid, hsession, hpermits, ?_, item, hitem, hg⟩
  · have hmem : other ∈ invalid.filter fun record => record.sessionId = s ∧
        admission.PermitsSegment record.segmentId record.revision :=
      List.mem_filter.mpr ⟨hother, decide_eq_true ⟨hosession, hopermits⟩⟩
    exact hadvanced.positive _ (List.mem_map_of_mem hmem)
  · have hchanged : r ≠ record.revision := fun heq => hne (by
      rw [ProjectionDb.processed_eq, ProjectionDb.processed_eq] at *
      rw [hr', hprocessed, heq])
    rw [hprocessed]
    exact Nat.lt_of_le_of_ne hle hchanged

theorem Effect.cites {id? : Option TaskId} (h : Effect cfg w id? db') (hw : w.Sound)
    (hcites : CitesProcessed w.db)
    (hclean : ∀ id ∈ id?, ∀ task ∈ w.tasks id, ¬ task.SkipsCited cfg w.db) :
    CitesProcessed db' := by
  cases h with
  | control => exact hcites.of_same (fun _ => rfl) rfl
  | caption caption =>
    obtain ⟨segments, heq, -⟩ := upsertFinal_segments caption w.db
    rw [heq]
    exact hcites.of_same (fun _ => rfl) rfl
  | @task id task _ htask heffect =>
    cases heffect with
    | nothing => exact hcites
    | froze => exact hcites.of_same (fun _ => rfl) rfl
    | finished => exact hcites.of_same (fun _ => rfl) rfl
    | recorded h => exact hcites.of_same h.states (by rw [h.rest])
    | skipped h => exact h.cites hcites (hclean id rfl _ htask)
    | committed _ h => exact h.cites hw hcites htask

theorem SkipsCited.breaks {sessionId : SessionId} {epoch : ℕ} {invalid : List SegmentRecord}
    (hcites : CitesProcessed db) (h : SkipsCited cfg db sessionId epoch invalid) (now : Instant) :
    ∃ db', skipInvalid cfg sessionId epoch invalid now db = .ok db' ∧ ¬ CitesProcessed db' := by
  obtain ⟨admission, hfence, hpositive, record, hrecord, hsession, hpermits, hlt, item, hitem,
    hcited⟩ := h
  have hfence := toOption_eq_some.mp hfence
  have hentries : ∀ entry ∈ recordRevisions (invalid.filter fun record =>
      record.sessionId = sessionId ∧ admission.PermitsSegment record.segmentId record.revision),
      1 ≤ entry.2 := by
    intro entry hentry
    obtain ⟨other, hother, rfl⟩ := List.mem_map.mp hentry
    obtain ⟨hmem, hpermitted⟩ := List.mem_filter.mp hother
    obtain ⟨hosession, hopermits⟩ := of_decide_eq_true hpermitted
    exact hpositive other hmem hosession hopermits
  obtain ⟨offsets, hadvance⟩ := advanceOffsets_returns now hentries db.offsets
  have hskip : skipInvalid cfg sessionId epoch invalid now db = .ok { db with offsets } := by
    simp only [skipInvalid, bind_eq_ok, pure_eq_ok]
    exact ⟨admission, hfence, offsets, hadvance, rfl⟩
  refine ⟨{ db with offsets }, hskip, fun hafter => ?_⟩
  rw [citesProcessed_iff] at hcites hafter
  obtain ⟨r, hr, hprocessed⟩ := hcites sessionId item hitem record.segmentId hcited
  obtain ⟨r', hr', hprocessed'⟩ := hafter sessionId item hitem record.segmentId hcited
  obtain rfl := Option.some.inj (hr.symm.trans hr')
  have hmem : record ∈ invalid.filter fun record => record.sessionId = sessionId ∧
      admission.PermitsSegment record.segmentId record.revision :=
    List.mem_filter.mpr ⟨hrecord, decide_eq_true ⟨hsession, hpermits⟩⟩
  obtain ⟨reached, hreached, hle⟩ :=
    (advanceOffsets_ok hadvance).reached _ (List.mem_map_of_mem hmem)
  have hsame : r = reached := Option.some.inj (hprocessed'.symm.trans hreached)
  rw [hprocessed, Option.getD_some] at hlt
  omega

theorem breaks_of_not_clean (hcites : CitesProcessed w.db) (hclean : ¬ Clean cfg w a)
    (h : World.Steps cfg w a w') : ¬ CitesProcessed w'.db := by
  simp only [Clean, not_forall, not_not] at hclean
  obtain ⟨id, ha, task, htask, hskips⟩ := hclean
  obtain ⟨found, hfound, hstep⟩ := next_task ha h
  obtain rfl := Option.some.inj (htask.symm.trans hfound)
  cases task with
  | scanned projector sessionId epoch snapshots invalid =>
    have hskips : SkipsCited cfg w.db sessionId epoch invalid := hskips
    cases a with
    | skip _ now =>
      obtain ⟨db, hskip, hbroken⟩ := hskips.breaks hcites now
      simp only [World.taskStep, hskip, Option.some.injEq] at hstep
      rw [← hstep]
      exact hbroken
    | buffer _ =>
      obtain ⟨_, -, -, record, hrecord, -⟩ := hskips
      cases invalid with
      | nil => exact absurd hrecord List.not_mem_nil
      | cons => cases hstep
    | _ => cases hstep
  | _ => exact False.elim hskips

/-- In every run whose steps are clean, each item of a head cites its captions at the revisions
that are processed; the steps that are clean are exactly those that keep this. -/
theorem citesProcessed_iff_clean {as : List Action} (hfresh : w.Fresh)
    (hrun : Run (Under (Clean cfg) (World.Steps cfg)) w as w') :
    CitesProcessed w'.db ∧
      ∀ a w'', World.Steps cfg w' a w'' → (CitesProcessed w''.db ↔ Clean cfg w' a) := by
  have hstart : CitesProcessed w.db := by
    intro s head hhead
    simp [Table.get, hfresh.heads] at hhead
  have hinvariant : w'.Sound ∧ CitesProcessed w'.db := by
    refine hrun.invariant (I := fun w => w.Sound ∧ CitesProcessed w.db) ?_ ⟨hfresh.sound, hstart⟩
    rintro w a w' ⟨hw, hcites⟩ ⟨hclean, hstep⟩
    exact ⟨hw.step hstep, (next_stepped hstep).effect.cites hw hcites hclean⟩
  obtain ⟨hsound, hcites⟩ := hinvariant
  refine ⟨hcites, fun a w'' hstep => ⟨fun hafter => ?_, fun hclean => ?_⟩⟩
  · by_contra hclean
    exact breaks_of_not_clean hcites hclean hstep hafter
  · exact (next_stepped hstep).effect.cites hsound hcites hclean

end Cites

def projectedMeeting : World :=
  (follow (guarded (Clean plainProjector) fun w => w.next plainProjector)
    (extractedTrace ++ [.commit 0 5]) quietWorld).get (by decide)

theorem projectedMeeting_run :
    Run (Under (Clean plainProjector) (World.Steps plainProjector)) quietWorld
      (extractedTrace ++ [.commit 0 5]) projectedMeeting :=
  run_under_to_get (Clean plainProjector) _ _ _ _

theorem projectedMeeting_cites : CitesProcessed projectedMeeting.db :=
  (citesProcessed_iff_clean quietWorld_fresh projectedMeeting_run).1

def invertedCaption : SegmentRecord :=
  { spokenCaption with revision := 2, audioStartMs := some 2000, audioEndMs := some 1000 }

def staleTrace : List Action :=
  extractedTrace ++ [.commit 0 5, .caption invertedCaption, .scan 0 1 (fun _ => true) 1, .skip 1 6]

def staleMeeting : World :=
  (follow (fun w => w.next plainProjector) staleTrace quietWorld).get (by decide)

/-- The item that was projected from the first revision is still there. -/
theorem staleMeeting_cites_superseded :
    quietWorld.Fresh ∧ Run (World.Steps plainProjector) quietWorld staleTrace staleMeeting ∧
      ¬ CitesProcessed staleMeeting.db := by
  refine ⟨quietWorld_fresh, run_to_get _ _ _ _, fun hcites => ?_⟩
  have hitem : ∃ item ∈ (staleMeeting.db.liveState 1).items, 1 ∈ item.sourceSegmentIds ∧
      item.revision? 1 = some 1 := by decide
  have hoffset : staleMeeting.db.processed 1 1 = some 2 := by decide
  obtain ⟨item, hmem, hcited, hrevision⟩ := hitem
  obtain ⟨r, hr, hprocessed⟩ := citesProcessed_iff.mp hcites 1 item hmem 1 hcited
  obtain rfl : 1 = r := Option.some.inj (hrevision.symm.trans hr)
  exact absurd (hoffset.symm.trans hprocessed) (by decide)

end Meeting
end Matinier
