import Mathlib.Data.List.Sort
import Mathlib.Data.Prod.Lex
import Mathlib.Data.String.Basic
import Matinier.Meeting.CandidateContent

/-!
# Timelines

The Finals of a session in the order of their audio. What has no start begins where the one before
it ends, and what has no end lasts until the next start that is known, or for two seconds.
-/

namespace Matinier

open Meeting Assistant

/-- The row of a caption. -/
structure CaptionRow extends SegmentRecord where
  id : String
  createdAt : Instant := 0

structure TimelineSegment where
  record : CaptionRow
  audioStartMs : ℤ
  audioEndMs : ℤ

structure Timeline where
  segments : List TimelineSegment
  durationMs : ℤ

namespace Timeline

def missingEndDurationMs : ℤ := 2000

def sortKey (record : CaptionRow) : Bool ×ₗ ℤ ×ₗ Bool ×ₗ ℤ ×ₗ Instant ×ₗ String :=
  toLex (record.audioStartMs.isNone, toLex (record.audioStartMs.elim 0 (max 0),
    toLex (record.audioEndMs.isNone, toLex (record.audioEndMs.elim 0 (max 0),
      toLex (record.createdAt, record.id)))))

def sorted (segments : List CaptionRow) : List CaptionRow :=
  segments.insertionSort fun a b => sortKey a ≤ sortKey b

def nextKnownStart (following : List CaptionRow) : Option ℤ :=
  (following.findSome? fun record => record.audioStartMs).map (max 0)

def endOf (record : CaptionRow) (following : List CaptionRow) (start : ℤ) : ℤ :=
  match record.audioEndMs with
  | some stop => max start (max 0 stop)
  | none =>
    match nextKnownStart following with
    | some next => if start < next then next else start + missingEndDurationMs
    | none => start + missingEndDurationMs

def normalizeFrom (previousEnd : ℤ) : List CaptionRow → List TimelineSegment
  | [] => []
  | record :: following =>
    let start := record.audioStartMs.elim previousEnd (max 0)
    let stop := endOf record following start
    ⟨record, start, stop⟩ :: normalizeFrom stop following

def normalizeTimeline (segments : List CaptionRow) : Except Fault Timeline := do
  ensure (∀ record ∈ segments, record.status = .final)
    (.value "only Final segments can be normalized")
  let normalized := normalizeFrom 0 (sorted segments)
  return ⟨normalized, (normalized.map TimelineSegment.audioEndMs).foldl max 0⟩

theorem le_endOf (record : CaptionRow) (following : List CaptionRow) (start : ℤ) :
    start ≤ endOf record following start := by
  unfold endOf missingEndDurationMs
  split
  · exact le_max_left _ _
  · split
    · split_ifs with hlt <;> omega
    · omega

theorem map_record_normalizeFrom (previousEnd : ℤ) (records : List CaptionRow) :
    (normalizeFrom previousEnd records).map TimelineSegment.record = records := by
  induction records generalizing previousEnd with
  | nil => rfl
  | cons record following ih => rw [normalizeFrom, List.map_cons, ih]

theorem le_foldl_max (ends : List ℤ) (duration : ℤ) :
    duration ≤ ends.foldl max duration ∧ ∀ stop ∈ ends, stop ≤ ends.foldl max duration := by
  induction ends generalizing duration with
  | nil => simp
  | cons stop ends ih =>
    obtain ⟨hduration, hends⟩ := ih (max duration stop)
    refine ⟨(le_max_left _ _).trans hduration, fun other hother => ?_⟩
    rcases List.mem_cons.mp hother with rfl | hother
    · exact (le_max_right _ _).trans hduration
    · exact hends other hother

/-- What has a start comes behind others that have none greater. -/
def Before (a b : CaptionRow) : Prop :=
  ∀ start ∈ b.audioStartMs, ∃ start' ∈ a.audioStartMs, max 0 start' ≤ max 0 start

theorem before_of_sortKey {a b : CaptionRow} (h : sortKey a ≤ sortKey b) : Before a b := by
  intro start hstart
  rw [sortKey, sortKey, Prod.Lex.toLex_le_toLex, Prod.Lex.toLex_le_toLex] at h
  cases ha : a.audioStartMs with
  | none =>
    simp only [ha, Option.mem_def.mp hstart, Option.isNone_none, Option.isNone_some,
      Bool.true_eq_false, false_and, or_false] at h
    cases h
  | some start' =>
    refine ⟨start', rfl, ?_⟩
    simp only [ha, Option.mem_def.mp hstart, Option.isNone_some, lt_irrefl, false_or, true_and,
      Option.elim_some] at h
    exact h.elim le_of_lt fun heq => heq.1.le

/-- The segments begin in order, none before the given time, each where its row says so. -/
theorem normalizeFrom_inOrder {records : List CaptionRow} (hsorted : records.Pairwise Before)
    {low previousEnd : ℤ} (hlow : low ≤ previousEnd)
    (hstarts : ∀ r ∈ records, ∀ start ∈ r.audioStartMs, low ≤ max 0 start) :
    (normalizeFrom previousEnd records).Pairwise (fun a b => a.audioStartMs ≤ b.audioStartMs) ∧
    ∀ s ∈ normalizeFrom previousEnd records, low ≤ s.audioStartMs ∧
      s.audioStartMs ≤ s.audioEndMs ∧
      ∀ start ∈ s.record.audioStartMs, s.audioStartMs = max 0 start := by
  induction records generalizing low previousEnd with
  | nil => exact ⟨.nil, List.forall_mem_nil _⟩
  | cons record following ih =>
    obtain ⟨hbefore, hsorted⟩ := List.pairwise_cons.mp hsorted
    rw [normalizeFrom]
    set start := record.audioStartMs.elim previousEnd (max 0) with hstart
    have hbegins : low ≤ start := by
      cases hknown : record.audioStartMs with
      | none => rwa [hstart, hknown]
      | some known =>
        rw [hstart, hknown]
        exact hstarts record List.mem_cons_self known hknown
    have hbehind : ∀ r ∈ following, ∀ time ∈ r.audioStartMs, start ≤ max 0 time := by
      intro r hr time htime
      obtain ⟨known, hknown, hle⟩ := hbefore r hr time htime
      rw [hstart, Option.mem_def.mp hknown]
      exact hle
    obtain ⟨hordered, hformed⟩ := ih hsorted (le_endOf record following start) hbehind
    refine ⟨hordered.cons fun s hs => (hformed s hs).1, fun s hs => ?_⟩
    rcases List.mem_cons.mp hs with rfl | hs
    · refine ⟨hbegins, le_endOf record following start, fun known hknown => ?_⟩
      rw [hstart, Option.mem_def.mp hknown]
      rfl
    · exact ⟨hbegins.trans (hformed s hs).1, (hformed s hs).2⟩

/-- The order of the rows does not matter, where their identifiers differ. -/
theorem sorted_perm {segments segments' : List CaptionRow} (hperm : segments.Perm segments')
    (hids : (segments.map CaptionRow.id).Nodup) : sorted segments = sorted segments' := by
  have hmem : ∀ r, r ∈ sorted segments → r ∈ segments := fun r => (List.mem_insertionSort _).mp
  have hmem' : ∀ r, r ∈ sorted segments' → r ∈ segments := fun r hr =>
    hperm.mem_iff.mpr ((List.mem_insertionSort _).mp hr)
  refine List.Perm.eq_of_pairwise (fun a b ha hb hab hba => ?_)
    (List.pairwise_insertionSort _ _) (List.pairwise_insertionSort _ _)
    ((List.perm_insertionSort _ _).trans (hperm.trans (List.perm_insertionSort _ _).symm))
  have hkey : sortKey a = sortKey b := le_antisymm hab hba
  have hid : a.id = b.id := by
    simp only [sortKey, toLex_inj, Prod.mk.injEq] at hkey
    exact hkey.2.2.2.2.2
  exact List.inj_on_of_nodup_map hids (hmem a ha) (hmem' b hb) hid

/-- Of Finals there is a timeline, and of nothing else. It has every row once, in the order of their
audio, begins each where its row says so, and does not depend on the order of rows whose identifiers
differ. -/
theorem normalizeTimeline_inOrder (segments : List CaptionRow) :
    match normalizeTimeline segments with
    | .ok timeline =>
      (timeline.segments.map TimelineSegment.record).Perm segments ∧
      (timeline.segments.Pairwise fun a b => a.audioStartMs ≤ b.audioStartMs) ∧
      (∀ s ∈ timeline.segments, 0 ≤ s.audioStartMs ∧ s.audioStartMs ≤ s.audioEndMs ∧
        s.audioEndMs ≤ timeline.durationMs ∧
        ∀ start ∈ s.record.audioStartMs, s.audioStartMs = max 0 start) ∧
      ∀ segments', segments.Perm segments' → (segments.map CaptionRow.id).Nodup →
        normalizeTimeline segments' = .ok timeline
    | .error _ => ∃ record ∈ segments, record.status ≠ .final := by
  by_cases hfinal : ∀ record ∈ segments, record.status = .final
  · have hok : ∀ segments' : List CaptionRow, (∀ record ∈ segments', record.status = .final) →
        normalizeTimeline segments' = .ok ⟨normalizeFrom 0 (sorted segments'),
          ((normalizeFrom 0 (sorted segments')).map TimelineSegment.audioEndMs).foldl max 0⟩ := by
      intro segments' hfinal'
      simp only [normalizeTimeline, ensure, if_pos hfinal']
      rfl
    rw [hok segments hfinal]
    obtain ⟨hordered, hformed⟩ := normalizeFrom_inOrder
      ((List.pairwise_insertionSort _ segments).imp before_of_sortKey) (le_refl 0)
      fun _ _ start _ => le_max_left 0 start
    refine ⟨?_, hordered, fun s hs => ?_, fun segments' hperm hids => ?_⟩
    · rw [map_record_normalizeFrom]
      exact List.perm_insertionSort _ _
    · obtain ⟨hlow, hle, hknown⟩ := hformed s hs
      exact ⟨hlow, hle, (le_foldl_max _ 0).2 _ (List.mem_map_of_mem hs), hknown⟩
    · rw [hok segments' fun record hrecord => hfinal record (hperm.mem_iff.mpr hrecord),
        sorted_perm hperm hids]
  · have herror : normalizeTimeline segments =
        .error (.value "only Final segments can be normalized") := by
      simp only [normalizeTimeline, ensure, if_neg hfinal]
      rfl
    rw [herror]
    simpa using hfinal

end Timeline
end Matinier
