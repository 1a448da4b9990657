import Mathlib.Data.List.Induction
import Mathlib.Data.List.Sort
import Mathlib.Data.Prod.Lex
import Matinier.Assistant.Records

/-!
# What source segments a translation stands for

The captions of a session and their translations are written by two runtimes. A translation that is
final is aligned with the source segments that are stored; a source segment that is final has all
translations of its session aligned again. So what is stored at the end is the alignment with all
source segments, whichever came first.
-/

namespace Matinier
namespace Captions

open Assistant

/-- What is read of a final caption to align translations with it. -/
structure SourceFinal where
  segmentId : String
  revision : ℕ
  audioStartMs : Option ℤ
  audioEndMs : Option ℤ
  deriving DecidableEq

structure TranslationFinal where
  targetLanguage : String
  segmentId : String
  revision : ℕ
  audioStartMs : Option ℤ
  audioEndMs : Option ℤ
  deriving DecidableEq

abbrev Stamp := Instant ×ₗ ℕ

/-- A source segment; a later revision leaves its stamp as it is. -/
structure SourceRow where
  final : SourceFinal
  stamp : Stamp

structure TranslationRow where
  final : TranslationFinal
  sourceSegmentIds : List String
  deriving DecidableEq

abbrev TranslationKey := String × String

def TranslationFinal.key (final : TranslationFinal) : TranslationKey :=
  (final.targetLanguage, final.segmentId)

/-- What is stored of each session. -/
structure AlignmentDb where
  sources : SessionId → List SourceRow := fun _ => []
  translations : SessionId → TranslationKey → Option TranslationRow := fun _ _ => none

/-- The order of source segments: those with a start by it, then the others. -/
def SourceRow.Before (a b : SourceRow) : Prop :=
  toLex (a.final.audioStartMs.isNone, toLex (a.final.audioStartMs.getD 0, a.stamp)) ≤
    toLex (b.final.audioStartMs.isNone, toLex (b.final.audioStartMs.getD 0, b.stamp))

instance : DecidableRel SourceRow.Before := fun _ _ => inferInstanceAs (Decidable (_ ≤ _))

/-- The source segments that overlap a stretch of time; the one before it where there is none. -/
def alignWith (source : List SourceFinal) (start stop : Option ℤ) : List String :=
  match source.getLast?, start, stop with
  | none, _, _ => []
  | some _, some start, some stop =>
    let overlaps := source.filter fun f =>
      (f.audioStartMs.any fun s => s ≤ stop) && f.audioEndMs.any fun e => start ≤ e
    if overlaps ≠ [] then overlaps.map SourceFinal.segmentId
    else
      let prior := source.filter fun f => f.audioStartMs.any fun s => s ≤ stop
      ((prior.getLast?.or source.head?).map SourceFinal.segmentId).toList
  | some last, _, _ => [last.segmentId]

def orderedSources (rows : List SourceRow) : List SourceFinal :=
  (rows.insertionSort SourceRow.Before).map SourceRow.final

def alignSourceSegments (rows : List SourceRow) (final : TranslationFinal) : List String :=
  alignWith (orderedSources rows) final.audioStartMs final.audioEndMs

def TranslationRow.realigned (row : TranslationRow) (rows : List SourceRow) : TranslationRow :=
  { row with sourceSegmentIds := alignSourceSegments rows row.final }

/-- Store a final caption, unless it is no later than what is stored of its segment. -/
def upsertSource (rows : List SourceRow) (final : SourceFinal) (stamp : Stamp) : List SourceRow :=
  match rows.find? fun row => row.final.segmentId = final.segmentId with
  | none => rows ++ [⟨final, stamp⟩]
  | some existing =>
    if final.revision ≤ existing.final.revision then rows
    else rows.map fun row =>
      if row.final.segmentId = final.segmentId then { row with final } else row

inductive AlignmentCommit where
  | source (sessionId : SessionId) (final : SourceFinal) (stamp : Stamp)
  | translation (sessionId : SessionId) (final : TranslationFinal)

namespace AlignmentDb

variable (db : AlignmentDb)

def realignSession (sessionId : SessionId) : AlignmentDb :=
  { db with translations := Function.update db.translations sessionId fun key =>
      (db.translations sessionId key).map fun row => row.realigned (db.sources sessionId) }

/-- Store a final translation with its alignment, unless it is no later than what is stored. -/
def upsertTranslation (sessionId : SessionId) (final : TranslationFinal) : AlignmentDb :=
  if ∃ existing ∈ db.translations sessionId final.key, final.revision ≤ existing.final.revision then
    db
  else
    let row := ⟨final, alignSourceSegments (db.sources sessionId) final⟩
    let stored := Function.update (db.translations sessionId) final.key (some row)
    { db with translations := Function.update db.translations sessionId stored }

def commit : AlignmentCommit → AlignmentDb
  | .source sessionId final stamp =>
    let sources := upsertSource (db.sources sessionId) final stamp
    let db := { db with sources := Function.update db.sources sessionId sources }
    db.realignSession sessionId
  | .translation sessionId final => db.upsertTranslation sessionId final

end AlignmentDb

def committed (commits : List AlignmentCommit) : AlignmentDb :=
  commits.foldl AlignmentDb.commit {}

def sourcesOf (sessionId : SessionId) (commits : List AlignmentCommit) :
    List (SourceFinal × Stamp) :=
  commits.filterMap fun
    | .source s final stamp => if s = sessionId then some (final, stamp) else none
    | .translation .. => none

def translationsOf (sessionId : SessionId) (commits : List AlignmentCommit) :
    List TranslationFinal :=
  commits.filterMap fun
    | .translation s final => if s = sessionId then some final else none
    | .source .. => none

def storedSources (sources : List (SourceFinal × Stamp)) : List SourceRow :=
  sources.foldl (fun rows source => upsertSource rows source.1 source.2) []

section Runs

variable {commits : List AlignmentCommit} {sessionId : SessionId} {key : TranslationKey}
  {row : TranslationRow}

theorem committed_append (commits : List AlignmentCommit) (c : AlignmentCommit) :
    committed (commits ++ [c]) = (committed commits).commit c := by
  simp [committed]

/-- The source segments of a session are those of its own commits. -/
theorem committed_sources (commits : List AlignmentCommit) (sessionId : SessionId) :
    (committed commits).sources sessionId = storedSources (sourcesOf sessionId commits) := by
  induction commits using List.reverseRecOn with
  | nil => rfl
  | append_singleton commits c ih =>
    rw [committed_append, sourcesOf, List.filterMap_append, storedSources, List.foldl_append]
    change _ = List.foldl _ (storedSources (sourcesOf sessionId commits)) _
    rw [← ih]
    cases c with
    | source s final stamp =>
      by_cases hs : s = sessionId
      · subst hs
        simp [AlignmentDb.commit, AlignmentDb.realignSession]
      · simp [AlignmentDb.commit, AlignmentDb.realignSession, hs,
          Function.update_of_ne (Ne.symm hs)]
    | translation s final =>
      simp only [AlignmentDb.commit, AlignmentDb.upsertTranslation]
      split_ifs <;> simp

/-- What is stored of a translation was committed, no other commit of it has a later revision, and
it is aligned with what is stored of the session's captions. -/
structure Stored (commits : List AlignmentCommit) (sessionId : SessionId) (key : TranslationKey)
    (row : TranslationRow) : Prop where
  final : row.final ∈ translationsOf sessionId commits
  keyed : row.final.key = key
  latest : ∀ f ∈ translationsOf sessionId commits, f.key = key → f.revision ≤ row.final.revision
  aligned : row.sourceSegmentIds =
    alignSourceSegments ((committed commits).sources sessionId) row.final

def StoredAs (commits : List AlignmentCommit) (sessionId : SessionId) (key : TranslationKey) :
    Option TranslationRow → Prop
  | none => ∀ f ∈ translationsOf sessionId commits, f.key ≠ key
  | some row => Stored commits sessionId key row

theorem mem_translationsOf_append {c : AlignmentCommit} {f : TranslationFinal} :
    f ∈ translationsOf sessionId (commits ++ [c]) ↔
      f ∈ translationsOf sessionId commits ∨ c = .translation sessionId f := by
  rw [translationsOf, List.filterMap_append, List.mem_append]
  refine or_congr_right ?_
  cases c with
  | source s final stamp => simp
  | translation s final => simp [eq_comm]

/-- A commit that is not of this translation leaves what is stored, but for its alignment. -/
theorem StoredAs.realigned {c : AlignmentCommit} {old : Option TranslationRow}
    (h : StoredAs commits sessionId key old)
    (hother : ∀ f, c = .translation sessionId f → f.key ≠ key) {new : Option TranslationRow}
    (hnew : new = old.map fun row =>
      row.realigned ((committed (commits ++ [c])).sources sessionId)) :
    StoredAs (commits ++ [c]) sessionId key new := by
  subst hnew
  cases old with
  | none =>
    intro f hf
    exact (mem_translationsOf_append.mp hf).elim (h f) (hother f)
  | some row =>
    obtain ⟨hfinal, hkeyed, hlatest, -⟩ := h
    refine ⟨mem_translationsOf_append.mpr (.inl hfinal), hkeyed, fun f hf hkey => ?_, rfl⟩
    rcases mem_translationsOf_append.mp hf with hf | hf
    · exact hlatest f hf hkey
    · exact absurd hkey (hother f hf)

theorem StoredAs.kept {c : AlignmentCommit} {old : Option TranslationRow}
    (h : StoredAs commits sessionId key old)
    (hother : ∀ f, c = .translation sessionId f → f.key ≠ key)
    (hsources : (committed (commits ++ [c])).sources sessionId =
      (committed commits).sources sessionId) :
    StoredAs (commits ++ [c]) sessionId key old := by
  refine h.realigned hother ?_
  cases old with
  | none => rfl
  | some row => rw [hsources, Option.map_some, TranslationRow.realigned, ← h.aligned]

/-- The commit of a translation stores it where it is later than what is stored. -/
theorem StoredAs.upserted {final : TranslationFinal}
    (h : StoredAs commits sessionId final.key
      ((committed commits).translations sessionId final.key))
    (hsources : (committed (commits ++ [.translation sessionId final])).sources sessionId =
      (committed commits).sources sessionId) :
    StoredAs (commits ++ [.translation sessionId final]) sessionId final.key
      ((committed (commits ++ [.translation sessionId final])).translations sessionId
        final.key) := by
  have hmem : ∀ {f}, f ∈ translationsOf sessionId (commits ++ [.translation sessionId final]) ↔
      f ∈ translationsOf sessionId commits ∨ f = final := by
    simp [mem_translationsOf_append, eq_comm]
  have hcommit : (committed (commits ++ [.translation sessionId final])).translations sessionId
      final.key = ((committed commits).upsertTranslation sessionId final).translations sessionId
        final.key := by
    rw [committed_append]
    rfl
  rw [hcommit, AlignmentDb.upsertTranslation]
  split_ifs with hold
  · obtain ⟨existing, hexisting, hle⟩ := hold
    rw [Option.mem_def.mp hexisting] at h ⊢
    obtain ⟨hfinal, hkeyed, hlatest, haligned⟩ := h
    refine ⟨hmem.mpr (.inl hfinal), hkeyed, fun f hf hkey => ?_, hsources ▸ haligned⟩
    rcases hmem.mp hf with hf | rfl
    · exact hlatest f hf hkey
    · exact hle
  · simp only [Function.update_self]
    refine ⟨hmem.mpr (.inr rfl), rfl, fun f hf hkey => ?_, hsources ▸ rfl⟩
    rcases hmem.mp hf with hf | rfl
    · cases hstored : (committed commits).translations sessionId final.key with
      | none =>
        rw [hstored] at h
        exact absurd hkey (h f hf)
      | some row =>
        rw [hstored] at h
        have hlater : ¬ final.revision ≤ row.final.revision := fun hle => hold ⟨row, hstored, hle⟩
        exact (h.latest f hf hkey).trans (not_le.mp hlater).le
    · exact le_rfl

/-- Every run of commits stores each translation as it was last committed, with its alignment. -/
theorem stored_of_committed (commits : List AlignmentCommit) (sessionId : SessionId)
    (key : TranslationKey) :
    StoredAs commits sessionId key ((committed commits).translations sessionId key) := by
  induction commits using List.reverseRecOn with
  | nil => simp [committed, translationsOf, StoredAs]
  | append_singleton commits c ih =>
    cases c with
    | source s final stamp =>
      by_cases hs : s = sessionId
      · subst hs
        refine ih.realigned (fun f hf => by cases hf) ?_
        simp [committed_append, AlignmentDb.commit, AlignmentDb.realignSession]
      · have hsame : ((committed (commits ++ [.source s final stamp])).translations sessionId key =
            (committed commits).translations sessionId key) ∧
            (committed (commits ++ [.source s final stamp])).sources sessionId =
              (committed commits).sources sessionId := by
          simp [committed_append, AlignmentDb.commit, AlignmentDb.realignSession,
            Function.update_of_ne (Ne.symm hs)]
        rw [hsame.1]
        exact ih.kept (fun f hf => by cases hf) hsame.2
    | translation s final =>
      have hsources : (committed (commits ++ [.translation s final])).sources sessionId =
          (committed commits).sources sessionId := by
        simp only [committed_append, AlignmentDb.commit, AlignmentDb.upsertTranslation]
        split_ifs <;> rfl
      by_cases hown : s = sessionId ∧ final.key = key
      · obtain ⟨rfl, rfl⟩ := hown
        exact ih.upserted hsources
      · have hsame : (committed (commits ++ [.translation s final])).translations sessionId key =
            (committed commits).translations sessionId key := by
          simp only [committed_append, AlignmentDb.commit, AlignmentDb.upsertTranslation]
          split_ifs
          · rfl
          · by_cases hs : s = sessionId
            · subst hs
              have hkey : key ≠ final.key := fun h => hown ⟨rfl, h.symm⟩
              simp [hkey]
            · simp [Function.update_of_ne (Ne.symm hs)]
        rw [hsame]
        refine ih.kept (fun f hf hkey => ?_) hsources
        cases hf
        exact hown ⟨rfl, hkey⟩

end Runs

section Alignments

variable {source : List SourceFinal} {start stop : Option ℤ} {id : String}
  {sources : List (SourceFinal × Stamp)}

theorem mem_alignWith (h : id ∈ alignWith source start stop) :
    ∃ f ∈ source, f.segmentId = id := by
  unfold alignWith at h
  split at h
  · cases h
  · rename_i last start stop hlast
    dsimp only at h
    split_ifs at h
    · obtain ⟨f, hf, rfl⟩ := List.mem_map.mp h
      exact ⟨f, List.mem_of_mem_filter hf, rfl⟩
    · obtain ⟨f, hf, rfl⟩ := Option.map_eq_some_iff.mp (Option.mem_toList.mp h)
      rcases Option.or_eq_some_iff.mp hf with hf | ⟨-, hf⟩
      · exact ⟨f, List.mem_of_mem_filter (List.mem_of_getLast? hf), rfl⟩
      · exact ⟨f, List.mem_of_head? hf, rfl⟩
  · rename_i last hlast _
    exact ⟨last, List.mem_of_getLast? hlast, (List.mem_singleton.mp h).symm⟩

theorem alignWith_ne_nil (h : source ≠ []) : alignWith source start stop ≠ [] := by
  unfold alignWith
  split
  · rename_i hlast
    exact absurd (List.getLast?_eq_none_iff.mp hlast) h
  · dsimp only
    split_ifs with hoverlaps
    · simpa using hoverlaps
    · obtain ⟨first, rest, rfl⟩ := List.exists_cons_of_ne_nil h
      cases hprior : ((first :: rest).filter _).getLast? <;> simp
  · simp

theorem upsertSource_ne_nil (rows : List SourceRow) (final : SourceFinal) (stamp : Stamp) :
    upsertSource rows final stamp ≠ [] := by
  unfold upsertSource
  split
  · simp
  · rename_i existing hfound
    have hrows : rows ≠ [] := List.ne_nil_of_mem (List.mem_of_find?_eq_some hfound)
    split_ifs <;> simpa using hrows

theorem mem_upsertSource {rows : List SourceRow} {final : SourceFinal} {stamp : Stamp}
    {row : SourceRow} (h : row ∈ upsertSource rows final stamp) :
    row.final = final ∨ ∃ old ∈ rows, row = old := by
  unfold upsertSource at h
  split at h
  · rcases List.mem_append.mp h with h | h
    · exact .inr ⟨row, h, rfl⟩
    · exact .inl (congrArg SourceRow.final (List.mem_singleton.mp h))
  · split_ifs at h
    · exact .inr ⟨row, h, rfl⟩
    · obtain ⟨old, hold, rfl⟩ := List.mem_map.mp h
      split_ifs
      · exact .inl rfl
      · exact .inr ⟨old, hold, rfl⟩

theorem mem_storedSources {row : SourceRow} (h : row ∈ storedSources sources) :
    ∃ source ∈ sources, source.1 = row.final := by
  induction sources using List.reverseRecOn with
  | nil => cases h
  | append_singleton sources source ih =>
    rw [storedSources, List.foldl_append] at h
    rcases mem_upsertSource h with hnew | ⟨old, hold, rfl⟩
    · exact ⟨source, by simp, hnew.symm⟩
    · obtain ⟨earlier, hearlier, hfinal⟩ := ih hold
      exact ⟨earlier, List.mem_append_left _ hearlier, hfinal⟩

theorem storedSources_ne_nil (h : sources ≠ []) : storedSources sources ≠ [] := by
  induction sources using List.reverseRecOn with
  | nil => exact absurd rfl h
  | append_singleton sources source _ =>
    rw [storedSources, List.foldl_append]
    exact upsertSource_ne_nil _ source.1 source.2

/-- A translation is aligned with all captions that were committed: it names some of them, and one
at least as soon as there is one. -/
structure GroundedIn (sources : List (SourceFinal × Stamp)) (row : TranslationRow) : Prop where
  aligned : row.sourceSegmentIds = alignSourceSegments (storedSources sources) row.final
  named : ∀ id ∈ row.sourceSegmentIds, ∃ source ∈ sources, source.1.segmentId = id
  nonempty : sources ≠ [] → row.sourceSegmentIds ≠ []

theorem groundedIn_of_aligned {row : TranslationRow}
    (h : row.sourceSegmentIds = alignSourceSegments (storedSources sources) row.final) :
    GroundedIn sources row := by
  refine ⟨h, fun id hid => ?_, fun hsources => ?_⟩
  · rw [h] at hid
    obtain ⟨f, hf, rfl⟩ := mem_alignWith hid
    obtain ⟨stored, hstored, rfl⟩ := List.mem_map.mp hf
    obtain ⟨source, hsource, heq⟩ :=
      mem_storedSources ((List.mem_insertionSort _).mp hstored)
    exact ⟨source, hsource, congrArg SourceFinal.segmentId heq⟩
  · rw [h]
    refine alignWith_ne_nil fun hnil => storedSources_ne_nil hsources ?_
    have hlength := congrArg List.length hnil
    rw [orderedSources, List.length_map, List.length_insertionSort] at hlength
    exact List.length_eq_zero_iff.mp hlength

end Alignments

section Orders

/-- Stamps that compare as the others do. -/
def KeepsOrder (T : Stamp → Stamp → Prop) : Prop :=
  ∀ a a' b b', T a a' → T b b' → (a ≤ b ↔ a' ≤ b')

/-- The same captions were committed in the same order, under stamps that compare alike. -/
def SameOrder (sources sources' : List (SourceFinal × Stamp)) : Prop :=
  ∃ T, KeepsOrder T ∧
    List.Forall₂ (fun source source' => source.1 = source'.1 ∧ T source.2 source'.2)
      sources sources'

/-- Two rows are of the same caption, under stamps that correspond. -/
structure RowsAlike (T : Stamp → Stamp → Prop) (row row' : SourceRow) : Prop where
  final : row.final = row'.final
  stamp : T row.stamp row'.stamp

variable {T : Stamp → Stamp → Prop} {a a' b b' : SourceRow} {rows rows' : List SourceRow}
  {sources sources' : List (SourceFinal × Stamp)}

theorem before_alike (hT : KeepsOrder T) (ha : RowsAlike T a a') (hb : RowsAlike T b b') :
    a.Before b ↔ a'.Before b' := by
  simp only [SourceRow.Before, Prod.Lex.toLex_le_toLex, ha.final, hb.final,
    hT _ _ _ _ ha.stamp hb.stamp]

theorem orderedInsert_alike (hT : KeepsOrder T) (ha : RowsAlike T a a')
    (hrows : List.Forall₂ (RowsAlike T) rows rows') :
    List.Forall₂ (RowsAlike T) (rows.orderedInsert SourceRow.Before a)
      (rows'.orderedInsert SourceRow.Before a') := by
  induction hrows with
  | nil => exact .cons ha .nil
  | cons hb hrest ih =>
    simp only [List.orderedInsert_cons, before_alike hT ha hb]
    split_ifs
    · exact .cons ha (.cons hb hrest)
    · exact .cons hb ih

theorem finals_alike (hrows : List.Forall₂ (RowsAlike T) rows rows') :
    rows.map SourceRow.final = rows'.map SourceRow.final := by
  induction hrows with
  | nil => rfl
  | cons h _ ih => rw [List.map_cons, List.map_cons, h.final, ih]

theorem orderedSources_alike (hT : KeepsOrder T)
    (hrows : List.Forall₂ (RowsAlike T) rows rows') :
    orderedSources rows = orderedSources rows' := by
  have hsorted : List.Forall₂ (RowsAlike T) (rows.insertionSort SourceRow.Before)
      (rows'.insertionSort SourceRow.Before) := by
    induction hrows with
    | nil => exact .nil
    | cons ha _ ih => exact orderedInsert_alike hT ha ih
  exact finals_alike hsorted

theorem upsertSource_alike (hrows : List.Forall₂ (RowsAlike T) rows rows') (final : SourceFinal)
    {stamp stamp' : Stamp} (hstamp : T stamp stamp') :
    List.Forall₂ (RowsAlike T) (upsertSource rows final stamp)
      (upsertSource rows' final stamp') := by
  have hfound : (rows.find? fun row => row.final.segmentId = final.segmentId).map SourceRow.final =
      (rows'.find? fun row => row.final.segmentId = final.segmentId).map SourceRow.final := by
    induction hrows with
    | nil => rfl
    | cons h _ ih =>
      simp only [List.find?_cons, h.final]
      split
      · exact congrArg some h.final
      · exact ih
  unfold upsertSource
  cases h : rows.find? _ with
  | none =>
    rw [h, Option.map_none, eq_comm, Option.map_eq_none_iff] at hfound
    rw [hfound]
    exact List.rel_append hrows (.cons ⟨rfl, hstamp⟩ .nil)
  | some existing =>
    rw [h, Option.map_some, eq_comm, Option.map_eq_some_iff] at hfound
    obtain ⟨existing', hfound, hfinal⟩ := hfound
    rw [hfound]
    simp only [hfinal]
    split_ifs
    · exact hrows
    · refine List.rel_map (fun row row' hrow => ?_) hrows
      rw [hrow.final]
      split_ifs
      · exact ⟨rfl, hrow.stamp⟩
      · exact hrow

/-- Captions that are committed in the same order are ordered alike where they are stored. -/
theorem SameOrder.ordered (h : SameOrder sources sources') :
    orderedSources (storedSources sources) = orderedSources (storedSources sources') := by
  obtain ⟨T, hT, hsources⟩ := h
  refine orderedSources_alike hT ?_
  unfold storedSources
  suffices ∀ rows rows', List.Forall₂ (RowsAlike T) rows rows' → List.Forall₂ (RowsAlike T)
      (sources.foldl (fun rows source => upsertSource rows source.1 source.2) rows)
      (sources'.foldl (fun rows source => upsertSource rows source.1 source.2) rows') from
    this [] [] .nil
  induction hsources with
  | nil => exact fun _ _ h => h
  | @cons source source' _ _ hsource _ ih =>
    intro rows rows' hrows
    rw [List.foldl_cons, List.foldl_cons]
    exact ih _ _ (hsource.1 ▸ upsertSource_alike hrows source.1 hsource.2)

end Orders

/-- No two different translations are of one language, segment and revision. -/
def OneOfRevision (finals : List TranslationFinal) : Prop :=
  ∀ f ∈ finals, ∀ g ∈ finals, f.key = g.key → f.revision = g.revision → f = g

section Confluence

variable {commits commits' : List AlignmentCommit} {sessionId : SessionId}

/-- What is stored of the translations of a session does not depend on when they were committed
between its captions. -/
theorem alignment_confluent
    (hsources : SameOrder (sourcesOf sessionId commits) (sourcesOf sessionId commits'))
    (htranslations : (translationsOf sessionId commits).Perm (translationsOf sessionId commits'))
    (hone : OneOfRevision (translationsOf sessionId commits)) (key : TranslationKey) :
    (committed commits).translations sessionId key =
        (committed commits').translations sessionId key ∧
      ∀ row ∈ (committed commits).translations sessionId key,
        GroundedIn (sourcesOf sessionId commits) row := by
  have hstored := stored_of_committed commits sessionId key
  have hstored' := stored_of_committed commits' sessionId key
  cases hrow : (committed commits).translations sessionId key with
  | none =>
    rw [hrow] at hstored
    refine ⟨?_, nofun⟩
    cases hrow' : (committed commits').translations sessionId key with
    | none => rfl
    | some row' =>
      rw [hrow'] at hstored'
      exact absurd hstored'.keyed (hstored _ (htranslations.mem_iff.mpr hstored'.final))
  | some row =>
    rw [hrow] at hstored
    obtain ⟨hfinal, hkeyed, hlatest, haligned⟩ := hstored
    refine ⟨?_, fun r hr => ?_⟩
    · cases hrow' : (committed commits').translations sessionId key with
      | none =>
        rw [hrow'] at hstored'
        exact absurd hkeyed (hstored' _ (htranslations.mem_iff.mp hfinal))
      | some row' =>
        rw [hrow'] at hstored'
        obtain ⟨hfinal', hkeyed', hlatest', haligned'⟩ := hstored'
        have hmem := htranslations.mem_iff.mpr hfinal'
        have hsame : row.final = row'.final :=
          hone _ hfinal _ hmem (hkeyed.trans hkeyed'.symm) <|
            le_antisymm (hlatest' _ (htranslations.mem_iff.mp hfinal) hkeyed)
              (hlatest _ hmem hkeyed')
        have hids : row.sourceSegmentIds = row'.sourceSegmentIds := by
          rw [haligned, haligned', committed_sources, committed_sources, alignSourceSegments,
            alignSourceSegments, hsources.ordered, hsame]
        cases row
        cases row'
        exact congrArg some (by simp_all)
    · cases hr
      exact groundedIn_of_aligned (committed_sources commits sessionId ▸ haligned)

def firstThenSecond (first second : TranslationFinal) : List AlignmentCommit :=
  [.source 0 ⟨"a", 1, some 0, some 10⟩ (toLex (0, 0)),
    .source 0 ⟨"b", 1, some 20, some 30⟩ (toLex (1, 1)), .translation 0 first,
    .translation 0 second]

def early : TranslationFinal := ⟨"en", "t", 1, some 0, some 5⟩

def late : TranslationFinal := ⟨"en", "t", 1, some 20, some 25⟩

theorem sameOrder_refl (sources : List (SourceFinal × Stamp)) : SameOrder sources sources :=
  ⟨Eq, fun _ _ _ _ ha hb => by rw [ha, hb], List.forall₂_same.mpr fun _ _ => ⟨rfl, rfl⟩⟩

/-- Of two translations of one segment and revision the first to be committed is kept. -/
theorem first_is_kept :
    SameOrder (sourcesOf 0 (firstThenSecond early late))
      (sourcesOf 0 (firstThenSecond late early)) ∧
    (translationsOf 0 (firstThenSecond early late)).Perm
      (translationsOf 0 (firstThenSecond late early)) ∧
    ((committed (firstThenSecond early late)).translations 0 ("en", "t")).map
      TranslationRow.sourceSegmentIds = some ["a"] ∧
    ((committed (firstThenSecond late early)).translations 0 ("en", "t")).map
      TranslationRow.sourceSegmentIds = some ["b"] :=
  ⟨sameOrder_refl _, .swap .., by decide +kernel, by decide +kernel⟩

def translatedFirst : List AlignmentCommit :=
  [.translation 0 early, .source 0 ⟨"a", 1, some 0, some 10⟩ (toLex (0, 0)),
    .source 0 ⟨"b", 1, some 20, some 30⟩ (toLex (1, 1))]

def translatedBetween : List AlignmentCommit :=
  [.source 0 ⟨"a", 1, some 0, some 10⟩ (toLex (0, 0)), .translation 0 early,
    .source 0 ⟨"b", 1, some 20, some 30⟩ (toLex (1, 1))]

theorem translatedFirst_confluent :
    (committed translatedFirst).translations 0 ("en", "t") =
        (committed translatedBetween).translations 0 ("en", "t") ∧
      ∀ row ∈ (committed translatedFirst).translations 0 ("en", "t"),
        GroundedIn (sourcesOf 0 translatedFirst) row :=
  alignment_confluent (sameOrder_refl _) (.refl _) (fun _ hf _ hg _ _ =>
    (List.mem_singleton.mp hf).trans (List.mem_singleton.mp hg).symm) _

end Confluence

end Captions
end Matinier
