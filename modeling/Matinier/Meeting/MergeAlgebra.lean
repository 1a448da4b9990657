import Mathlib.Logic.Equiv.List
import Matinier.Foundation.LastWins
import Matinier.Meeting.Merge

/-!
# Merging twice, and in either order

A merged list of items is a dictionary written out in the order of its keys. What it reads under
an identity is what the delta proposes there, and otherwise what was there and cites none of the
batch. From this, merging a delta again changes nothing; and as an identity fixes the captions
that an item cites, deltas over disjoint batches do not meet.
-/

namespace Matinier
namespace Meeting

open Assistant

section Items

variable {ι : Type} {item : ι → MeetingStateItem} {current projected : List ι}
  {batch : List SegmentId} {k : ItemId}

/-- The item cites none of the captions. -/
def citesNone (item : ι → MeetingStateItem) (batch : List SegmentId) (x : ι) : Bool :=
  ∀ s ∈ (item x).sourceSegmentIds, s ∉ batch

/-- The items that share an identity cite the same captions. -/
def Identified (item : ι → MeetingStateItem) (current : List ι) : Prop :=
  ∀ x ∈ current, ∀ y ∈ current, (item x).itemId = (item y).itemId →
    ∀ s, s ∈ (item x).sourceSegmentIds ↔ s ∈ (item y).sourceSegmentIds

theorem lastAt_keepLast {key : ι → ItemId} {l : List ι} :
    lastAt key (keepLast key l) k = lastAt key l k := by
  induction l with
  | nil => rfl
  | cons first rest ih =>
    rw [keepLast]
    split_ifs with hlater
    · rw [ih, lastAt]
      split_ifs with hkey
      · cases hread : lastAt key rest k with
        | none =>
          obtain ⟨x, hx, hsame⟩ := List.mem_map.mp hlater
          exact absurd (hsame.trans hkey) (lastAt_eq_none.mp hread x hx)
        | some x => rfl
      · rw [Option.or_none]
    · rw [lastAt, lastAt, ih]

theorem map_keepLast_nodup (key : ι → ItemId) (l : List ι) : ((keepLast key l).map key).Nodup := by
  induction l with
  | nil => exact List.nodup_nil
  | cons first rest ih =>
    rw [keepLast]
    split_ifs with hlater
    · exact ih
    · rw [List.map_cons, List.nodup_cons]
      refine ⟨fun hmem => hlater ?_, ih⟩
      obtain ⟨x, hx, hsame⟩ := List.mem_map.mp hmem
      exact hsame ▸ List.mem_map_of_mem (mem_of_mem_keepLast hx)

theorem mergeItems_nodup :
    ((mergeItems item current projected batch).map fun x => (item x).itemId).Nodup :=
  (((List.perm_insertionSort _ _).map _).nodup_iff).mpr (map_keepLast_nodup _ _)

theorem mergeItems_sorted :
    (mergeItems item current projected batch).Pairwise fun x y =>
      (item x).itemId ≤ (item y).itemId := by
  have : Std.Total fun x y => (item x).itemId ≤ (item y).itemId := ⟨fun x y => le_total _ _⟩
  have : IsTrans ι fun x y => (item x).itemId ≤ (item y).itemId :=
    ⟨fun x y z hxy hyz => le_trans hxy hyz⟩
  exact List.pairwise_insertionSort _ _

theorem lastAt_mergeItems :
    lastAt (fun x => (item x).itemId) (mergeItems item current projected batch) k =
      (lastAt (fun x => (item x).itemId) projected k).or
        (lastAt (fun x => (item x).itemId) (current.filter (citesNone item batch)) k) := by
  rw [mergeItems, lastAt_perm (map_keepLast_nodup _ _) (List.perm_insertionSort _ _).symm,
    lastAt_keepLast, lastAt_append]
  rfl

theorem mergeItems_identified : Identified item (mergeItems item current projected batch) := by
  intro x hx y hy hkey s
  rw [List.inj_on_of_nodup_map mergeItems_nodup hx hy hkey]

theorem citesNone_congr (h : Identified item current) (batch : List SegmentId) :
    ∀ x ∈ current, ∀ y ∈ current, (item x).itemId = (item y).itemId →
      citesNone item batch x = citesNone item batch y := by
  intro x hx y hy hkey
  simp only [citesNone, h x hx y hy hkey]

/-- What a merge onto a list in which identities fix the captions reads. -/
theorem lastAt_mergeItems_of_identified (h : Identified item current) :
    lastAt (fun x => (item x).itemId) (mergeItems item current projected batch) k =
      (lastAt (fun x => (item x).itemId) projected k).or
        ((lastAt (fun x => (item x).itemId) current k).filter (citesNone item batch)) := by
  rw [lastAt_mergeItems, lastAt_filter (citesNone_congr h batch)]

theorem mergeItems_ext {current' projected' : List ι} {batch' : List SegmentId}
    (h : ∀ k, lastAt (fun x => (item x).itemId) (mergeItems item current projected batch) k =
      lastAt (fun x => (item x).itemId) (mergeItems item current' projected' batch') k) :
    mergeItems item current projected batch = mergeItems item current' projected' batch' :=
  eq_of_lastAt mergeItems_nodup mergeItems_nodup mergeItems_sorted mergeItems_sorted h

theorem mergeItems_twice :
    mergeItems item (mergeItems item current projected batch) projected batch =
      mergeItems item current projected batch := by
  apply mergeItems_ext
  intro k
  rw [lastAt_mergeItems_of_identified mergeItems_identified, lastAt_mergeItems]
  cases lastAt (fun x => (item x).itemId) projected k with
  | some x => rfl
  | none =>
    -- What was kept cites none of the batch, and is kept again.
    rw [Option.none_or, Option.none_or]
    cases hread : lastAt (fun x => (item x).itemId) (current.filter (citesNone item batch)) k with
    | none => rfl
    | some x =>
      have hkept := (List.mem_filter.mp (mem_of_lastAt hread).1).2
      simp [Option.filter_some, hkept]

/-- Merges whose proposals share no identity and do not cite the other's batch commute. -/
theorem mergeItems_comm {first second : List ι} {batch₁ batch₂ : List SegmentId}
    (hcurrent : Identified item current)
    (hfirst : ∀ x ∈ first, citesNone item batch₂ x)
      (hsecond : ∀ x ∈ second, citesNone item batch₁ x)
    (hapart : ∀ x ∈ first, ∀ y ∈ second, (item x).itemId ≠ (item y).itemId) :
    mergeItems item (mergeItems item current first batch₁) second batch₂ =
      mergeItems item (mergeItems item current second batch₂) first batch₁ := by
  apply mergeItems_ext
  intro k
  simp only [lastAt_mergeItems_of_identified mergeItems_identified,
    lastAt_mergeItems_of_identified hcurrent]
  cases hone : lastAt (fun x => (item x).itemId) first k with
  | some x =>
    obtain ⟨hx, hxkey⟩ := mem_of_lastAt hone
    cases htwo : lastAt (fun x => (item x).itemId) second k with
    | some y =>
      obtain ⟨hy, hykey⟩ := mem_of_lastAt htwo
      exact absurd (hxkey.trans hykey.symm) (hapart x hx y hy)
    | none => simp [Option.filter_some, hfirst x hx]
  | none =>
    cases htwo : lastAt (fun x => (item x).itemId) second k with
    | some y =>
      obtain ⟨hy, -⟩ := mem_of_lastAt htwo
      simp [Option.filter_some, hsecond y hy]
    | none =>
      rw [Option.none_or, Option.none_or, Option.none_or, Option.none_or, Option.filter_filter,
        Option.filter_filter]
      congr 1
      funext x
      exact Bool.and_comm _ _

end Items

/-- No two identities have one digest. -/
def MergeConfig.Injective (cfg : MergeConfig) : Prop :=
  ∀ kind content cited kind' content' cited',
    cfg.itemHash kind content cited = cfg.itemHash kind' content' cited' →
      kind = kind' ∧ content = content' ∧ cited = cited'

/-- In each list of a state, items that share an identity cite the same captions. -/
structure MeetingState.Identified (state : MeetingState) : Prop where
  topics : Meeting.Identified id state.topics
  entities : Meeting.Identified Entity.toMeetingStateItem state.entities
  decisions : Meeting.Identified id state.decisions
  highlights : Meeting.Identified id state.highlights
  conflicts : Meeting.Identified id state.conflicts

/-- The states that a session's merges lead to from its first one. -/
inductive Reached (cfg : MergeConfig) : MeetingState → Prop
  | first (sessionId : SessionId) : Reached cfg { sessionId, version := 0 }
  | merged {current next : MeetingState} {delta : MeetingStateDelta}
      {actionCandidates : List ActionCandidate} {revisions : List (SegmentId × ℕ)}
      {nextVersion : ℕ} : Reached cfg current →
      mergeMeetingState cfg current delta actionCandidates revisions nextVersion = .ok next →
      Reached cfg next

/-- The items that a delta projects. -/
structure ProjectedItems where
  topics : List MeetingStateItem
  entities : List Entity
  decisions : List MeetingStateItem
  highlights : List MeetingStateItem
  conflicts : List MeetingStateItem

def projectItems (cfg : MergeConfig) (revisions : List (SegmentId × ℕ))
    (delta : MeetingStateDelta) : Except Fault ProjectedItems := do
  let topics ← delta.topics.mapM (stateItem cfg revisions "topic")
  let entities ← delta.entities.mapM (entity cfg revisions)
  let decisions ← delta.decisions.mapM (stateItem cfg revisions "decision")
  let highlights ← delta.highlights.mapM (stateItem cfg revisions "highlight")
  let conflicts ← delta.conflicts.mapM (stateItem cfg revisions "conflict")
  return { topics, entities, decisions, highlights, conflicts }

/-- A state with the items of a batch replaced. -/
def MeetingState.reproject (state : MeetingState) (made : ProjectedItems) (batch : List SegmentId)
    (actionCandidates : List ActionCandidate) (version : ℕ) : MeetingState :=
  { state with
    version
    topics := mergeItems id state.topics made.topics batch
    entities := mergeItems Entity.toMeetingStateItem state.entities made.entities batch
    decisions := mergeItems id state.decisions made.decisions batch
    actionCandidates := actionCandidates.insertionSort fun a b => a.candidateId ≤ b.candidateId
    highlights := mergeItems id state.highlights made.highlights batch
    conflicts := mergeItems id state.conflicts made.conflicts batch }

/-- What a merge asks of a delta, apart from the state it is merged into. -/
def Mergeable (revisions : List (SegmentId × ℕ)) (delta : MeetingStateDelta) : Prop :=
  ((∀ entry ∈ revisions, entry.1 ∈ delta.sourceSegmentIds) ∧
    ∀ s ∈ delta.sourceSegmentIds, s ∈ revisions.map Prod.fst) ∧
  ∀ entry ∈ revisions, 1 ≤ entry.2

section Merge

variable {cfg : MergeConfig} {current next : MeetingState} {delta : MeetingStateDelta}
  {actionCandidates : List ActionCandidate} {revisions : List (SegmentId × ℕ)} {nextVersion : ℕ}
  {made : ProjectedItems} {batch : List SegmentId}

theorem mergeMeetingState_eq_ok :
    mergeMeetingState cfg current delta actionCandidates revisions nextVersion = .ok next ↔
      current.sessionId = delta.sessionId ∧ current.version < nextVersion ∧
        Mergeable revisions delta ∧ ∃ made, projectItems cfg revisions delta = .ok made ∧
          next = current.reproject made delta.sourceSegmentIds actionCandidates nextVersion := by
  constructor
  · intro h
    simp only [mergeMeetingState, bind_eq_ok, ensure_eq_ok, pure_eq_ok] at h
    obtain ⟨_, hsession, _, hversion, _, hmatch, _, hpos, topics, htopics, entities, hentities,
      decisions, hdecisions, highlights, hhighlights, conflicts, hconflicts, rfl⟩ := h
    refine ⟨hsession, hversion, ⟨hmatch, hpos⟩,
      ⟨topics, entities, decisions, highlights, conflicts⟩, ?_, rfl⟩
    simp [projectItems, htopics, hentities, hdecisions, hhighlights, hconflicts]
  · rintro ⟨hsession, hversion, ⟨hmatch, hpos⟩, made, hmade, rfl⟩
    simp only [projectItems, bind_eq_ok, pure_eq_ok] at hmade
    obtain ⟨topics, htopics, entities, hentities, decisions, hdecisions, highlights, hhighlights,
      conflicts, hconflicts, rfl⟩ := hmade
    simp only [mergeMeetingState, bind_eq_ok, ensure_eq_ok, pure_eq_ok]
    exact ⟨(), hsession, (), hversion, (), hmatch, (), hpos, topics, htopics, entities, hentities,
      decisions, hdecisions, highlights, hhighlights, conflicts, hconflicts, rfl⟩

theorem reproject_identified :
    (current.reproject made batch actionCandidates nextVersion).Identified where
  topics := mergeItems_identified
  entities := mergeItems_identified
  decisions := mergeItems_identified
  highlights := mergeItems_identified
  conflicts := mergeItems_identified

theorem Reached.identified (h : Reached cfg current) : current.Identified := by
  cases h with
  | first sessionId => constructor <;> exact fun _ hx => absurd hx List.not_mem_nil
  | merged _ hmerge =>
    obtain ⟨-, -, -, made, -, rfl⟩ := mergeMeetingState_eq_ok.mp hmerge
    exact reproject_identified

/-- The item cites captions of the batch only, and has the digest of an identity with them. -/
def Stamped (cfg : MergeConfig) (batch : List SegmentId) (item : MeetingStateItem) : Prop :=
  (∀ s ∈ item.sourceSegmentIds, s ∈ batch) ∧ ∃ kind content, item.itemId =
    cfg.itemHash kind content (item.sourceSegmentIds.dedup.insertionSort (· ≤ ·))

theorem makeItem_stamped {kind : String} {content : ItemContent} {text : String}
    {sources : List SegmentId} {cited : List (SegmentId × ℕ)} {item : MeetingStateItem}
    (hmatch : ∀ entry ∈ revisions, entry.1 ∈ batch)
    (hcited : citedRevisions revisions sources = .ok cited)
    (h : makeItem (stableItemId cfg kind content sources) text sources cited = .ok item) :
    Stamped cfg batch item := by
  have hid : item.itemId = stableItemId cfg kind content sources := by
    unfold makeItem at h
    split_ifs at h
    cases h
    rfl
  obtain ⟨hsources, -⟩ := makeItem_ok h
  constructor
  · intro s hs
    obtain ⟨r, hr, -⟩ := makeItem_citesBatch hcited h s hs
    exact hmatch (s, r) (mem_of_revisionIn hr)
  · rw [hid, hsources]
    exact ⟨kind, _, rfl⟩

theorem stateItem_stamped {kind : String} {proposal : StateItemProposal} {item : MeetingStateItem}
    (hmatch : ∀ entry ∈ revisions, entry.1 ∈ batch)
    (h : stateItem cfg revisions kind proposal = .ok item) : Stamped cfg batch item := by
  simp only [stateItem, bind_eq_ok] at h
  obtain ⟨cited, hcited, hitem⟩ := h
  exact makeItem_stamped hmatch hcited hitem

theorem entity_stamped {proposal : EntityProposal} {item : Entity}
    (hmatch : ∀ entry ∈ revisions, entry.1 ∈ batch)
    (h : entity cfg revisions proposal = .ok item) :
    Stamped cfg batch item.toMeetingStateItem := by
  simp only [entity, bind_eq_ok, pure_eq_ok] at h
  obtain ⟨cited, hcited, made, hmade, rfl⟩ := h
  exact makeItem_stamped hmatch hcited hmade

/-- Everything that a delta projects is stamped for its batch. -/
structure ProjectedItems.Stamped (cfg : MergeConfig) (batch : List SegmentId)
    (made : ProjectedItems) : Prop where
  topics : ∀ x ∈ made.topics, Meeting.Stamped cfg batch x
  entities : ∀ x ∈ made.entities, Meeting.Stamped cfg batch x.toMeetingStateItem
  decisions : ∀ x ∈ made.decisions, Meeting.Stamped cfg batch x
  highlights : ∀ x ∈ made.highlights, Meeting.Stamped cfg batch x
  conflicts : ∀ x ∈ made.conflicts, Meeting.Stamped cfg batch x

theorem projectItems_stamped (hmatch : ∀ entry ∈ revisions, entry.1 ∈ batch)
    (h : projectItems cfg revisions delta = .ok made) : made.Stamped cfg batch := by
  simp only [projectItems, bind_eq_ok, pure_eq_ok] at h
  obtain ⟨topics, htopics, entities, hentities, decisions, hdecisions, highlights, hhighlights,
    conflicts, hconflicts, rfl⟩ := h
  have hstate : ∀ {kind : String} {proposals : List StateItemProposal}
      {items : List MeetingStateItem}, proposals.mapM (stateItem cfg revisions kind) = .ok items →
        ∀ x ∈ items, Meeting.Stamped cfg batch x :=
    fun hmap => of_mem_mapM (fun _ _ => stateItem_stamped hmatch) hmap
  exact
    { topics := hstate htopics
      entities := of_mem_mapM (fun _ _ => entity_stamped hmatch) hentities
      decisions := hstate hdecisions
      highlights := hstate hhighlights
      conflicts := hstate hconflicts }

variable {batch₁ batch₂ : List SegmentId}

theorem Stamped.citesNone {item : MeetingStateItem} (h : Stamped cfg batch₁ item)
    (hdisjoint : ∀ s ∈ batch₁, s ∉ batch₂) : ∀ s ∈ item.sourceSegmentIds, s ∉ batch₂ :=
  fun s hs => hdisjoint s (h.1 s hs)

theorem Stamped.apart (hcfg : cfg.Injective) {x y : MeetingStateItem} (hx : Stamped cfg batch₁ x)
    (hy : Stamped cfg batch₂ y) (hdisjoint : ∀ s ∈ batch₁, s ∉ batch₂) : x.itemId ≠ y.itemId := by
  obtain ⟨hxcites, kind, content, hxid⟩ := hx
  obtain ⟨hycites, kind', content', hyid⟩ := hy
  intro hsame
  rw [hxid, hyid] at hsame
  obtain ⟨-, -, hcited⟩ := hcfg _ _ _ _ _ _ hsame
  obtain ⟨s, hs⟩ := List.exists_mem_of_ne_nil _ x.sources_ne
  have hmem : s ∈ y.sourceSegmentIds.dedup.insertionSort (· ≤ ·) := by
    rw [← hcited, List.mem_insertionSort, List.mem_dedup]
    exact hs
  rw [List.mem_insertionSort, List.mem_dedup] at hmem
  exact hdisjoint s (hxcites s hs) (hycites s hmem)

theorem mergeItems_comm_of_stamped {ι : Type} {item : ι → MeetingStateItem}
    {now first second : List ι} (hcfg : cfg.Injective) (hnow : Identified item now)
    (hfirst : ∀ x ∈ first, Stamped cfg batch₁ (item x))
    (hsecond : ∀ x ∈ second, Stamped cfg batch₂ (item x))
    (hdisjoint : ∀ s ∈ batch₁, s ∉ batch₂) :
    mergeItems item (mergeItems item now first batch₁) second batch₂ =
      mergeItems item (mergeItems item now second batch₂) first batch₁ := by
  apply mergeItems_comm hnow
  · intro x hx
    exact decide_eq_true ((hfirst x hx).citesNone hdisjoint)
  · intro x hx
    exact decide_eq_true ((hsecond x hx).citesNone fun s hs hs' => hdisjoint s hs' hs)
  · intro x hx y hy
    exact (hfirst x hx).apart hcfg (hsecond y hy) hdisjoint

theorem reproject_twice {again : ℕ} :
    (current.reproject made batch actionCandidates nextVersion).reproject made batch
        actionCandidates again =
      { current.reproject made batch actionCandidates nextVersion with version := again } := by
  simp only [MeetingState.reproject, mergeItems_twice]

theorem reproject_comm {made₁ made₂ : ProjectedItems} (v₁ v₂ w₁ w₂ : ℕ) (hcfg : cfg.Injective)
    (hcurrent : current.Identified) (hmade₁ : made₁.Stamped cfg batch₁)
    (hmade₂ : made₂.Stamped cfg batch₂) (hdisjoint : ∀ s ∈ batch₁, s ∉ batch₂) :
    (current.reproject made₂ batch₂ actionCandidates w₁).reproject made₁ batch₁
        actionCandidates w₂ =
      { (current.reproject made₁ batch₁ actionCandidates v₁).reproject made₂ batch₂
          actionCandidates v₂ with version := w₂ } := by
  simp only [MeetingState.reproject,
    mergeItems_comm_of_stamped hcfg hcurrent.topics hmade₁.topics hmade₂.topics hdisjoint,
    mergeItems_comm_of_stamped hcfg hcurrent.entities hmade₁.entities hmade₂.entities hdisjoint,
    mergeItems_comm_of_stamped hcfg hcurrent.decisions hmade₁.decisions hmade₂.decisions hdisjoint,
    mergeItems_comm_of_stamped hcfg hcurrent.highlights hmade₁.highlights hmade₂.highlights
      hdisjoint,
    mergeItems_comm_of_stamped hcfg hcurrent.conflicts hmade₁.conflicts hmade₂.conflicts hdisjoint]

end Merge

/-- Merging a delta a second time leaves the digest of the state. Deltas over disjoint batches merge
in either order, and to one digest, into any state in which the identity of an item fixes the
captions it cites, as in every state that merges lead to. -/
theorem merge_twice_and_in_either_order {δ : Type} (cfg : MergeConfig) (hcfg : cfg.Injective)
    (digest : MeetingState → δ) :
    (∀ current next delta candidates revisions nextVersion again,
      mergeMeetingState cfg current delta candidates revisions nextVersion = .ok next →
      nextVersion < again →
      ∃ last, mergeMeetingState cfg next delta candidates revisions again = .ok last ∧
        canonicalStateHash digest last = canonicalStateHash digest next) ∧
    (∀ current, current.Identified →
      ∀ delta₁ delta₂ candidates revisions₁ revisions₂ v₁ v₂ mid last,
      (∀ s ∈ delta₁.sourceSegmentIds, s ∉ delta₂.sourceSegmentIds) →
      mergeMeetingState cfg current delta₁ candidates revisions₁ v₁ = .ok mid →
      mergeMeetingState cfg mid delta₂ candidates revisions₂ v₂ = .ok last →
      ∀ w₁ w₂, current.version < w₁ → w₁ < w₂ → ∃ mid' last',
        mergeMeetingState cfg current delta₂ candidates revisions₂ w₁ = .ok mid' ∧
        mergeMeetingState cfg mid' delta₁ candidates revisions₁ w₂ = .ok last' ∧
        canonicalStateHash digest last' = canonicalStateHash digest last) ∧
    ∀ current, Reached cfg current → current.Identified := by
  refine ⟨?_, ?_, fun current => Reached.identified⟩
  · intro current next delta candidates revisions nextVersion again h hagain
    obtain ⟨hsession, -, hmergeable, made, hmade, rfl⟩ := mergeMeetingState_eq_ok.mp h
    refine ⟨_, mergeMeetingState_eq_ok.mpr ⟨hsession, hagain, hmergeable, made, hmade, rfl⟩, ?_⟩
    rw [reproject_twice]
    rfl
  · intro current hcurrent delta₁ delta₂ candidates revisions₁ revisions₂ v₁ v₂ mid last hdisjoint
      h₁ h₂ w₁ w₂ hw₁ hw₂
    obtain ⟨hsession₁, -, hmergeable₁, made₁, hmade₁, rfl⟩ := mergeMeetingState_eq_ok.mp h₁
    obtain ⟨hsession₂, -, hmergeable₂, made₂, hmade₂, rfl⟩ := mergeMeetingState_eq_ok.mp h₂
    refine ⟨_, _, mergeMeetingState_eq_ok.mpr ⟨hsession₂, hw₁, hmergeable₂, made₂, hmade₂, rfl⟩,
      mergeMeetingState_eq_ok.mpr ⟨hsession₁, hw₂, hmergeable₁, made₁, hmade₁, rfl⟩, ?_⟩
    rw [reproject_comm v₁ v₂ w₁ w₂ hcfg hcurrent (projectItems_stamped hmergeable₁.1.1 hmade₁)
      (projectItems_stamped hmergeable₂.1.1 hmade₂) hdisjoint]
    rfl

/-- A digest that spells the identity out. -/
def spelledHash (kind : String) (content : ItemContent) (cited : List SegmentId) : ItemId :=
  let spelled (text : String) := text.toList.map Char.toNat
  Encodable.encode (spelled kind :: cited :: match content with
    | .text text => [spelled text]
    | .entity text entityType => [spelled text, spelled entityType])

theorem spelledHash_injective :
    MergeConfig.Injective { itemHash := spelledHash, normalizedText := id } := by
  have hspelled : ∀ left right : String,
      left.toList.map Char.toNat = right.toList.map Char.toNat → left = right := by
    intro left right h
    have hchar : Function.Injective Char.toNat := fun a b hab => Char.ext (UInt32.toNat_inj.mp hab)
    exact String.ext (hchar.list_map h)
  intro kind content cited kind' content' cited' h
  have hlists := Encodable.encode_injective h
  rw [List.cons.injEq, List.cons.injEq] at hlists
  obtain ⟨hkind, hcited, hcontent⟩ := hlists
  refine ⟨hspelled _ _ hkind, ?_, hcited⟩
  cases content <;> cases content' <;> simp only [List.cons.injEq, reduceCtorEq, and_false,
    and_true] at hcontent
  · rw [hspelled _ _ hcontent]
  · rw [hspelled _ _ hcontent.1, hspelled _ _ hcontent.2]

/-- A delta that proposes one topic for one caption. -/
def oneTopic (text : String) (segmentId : SegmentId) (htext : joinedWords text = text)
    (hne : text ≠ "") : MeetingStateDelta where
  sessionId := 1
  sourceSegmentIds := [segmentId]
  sources_ne := List.cons_ne_nil _ _
  sources_nodup := List.nodup_singleton _
  topics := [{
    text
    sourceSegmentIds := [segmentId]
    text_normal := htext
    text_ne := hne
    sources_ne := List.cons_ne_nil _ _
    sources_nodup := List.nodup_singleton _ }]

/-- A topic of one caption and a topic of another. -/
theorem budget_and_venue_in_either_order :
    let cfg : MergeConfig := { itemHash := spelledHash, normalizedText := id }
    let budget := oneTopic "budget" 1 (by decide +kernel) (by decide)
    let venue := oneTopic "venue" 2 (by decide +kernel) (by decide)
    let start : MeetingState := { sessionId := 1, version := 0 }
    ∃ mid last mid' last',
      mergeMeetingState cfg start budget [] [(1, 1)] 1 = .ok mid ∧
      mergeMeetingState cfg mid venue [] [(2, 1)] 2 = .ok last ∧
      mergeMeetingState cfg start venue [] [(2, 1)] 1 = .ok mid' ∧
      mergeMeetingState cfg mid' budget [] [(1, 1)] 2 = .ok last' ∧
      canonicalStateHash id last' = canonicalStateHash id last := by
  intro cfg budget venue start
  have hmakes : ∀ text segmentId htext hne, ∃ made,
      projectItems cfg [(segmentId, 1)] (oneTopic text segmentId htext hne) = .ok made := by
    intro text segmentId htext hne
    simp [oneTopic, projectItems, stateItem, citedRevisions, makeItem, require, revisionIn, hne]
  obtain ⟨made₁, hmade₁⟩ := hmakes "budget" 1 (by decide +kernel) (by decide)
  obtain ⟨made₂, hmade₂⟩ := hmakes "venue" 2 (by decide +kernel) (by decide)
  have hmergeable : ∀ text segmentId htext hne,
      Mergeable [(segmentId, 1)] (oneTopic text segmentId htext hne) := by
    simp [Mergeable, oneTopic]
  have hfirst : mergeMeetingState cfg start budget [] [(1, 1)] 1 =
      .ok (start.reproject made₁ [1] [] 1) :=
    mergeMeetingState_eq_ok.mpr ⟨rfl, Nat.one_pos, hmergeable _ _ _ _, made₁, hmade₁, rfl⟩
  have hsecond : mergeMeetingState cfg (start.reproject made₁ [1] [] 1) venue [] [(2, 1)] 2 =
      .ok ((start.reproject made₁ [1] [] 1).reproject made₂ [2] [] 2) :=
    mergeMeetingState_eq_ok.mpr ⟨rfl, Nat.one_lt_two, hmergeable _ _ _ _, made₂, hmade₂, rfl⟩
  have hstart : Reached cfg start := Reached.first 1
  obtain ⟨mid', last', hmid', hlast', hhash⟩ :=
    (merge_twice_and_in_either_order cfg spelledHash_injective id).2.1 start
      hstart.identified budget venue [] [(1, 1)] [(2, 1)] 1 2 _ _
      (by simp [budget, venue, oneTopic]) hfirst hsecond 1 2 Nat.one_pos Nat.one_lt_two
  exact ⟨_, _, mid', last', hfirst, hsecond, hmid', hlast', hhash⟩

end Meeting
end Matinier
