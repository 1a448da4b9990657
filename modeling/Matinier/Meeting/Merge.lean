import Matinier.Meeting.CandidateContent
import Mathlib.Data.List.Sort

/-!
# The meeting state

A meeting's state is projected from its final captions. A caption may be revised, and every
item of the state says which captions it cites and at which revisions. What a model proposes
for a batch of captions is a delta, bound to the captions of the batch.

The items that cite a caption of the batch are replaced by what the delta proposes; the other
items stay. An item is identified by its kind, its content and the captions it cites.
-/

namespace Matinier
namespace Meeting

open Assistant

abbrev ItemId := ℕ

/-- A fact proposed for the state. Its text has its blanks joined, and is not blank. -/
structure StateItemProposal where
  text : String
  sourceSegmentIds : List SegmentId
  text_normal : joinedWords text = text
  text_ne : text ≠ ""
  sources_ne : sourceSegmentIds ≠ []
  sources_nodup : sourceSegmentIds.Nodup

structure EntityProposal extends StateItemProposal where
  entityType : String

/-- What a model proposes. -/
structure DeltaPayload where
  topics : List StateItemProposal := []
  entities : List EntityProposal := []
  decisions : List StateItemProposal := []
  highlights : List StateItemProposal := []
  conflicts : List StateItemProposal := []
  actionOperations : List CandidateOperation := []

/-- A proposal bound to the captions of its batch. -/
structure MeetingStateDelta extends DeltaPayload where
  sessionId : SessionId
  sourceSegmentIds : List SegmentId
  sources_ne : sourceSegmentIds ≠ []
  sources_nodup : sourceSegmentIds.Nodup

def DeltaPayload.citedSegmentIds (payload : DeltaPayload) : List SegmentId :=
  (payload.topics ++ payload.entities.map EntityProposal.toStateItemProposal ++
      payload.decisions ++ payload.highlights ++ payload.conflicts).flatMap
    StateItemProposal.sourceSegmentIds ++
  payload.actionOperations.flatMap CandidateOperation.cited

def bindDelta (sessionId : SessionId) (sourceSegmentIds : List SegmentId)
    (payload : DeltaPayload) : Except Fault MeetingStateDelta :=
  if h : sourceSegmentIds ≠ [] ∧ sourceSegmentIds.Nodup then
    .ok { payload with sessionId, sourceSegmentIds, sources_ne := h.1, sources_nodup := h.2 }
  else .error (.value "structured provider output violates Meeting State contract")

/-- The proposal for a batch, where it cites no captions but those of the batch. -/
def parseMeetingStateDelta (sessionId : SessionId) (segments : List ProjectionSegment)
    (payload : DeltaPayload) : Except Fault MeetingStateDelta := do
  let allowedIds := segments.map ProjectionSegment.segmentId
  let delta ← bindDelta sessionId allowedIds payload
  ensure (∀ s ∈ delta.citedSegmentIds, s ∈ allowedIds)
    (.value "Meeting State output references foreign Segments")
  return delta

structure MeetingStateItem where
  itemId : ItemId
  text : String
  sourceSegmentIds : List SegmentId
  sourceSegmentRevisions : List (SegmentId × ℕ)
  text_ne : text ≠ ""
  sources_ne : sourceSegmentIds ≠ []
  revisions_keys : sourceSegmentRevisions ≠ [] →
    (∀ entry ∈ sourceSegmentRevisions, entry.1 ∈ sourceSegmentIds) ∧
      ∀ s ∈ sourceSegmentIds, s ∈ sourceSegmentRevisions.map Prod.fst
  revisions_pos : ∀ entry ∈ sourceSegmentRevisions, 1 ≤ entry.2

structure Entity extends MeetingStateItem where
  entityType : String

def revisionIn (revisions : List (SegmentId × ℕ)) (segmentId : SegmentId) : Option ℕ :=
  (revisions.find? fun entry => entry.1 = segmentId).map Prod.snd

theorem mem_of_revisionIn {revisions : List (SegmentId × ℕ)} {segmentId : SegmentId} {r : ℕ}
    (h : revisionIn revisions segmentId = some r) : (segmentId, r) ∈ revisions := by
  obtain ⟨entry, hentry, rfl⟩ := Option.map_eq_some_iff.mp h
  have hfound := List.find?_some hentry
  obtain rfl : entry.1 = segmentId := of_decide_eq_true hfound
  exact List.mem_of_find?_eq_some hentry

def MeetingStateItem.revision? (item : MeetingStateItem) (segmentId : SegmentId) : Option ℕ :=
  revisionIn item.sourceSegmentRevisions segmentId

structure MeetingState where
  sessionId : SessionId
  version : ℕ
  topics : List MeetingStateItem := []
  entities : List Entity := []
  decisions : List MeetingStateItem := []
  actionCandidates : List ActionCandidate := []
  highlights : List MeetingStateItem := []
  conflicts : List MeetingStateItem := []
  userConcerns : List MeetingStateItem := []

def MeetingState.items (state : MeetingState) : List MeetingStateItem :=
  state.topics ++ state.entities.map Entity.toMeetingStateItem ++ state.decisions ++
    state.highlights ++ state.conflicts ++ state.userConcerns

@[simp] theorem MeetingState.mem_items {state : MeetingState} {item : MeetingStateItem} :
    item ∈ state.items ↔ item ∈ state.topics ∨
      (∃ entity ∈ state.entities, entity.toMeetingStateItem = item) ∨ item ∈ state.decisions ∨
      item ∈ state.highlights ∨ item ∈ state.conflicts ∨ item ∈ state.userConcerns := by
  simp [items]

/-- What an item is identified by. -/
inductive ItemContent where
  | text (text : String)
  | entity (text entityType : String)
  deriving DecidableEq

/-- The digest of an identity, and the form of a text in which case and blanks do not count. -/
structure MergeConfig where
  itemHash : String → ItemContent → List SegmentId → ItemId
  normalizedText : String → String

def stableItemId (cfg : MergeConfig) (kind : String) (content : ItemContent)
    (evidenceIds : List SegmentId) : ItemId :=
  let normalized := match content with
    | .text text => .text (cfg.normalizedText text)
    | .entity text entityType => .entity (cfg.normalizedText text) (cfg.normalizedText entityType)
  cfg.itemHash kind normalized (evidenceIds.dedup.insertionSort (· ≤ ·))

def citedRevisions (revisions : List (SegmentId × ℕ)) :
    List SegmentId → Except Fault (List (SegmentId × ℕ))
  | [] => .ok []
  | s :: rest => do
    let revision ← require (revisionIn revisions s) (.lookup s!"{s}")
    let cited ← citedRevisions revisions rest
    return (s, revision) :: cited

/-- An item of the state, where its parts make one. -/
def makeItem (itemId : ItemId) (text : String) (sourceSegmentIds : List SegmentId)
    (sourceSegmentRevisions : List (SegmentId × ℕ)) : Except Fault MeetingStateItem :=
  if h : text ≠ "" ∧ sourceSegmentIds ≠ [] ∧
      (sourceSegmentRevisions ≠ [] →
        (∀ entry ∈ sourceSegmentRevisions, entry.1 ∈ sourceSegmentIds) ∧
          ∀ s ∈ sourceSegmentIds, s ∈ sourceSegmentRevisions.map Prod.fst) ∧
      ∀ entry ∈ sourceSegmentRevisions, 1 ≤ entry.2 then
    .ok
      { itemId
        text
        sourceSegmentIds
        sourceSegmentRevisions
        text_ne := h.1
        sources_ne := h.2.1
        revisions_keys := h.2.2.1
        revisions_pos := h.2.2.2 }
  else .error (.value "source Segment revisions must match source IDs")

def stateItem (cfg : MergeConfig) (revisions : List (SegmentId × ℕ)) (kind : String)
    (proposal : StateItemProposal) : Except Fault MeetingStateItem := do
  let cited ← citedRevisions revisions proposal.sourceSegmentIds
  makeItem (stableItemId cfg kind (.text proposal.text) proposal.sourceSegmentIds) proposal.text
    proposal.sourceSegmentIds cited

def entity (cfg : MergeConfig) (revisions : List (SegmentId × ℕ)) (proposal : EntityProposal) :
    Except Fault Entity := do
  let cited ← citedRevisions revisions proposal.sourceSegmentIds
  let item ← makeItem
    (stableItemId cfg "entity" (.entity proposal.text proposal.entityType)
      proposal.sourceSegmentIds)
    proposal.text proposal.sourceSegmentIds cited
  return { item with entityType := proposal.entityType }

/-- The last element under each key. -/
def keepLast {ι : Type} (key : ι → ItemId) : List ι → List ι
  | [] => []
  | x :: rest => if key x ∈ rest.map key then keepLast key rest else x :: keepLast key rest

/-- The current items that cite none of the captions, and the projected ones over them. -/
def mergeItems {ι : Type} (item : ι → MeetingStateItem) (current projected : List ι)
    (reprojectedSegmentIds : List SegmentId) : List ι :=
  let retained := current.filter fun x =>
    ∀ s ∈ (item x).sourceSegmentIds, s ∉ reprojectedSegmentIds
  (keepLast (fun x => (item x).itemId) (retained ++ projected)).insertionSort fun x y =>
    (item x).itemId ≤ (item y).itemId

def mergeMeetingState (cfg : MergeConfig) (current : MeetingState) (delta : MeetingStateDelta)
    (actionCandidates : List ActionCandidate) (revisions : List (SegmentId × ℕ))
    (nextVersion : ℕ) : Except Fault MeetingState := do
  ensure (current.sessionId = delta.sessionId)
    (.value "Meeting State delta belongs to another Session")
  ensure (current.version < nextVersion) (.value "Meeting State version must advance")
  let replaced := delta.sourceSegmentIds
  ensure ((∀ entry ∈ revisions, entry.1 ∈ replaced) ∧ ∀ s ∈ replaced, s ∈ revisions.map Prod.fst)
    (.value "projection revisions must match delta Segment IDs")
  ensure (∀ entry ∈ revisions, 1 ≤ entry.2) (.value "projection revisions must be positive")
  let topics ← delta.topics.mapM (stateItem cfg revisions "topic")
  let entities ← delta.entities.mapM (entity cfg revisions)
  let decisions ← delta.decisions.mapM (stateItem cfg revisions "decision")
  let highlights ← delta.highlights.mapM (stateItem cfg revisions "highlight")
  let conflicts ← delta.conflicts.mapM (stateItem cfg revisions "conflict")
  return {
    sessionId := current.sessionId
    version := nextVersion
    topics := mergeItems id current.topics topics replaced
    entities := mergeItems Entity.toMeetingStateItem current.entities entities replaced
    decisions := mergeItems id current.decisions decisions replaced
    actionCandidates := actionCandidates.insertionSort fun a b => a.candidateId ≤ b.candidateId
    highlights := mergeItems id current.highlights highlights replaced
    conflicts := mergeItems id current.conflicts conflicts replaced
    -- User concerns are command-owned and never removed by caption projection.
    userConcerns := current.userConcerns }

/-- The digest of everything in a state but its version. -/
def canonicalStateHash {δ : Type} (digest : MeetingState → δ) (state : MeetingState) : δ :=
  digest { state with version := 0 }

/-- The item cites captions of a batch only, each at its revision there. -/
def CitesBatch (revisions : List (SegmentId × ℕ)) (item : MeetingStateItem) : Prop :=
  ∀ s ∈ item.sourceSegmentIds, ∃ r, revisionIn revisions s = some r ∧ item.revision? s = some r

section Merge

variable {cfg : MergeConfig} {revisions : List (SegmentId × ℕ)}

theorem citedRevisions_ok {sources : List SegmentId} {cited : List (SegmentId × ℕ)}
    (h : citedRevisions revisions sources = .ok cited) :
    ∀ s ∈ sources, ∃ r, revisionIn revisions s = some r ∧ revisionIn cited s = some r := by
  induction sources generalizing cited with
  | nil => exact fun s hs => absurd hs List.not_mem_nil
  | cons first rest ih =>
    simp only [citedRevisions, bind_eq_ok, require_eq_ok, pure_eq_ok] at h
    obtain ⟨revision, hrevision, later, hlater, rfl⟩ := h
    intro s hs
    by_cases hfirst : first = s
    · subst hfirst
      exact ⟨revision, hrevision, by simp [revisionIn]⟩
    · obtain ⟨r, hr, hcited⟩ := ih hlater s ((List.mem_cons.mp hs).resolve_left (Ne.symm hfirst))
      refine ⟨r, hr, ?_⟩
      rw [← hcited]
      simp [revisionIn, hfirst]

theorem makeItem_ok {itemId : ItemId} {text : String} {sources : List SegmentId}
    {cited : List (SegmentId × ℕ)} {item : MeetingStateItem}
    (h : makeItem itemId text sources cited = .ok item) :
    item.sourceSegmentIds = sources ∧ item.sourceSegmentRevisions = cited := by
  unfold makeItem at h
  split_ifs at h
  cases h
  exact ⟨rfl, rfl⟩

theorem makeItem_citesBatch {itemId : ItemId} {text : String} {sources : List SegmentId}
    {cited : List (SegmentId × ℕ)} {item : MeetingStateItem}
    (hcited : citedRevisions revisions sources = .ok cited)
    (h : makeItem itemId text sources cited = .ok item) : CitesBatch revisions item := by
  obtain ⟨hsources, hrevisions⟩ := makeItem_ok h
  intro s hs
  rw [hsources] at hs
  rw [MeetingStateItem.revision?, hrevisions]
  exact citedRevisions_ok hcited s hs

theorem stateItem_citesBatch {kind : String} {proposal : StateItemProposal}
    {item : MeetingStateItem} (h : stateItem cfg revisions kind proposal = .ok item) :
    CitesBatch revisions item := by
  simp only [stateItem, bind_eq_ok] at h
  obtain ⟨cited, hcited, hitem⟩ := h
  exact makeItem_citesBatch hcited hitem

theorem entity_citesBatch {proposal : EntityProposal} {item : Entity}
    (h : entity cfg revisions proposal = .ok item) :
    CitesBatch revisions item.toMeetingStateItem := by
  simp only [entity, bind_eq_ok, pure_eq_ok] at h
  obtain ⟨cited, hcited, made, hmade, rfl⟩ := h
  exact makeItem_citesBatch hcited hmade

theorem mem_of_mem_keepLast {ι : Type} {key : ι → ItemId} {l : List ι} {x : ι}
    (h : x ∈ keepLast key l) : x ∈ l := by
  induction l with
  | nil => cases h
  | cons first rest ih =>
    unfold keepLast at h
    split_ifs at h
    · exact List.mem_cons_of_mem _ (ih h)
    · rcases List.mem_cons.mp h with rfl | h
      · exact List.mem_cons_self
      · exact List.mem_cons_of_mem _ (ih h)

/-- A merged item was there and cites nothing of the batch, or is projected. -/
theorem mem_mergeItems {ι : Type} {item : ι → MeetingStateItem} {current projected : List ι}
    {reprojected : List SegmentId} {x : ι} (h : x ∈ mergeItems item current projected reprojected) :
    (x ∈ current ∧ ∀ s ∈ (item x).sourceSegmentIds, s ∉ reprojected) ∨ x ∈ projected := by
  have hmem := mem_of_mem_keepLast ((List.mem_insertionSort _).mp h)
  rcases List.mem_append.mp hmem with hretained | hprojected
  · obtain ⟨hcurrent, hdisjoint⟩ := List.mem_filter.mp hretained
    exact Or.inl ⟨hcurrent, of_decide_eq_true hdisjoint⟩
  · exact Or.inr hprojected

theorem mergeItems_cites {ι : Type} {item : ι → MeetingStateItem} {state : MeetingState}
    {current projected : List ι} {reprojected : List SegmentId} {x : ι}
    (hmatch : ∀ entry ∈ revisions, entry.1 ∈ reprojected)
    (hcurrent : ∀ x ∈ current, item x ∈ state.items)
    (hprojected : ∀ x ∈ projected, CitesBatch revisions (item x))
    (h : x ∈ mergeItems item current projected reprojected) :
    (item x ∈ state.items ∧ ∀ s ∈ (item x).sourceSegmentIds, ∀ r, (s, r) ∉ revisions) ∨
      CitesBatch revisions (item x) := by
  rcases mem_mergeItems h with ⟨hold, hdisjoint⟩ | hnew
  · exact Or.inl ⟨hcurrent x hold, fun s hs r hr => hdisjoint s hs (hmatch (s, r) hr)⟩
  · exact Or.inr (hprojected x hnew)

/-- A merge keeps items that cite none of the captions it has revisions of, and those that users
own; every other item of its result cites such captions at their revisions. -/
theorem mergeMeetingState_items {current next : MeetingState} {delta : MeetingStateDelta}
    {actionCandidates : List ActionCandidate} {nextVersion : ℕ}
    (h : mergeMeetingState cfg current delta actionCandidates revisions nextVersion = .ok next) :
    next.userConcerns = current.userConcerns ∧ next.sessionId = current.sessionId ∧
      ∀ item ∈ next.items, item ∈ current.userConcerns ∨
        (item ∈ current.items ∧ ∀ s ∈ item.sourceSegmentIds, ∀ r, (s, r) ∉ revisions) ∨
        CitesBatch revisions item := by
  simp only [mergeMeetingState, bind_eq_ok, ensure_eq_ok, pure_eq_ok] at h
  obtain ⟨_, -, _, -, _, ⟨hmatch, -⟩, _, -, topics, htopics, entities, hentities, decisions,
    hdecisions, highlights, hhighlights, conflicts, hconflicts, rfl⟩ := h
  have hmade : ∀ {kind : String} {proposals : List StateItemProposal}
      {made : List MeetingStateItem}, proposals.mapM (stateItem cfg revisions kind) = .ok made →
        ∀ item ∈ made, CitesBatch revisions item :=
    fun hmap => of_mem_mapM (fun _ _ => stateItem_citesBatch) hmap
  refine ⟨rfl, rfl, fun item hitem => ?_⟩
  simp only [MeetingState.mem_items] at hitem
  rcases hitem with hitem | ⟨named, hnamed, rfl⟩ | hitem | hitem | hitem | hitem
  · exact Or.inr (mergeItems_cites hmatch (by simp +contextual) (hmade htopics) hitem)
  · refine Or.inr (mergeItems_cites hmatch (fun old hold => ?_)
      (of_mem_mapM (fun _ _ => entity_citesBatch) hentities) hnamed)
    simp only [MeetingState.mem_items]
    exact Or.inr (Or.inl ⟨old, hold, rfl⟩)
  · exact Or.inr (mergeItems_cites hmatch (by simp +contextual) (hmade hdecisions) hitem)
  · exact Or.inr (mergeItems_cites hmatch (by simp +contextual) (hmade hhighlights) hitem)
  · exact Or.inr (mergeItems_cites hmatch (by simp +contextual) (hmade hconflicts) hitem)
  · exact Or.inl hitem

end Merge

end Meeting
end Matinier
