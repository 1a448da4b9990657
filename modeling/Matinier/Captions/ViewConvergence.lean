import Matinier.Captions.CaptionView

/-!
# What a client shows

The captions of a segment that a reconciler gives out have increasing revisions, and the Final
is the last of them. So of whatever reaches a client, and in whichever order, it shows for each
segment the one of the highest revision.
-/

namespace Matinier
namespace Captions

/-- Of two captions of a segment the earlier one is a draft of a lower revision. -/
def Ordered (captions : List CaptionEvent) : Prop :=
  captions.Pairwise fun a b => a.segmentId = b.segmentId → a.status = .draft ∧
    a.revision < b.revision

namespace Reconciler

variable {r r' : Reconciler} {event : ProviderEvent} {caption : CaptionEvent}

theorem consume_eq_ok {given : Option CaptionEvent} (h : r.consume event = .ok (r', given)) :
    (r', given) = (r, none) ∨
      ∃ segmentId text, (r', given) = r.consumeSaid event segmentId text := by
  unfold consume at h
  by_cases hresult : event.IsResult
  · rw [if_neg (not_not_intro hresult)] at h
    split at h
    · cases h
    · cases h
    · cases h
    · split_ifs at h
      · exact Or.inr ⟨_, _, (Except.ok.inj h).symm⟩
      · exact Or.inl (Except.ok.inj h).symm
  · rw [if_pos hresult] at h
    exact Or.inl (Except.ok.inj h).symm

theorem consume_silent (h : r.consume event = .ok (r', none)) :
    r'.lastRevision = r.lastRevision ∧ r'.final = r.final := by
  rcases consume_eq_ok h with h | ⟨segmentId, text, h⟩
  · cases h
    exact ⟨rfl, rfl⟩
  · unfold consumeSaid at h
    split_ifs at h <;> cases h <;> exact ⟨rfl, rfl⟩

/-- A caption that is given out is the next revision of a segment that has no Final. -/
theorem consume_gives (h : r.consume event = .ok (r', some caption)) :
    caption.revision = r.lastRevision caption.segmentId + 1 ∧ caption.segmentId ∉ r.final ∧
      r'.lastRevision = Function.update r.lastRevision caption.segmentId caption.revision ∧
      (caption.status = .final → caption.segmentId ∈ r'.final) ∧ ∀ s ∈ r.final, s ∈ r'.final := by
  rcases consume_eq_ok h with h | ⟨segmentId, text, h⟩
  · cases h
  · unfold consumeSaid at h
    split_ifs at h with hseen hsaid hfinal
    · cases h
    · cases h
    · cases h
    cases h
    refine ⟨rfl, hfinal, rfl, ?_, ?_⟩
    · intro hstatus
      have htype : event.eventType = .finalResult := by
        by_contra hne
        simp [Reconciler.caption, hne] at hstatus
      simp [revise, htype, Reconciler.caption]
    · intro s hs
      simp only [revise]
      split_ifs
      · exact List.mem_cons_of_mem _ hs
      · exact hs

theorem above_of_mem_emitted {events : List ProviderEvent} (h : caption ∈ r.emitted events) :
    r.lastRevision caption.segmentId < caption.revision ∧ caption.segmentId ∉ r.final := by
  induction events generalizing r with
  | nil => cases h
  | cons event events ih =>
    rw [emitted] at h
    split at h
    · exact ih h
    · next r' hsilent =>
      obtain ⟨hrevision, hfinal⟩ := consume_silent hsilent
      have := ih h
      rwa [hrevision, hfinal] at this
    · next r' given hgives =>
      obtain ⟨hnext, hopen, hrevision, -, hkept⟩ := consume_gives hgives
      rcases List.mem_cons.mp h with rfl | h
      · exact ⟨by omega, hopen⟩
      · obtain ⟨habove, hstill⟩ := ih h
        refine ⟨lt_of_le_of_lt ?_ habove, fun hfinal => hstill (hkept _ hfinal)⟩
        rw [hrevision]
        by_cases hsame : caption.segmentId = given.segmentId
        · rw [hsame, Function.update_self, hnext]
          exact Nat.le_succ _
        · rw [Function.update_of_ne hsame]

theorem emitted_ordered (r : Reconciler) (events : List ProviderEvent) :
    Ordered (r.emitted events) := by
  induction events generalizing r with
  | nil => exact List.Pairwise.nil
  | cons event events ih =>
    rw [emitted]
    split
    · exact ih r
    · exact ih _
    · next r' given hgives =>
      obtain ⟨-, -, hrevision, hfinal, -⟩ := consume_gives hgives
      refine List.pairwise_cons.mpr ⟨fun later hlater hsame => ?_, ih r'⟩
      obtain ⟨habove, hopen⟩ := above_of_mem_emitted hlater
      rw [← hsame] at habove hopen
      constructor
      · cases hstatus : given.status with
        | draft => rfl
        | final => exact absurd (hfinal hstatus) hopen
      · rwa [hrevision, Function.update_self] at habove

end Reconciler

section Persisted

variable {cfg : ViewConfig} {captions : List CaptionEvent} {segment : Segment}

/-- A row is stored of a Final. -/
def StoredOf (cfg : ViewConfig) (captions : List CaptionEvent) (segment : Segment) : Prop :=
  ∃ caption ∈ captions, caption.status = .final ∧ ∃ id, segment = segmentOf cfg id caption

theorem upsertFinal_storedOf {rows : List Segment} {caption : CaptionEvent}
    (hrows : ∀ row ∈ rows, StoredOf cfg captions row) (hcaption : caption ∈ captions)
    (hfinal : caption.status = .final) :
    ∀ row ∈ upsertFinal cfg rows caption, StoredOf cfg captions row := by
  intro row hrow
  unfold upsertFinal at hrow
  split at hrow
  · rcases List.mem_append.mp hrow with hrow | hrow
    · exact hrows row hrow
    · exact ⟨caption, hcaption, hfinal, _, List.mem_singleton.mp hrow⟩
  · split_ifs at hrow
    · exact hrows row hrow
    · obtain ⟨old, hold, rfl⟩ := List.mem_map.mp hrow
      split_ifs
      · exact ⟨caption, hcaption, hfinal, _, rfl⟩
      · exact hrows old hold

theorem persisted_storedOf : ∀ row ∈ persisted cfg captions, StoredOf cfg captions row := by
  have hfold : ∀ (finals : List CaptionEvent) (rows : List Segment),
      (∀ caption ∈ finals, caption ∈ captions ∧ caption.status = .final) →
      (∀ row ∈ rows, StoredOf cfg captions row) →
      ∀ row ∈ finals.foldl (upsertFinal cfg) rows, StoredOf cfg captions row := by
    intro finals
    induction finals with
    | nil => exact fun rows _ hrows => hrows
    | cons caption finals ih =>
      intro rows hfinals hrows
      have hfirst := hfinals caption List.mem_cons_self
      exact ih _ (fun later hlater => hfinals later (List.mem_cons_of_mem _ hlater))
        (upsertFinal_storedOf hrows hfirst.1 hfirst.2)
  apply hfold
  · intro caption hcaption
    have hmem := List.mem_filter.mp hcaption
    exact ⟨hmem.1, of_decide_eq_true hmem.2⟩
  · exact fun row hrow => absurd hrow List.not_mem_nil

end Persisted

/-- What a caption says, however it came. -/
def CaptionEvent.content (caption : CaptionEvent) : CaptionEvent :=
  { caption with providerEventId := "", receivedAtMs := 0 }

theorem CaptionEvent.of_content {a b : CaptionEvent} (h : a.content = b.content) :
    a.segmentId = b.segmentId ∧ a.revision = b.revision ∧ a.status = b.status := by
  simp only [content, CaptionEvent.mk.injEq] at h
  exact ⟨h.1, h.2.1, h.2.2.1⟩

/-- What holds of captions that stem from one stream: of a segment, whatever is below another is
a draft, and what has one revision says the same, and is the same where it is a draft. -/
structure Consistent (P : CaptionEvent → Prop) : Prop where
  positive : ∀ a, P a → 1 ≤ a.revision
  lower : ∀ a b, P a → P b → a.segmentId = b.segmentId → a.revision < b.revision →
    a.status = .draft
  same : ∀ a b, P a → P b → a.segmentId = b.segmentId → a.revision = b.revision →
    a.content = b.content ∧ (a.status = .draft → a = b)

/-- The state shows nothing of a segment. -/
structure ShowsNothing (state : CaptionState) (segmentId : String) : Prop where
  active : state.activeDraftSegments segmentId = none
  final : state.finalSegments segmentId = none
  last : state.lastRevisionBySegment segmentId = none

/-- The state shows a caption of a segment, above which none was merged. -/
structure Shows (merged : List CaptionEvent) (state : CaptionState) (top : CaptionEvent) :
    Prop where
  mem : top ∈ merged
  highest : ∀ caption ∈ merged, caption.segmentId = top.segmentId →
    caption.revision ≤ top.revision
  last : state.lastRevisionBySegment top.segmentId = some top.revision
  draft : top.status = .draft →
    state.activeDraftSegments top.segmentId = some top ∧ state.finalSegments top.segmentId = none
  final : top.status = .final →
    state.finalSegments top.segmentId = some top ∧ state.activeDraftSegments top.segmentId = none

/-- The state is what merging the captions leaves. -/
def Reflects (merged : List CaptionEvent) (state : CaptionState) : Prop :=
  ∀ segmentId, (∀ caption ∈ merged, caption.segmentId ≠ segmentId) ∧ ShowsNothing state segmentId ∨
    ∃ top, top.segmentId = segmentId ∧ Shows merged state top

section Merge

variable {P : CaptionEvent → Prop} {merged : List CaptionEvent} {state : CaptionState}
  {caption top : CaptionEvent} {segmentId : String}

theorem mergeCaption_of_le (h : caption.revision ≤
    (state.lastRevisionBySegment caption.segmentId).getD 0) : mergeCaption state caption = state :=
  if_pos h

theorem mergeCaption_takes
    (habove : (state.lastRevisionBySegment caption.segmentId).getD 0 < caption.revision)
    (hopen : state.finalSegments caption.segmentId = none)
    (hhighest : ∀ other ∈ merged, other.segmentId = caption.segmentId →
      other.revision ≤ caption.revision) :
    Shows (merged ++ [caption]) (mergeCaption state caption) caption := by
  have hstate : mergeCaption state caption = _ := if_neg (Nat.not_le.mpr habove)
  rw [if_neg (by rw [hopen]; simp)] at hstate
  have hmem : caption ∈ merged ++ [caption] := List.mem_append_right _ (List.mem_singleton_self _)
  have htop : ∀ other ∈ merged ++ [caption], other.segmentId = caption.segmentId →
      other.revision ≤ caption.revision := by
    intro other hother hsegment
    rcases List.mem_append.mp hother with hother | hother
    · exact hhighest other hother hsegment
    · rw [List.mem_singleton.mp hother]
  cases hstatus : caption.status with
  | draft =>
    rw [if_pos hstatus] at hstate
    refine ⟨hmem, htop, ?_, fun _ => ⟨?_, ?_⟩, fun hfinal => ?_⟩
    · rw [hstate]
      exact Function.update_self ..
    · rw [hstate]
      exact Function.update_self ..
    · rw [hstate]
      exact hopen
    · rw [hstatus] at hfinal
      cases hfinal
  | final =>
    rw [if_neg (by rw [hstatus]; decide)] at hstate
    refine ⟨hmem, htop, ?_, fun hdraft => ?_, fun _ => ⟨?_, ?_⟩⟩
    · rw [hstate]
      exact Function.update_self ..
    · rw [hstatus] at hdraft
      cases hdraft
    · rw [hstate]
      exact Function.update_self ..
    · rw [hstate]
      exact Function.update_self ..

variable (state) in
theorem mergeCaption_of_ne (h : segmentId ≠ caption.segmentId) :
    (mergeCaption state caption).activeDraftSegments segmentId =
        state.activeDraftSegments segmentId ∧
      (mergeCaption state caption).finalSegments segmentId = state.finalSegments segmentId ∧
      (mergeCaption state caption).lastRevisionBySegment segmentId =
        state.lastRevisionBySegment segmentId := by
  unfold mergeCaption
  dsimp only
  split_ifs <;> simp [Function.update_of_ne h]

/-- A state that shows a caption shows it still when another one that is not above it comes. -/
theorem Shows.keep (h : Shows merged state top)
    (hbelow : caption.segmentId = top.segmentId → caption.revision ≤ top.revision) :
    Shows (merged ++ [caption]) (mergeCaption state caption) top := by
  have hhighest : ∀ other ∈ merged ++ [caption], other.segmentId = top.segmentId →
      other.revision ≤ top.revision := by
    intro other hother hsegment
    rcases List.mem_append.mp hother with hother | hother
    · exact h.highest other hother hsegment
    · rw [List.mem_singleton.mp hother] at hsegment ⊢
      exact hbelow hsegment
  by_cases hsegment : caption.segmentId = top.segmentId
  · have hsame : mergeCaption state caption = state := by
      apply mergeCaption_of_le
      rw [hsegment, h.last]
      exact hbelow hsegment
    rw [hsame]
    exact ⟨List.mem_append_left _ h.mem, hhighest, h.last, h.draft, h.final⟩
  · obtain ⟨hactive, hfinal, hlast⟩ := mergeCaption_of_ne state (Ne.symm hsegment)
    refine ⟨List.mem_append_left _ h.mem, hhighest, ?_, ?_, ?_⟩
    · rw [hlast]
      exact h.last
    · rw [hactive, hfinal]
      exact h.draft
    · rw [hactive, hfinal]
      exact h.final

theorem Reflects.merge (hP : Consistent P) (hmerged : ∀ other ∈ merged, P other)
    (hcaption : P caption) (h : Reflects merged state) :
    Reflects (merged ++ [caption]) (mergeCaption state caption) := by
  intro segmentId
  rcases h segmentId with ⟨hnone, hnothing⟩ | ⟨top, rfl, hshows⟩
  · by_cases hsegment : segmentId = caption.segmentId
    · subst hsegment
      refine Or.inr ⟨caption, rfl, mergeCaption_takes ?_ hnothing.final ?_⟩
      · rw [hnothing.last]
        exact hP.positive caption hcaption
      · exact fun other hother hsame => absurd hsame (hnone other hother)
    · obtain ⟨hactive, hfinal, hlast⟩ := mergeCaption_of_ne state hsegment
      refine Or.inl ⟨fun other hother => ?_, ?_, ?_, ?_⟩
      · rcases List.mem_append.mp hother with hother | hother
        · exact hnone other hother
        · rw [List.mem_singleton.mp hother]
          exact Ne.symm hsegment
      · rw [hactive]
        exact hnothing.active
      · rw [hfinal]
        exact hnothing.final
      · rw [hlast]
        exact hnothing.last
  · by_cases habove : caption.segmentId = top.segmentId ∧ top.revision < caption.revision
    · -- What is above another one of its segment finds a draft there.
      obtain ⟨hsegment, hlt⟩ := habove
      have hdraft := hP.lower top caption (hmerged top hshows.mem) hcaption hsegment.symm hlt
      refine Or.inr ⟨caption, hsegment, mergeCaption_takes ?_ ?_ ?_⟩
      · rw [hsegment, hshows.last]
        exact hlt
      · rw [hsegment]
        exact (hshows.draft hdraft).2
      · intro other hother hsame
        exact (hshows.highest other hother (hsame.trans hsegment)).trans hlt.le
    · refine Or.inr ⟨top, rfl, hshows.keep fun hsegment => ?_⟩
      exact Nat.not_lt.mp fun hlt => habove ⟨hsegment, hlt⟩

theorem reflects_foldl (hP : Consistent P) (hmerged : ∀ other ∈ merged, P other) :
    Reflects merged (merged.foldl mergeCaption {}) := by
  induction merged using List.reverseRecOn with
  | nil => exact fun _ => Or.inl ⟨fun _ hmem => absurd hmem List.not_mem_nil, ⟨rfl, rfl, rfl⟩⟩
  | append_singleton merged caption ih =>
    rw [List.foldl_append]
    have hbefore : ∀ other ∈ merged, P other :=
      fun other hother => hmerged other (List.mem_append_left _ hother)
    exact Reflects.merge hP hbefore (hmerged caption (by simp)) (ih hbefore)

theorem Reflects.again (h : Reflects merged state) (hcaption : caption ∈ merged) :
    mergeCaption state caption = state := by
  rcases h caption.segmentId with ⟨hnone, -⟩ | ⟨top, hsegment, hshows⟩
  · exact absurd rfl (hnone caption hcaption)
  · apply mergeCaption_of_le
    rw [← hsegment, hshows.last]
    exact hshows.highest caption hcaption hsegment.symm

end Merge

section Agree

variable {P : CaptionEvent → Prop} {merged merged' : List CaptionEvent}
  {state state' : CaptionState} {caption : CaptionEvent} {segmentId : String}

theorem Reflects.agree (hP : Consistent P) (hmerged : ∀ other ∈ merged, P other)
    (hsame : ∀ other, other ∈ merged ↔ other ∈ merged') (h : Reflects merged state)
    (h' : Reflects merged' state') (segmentId : String) :
    state.activeDraftSegments segmentId = state'.activeDraftSegments segmentId ∧
      (state.finalSegments segmentId).map CaptionEvent.content =
        (state'.finalSegments segmentId).map CaptionEvent.content ∧
      state.lastRevisionBySegment segmentId = state'.lastRevisionBySegment segmentId := by
  rcases h segmentId with ⟨hnone, hnothing⟩ | ⟨top, rfl, hshows⟩
  · rcases h' segmentId with ⟨-, hnothing'⟩ | ⟨top', rfl, hshows'⟩
    · rw [hnothing.active, hnothing.final, hnothing.last, hnothing'.active, hnothing'.final,
        hnothing'.last]
      exact ⟨rfl, rfl, rfl⟩
    · exact absurd rfl (hnone top' ((hsame _).mpr hshows'.mem))
  · rcases h' top.segmentId with ⟨hnone', -⟩ | ⟨top', hsegment, hshows'⟩
    · exact absurd rfl (hnone' top ((hsame _).mp hshows.mem))
    · have hmem' := (hsame _).mpr hshows'.mem
      have hrevision : top.revision = top'.revision :=
        le_antisymm (hshows'.highest top ((hsame _).mp hshows.mem) hsegment.symm)
          (hshows.highest top' hmem' hsegment)
      obtain ⟨hcontent, hequal⟩ :=
        hP.same top top' (hmerged _ hshows.mem) (hmerged _ hmem') hsegment.symm hrevision
      cases hstatus : top.status with
      | draft =>
        obtain rfl := hequal hstatus
        rw [(hshows.draft hstatus).1, (hshows.draft hstatus).2, (hshows'.draft hstatus).1,
          (hshows'.draft hstatus).2, hshows.last, hshows'.last]
        exact ⟨rfl, rfl, rfl⟩
      | final =>
        have hstatus' : top'.status = .final :=
          (CaptionEvent.of_content hcontent).2.2.symm.trans hstatus
        have hfinal' := hshows'.final hstatus'
        have hlast' := hshows'.last
        rw [hsegment] at hfinal' hlast'
        rw [(hshows.final hstatus).1, (hshows.final hstatus).2, hfinal'.1, hfinal'.2, hshows.last,
          hlast', hrevision]
        exact ⟨rfl, congrArg some hcontent, rfl⟩

theorem Reflects.shows_final (hP : Consistent P) (hmerged : ∀ other ∈ merged, P other)
    (h : Reflects merged state) (hmem : caption ∈ merged) (hfinal : caption.status = .final) :
    ∃ top ∈ merged, top.segmentId = caption.segmentId ∧
      state.finalSegments caption.segmentId = some top ∧ top.content = caption.content := by
  rcases h caption.segmentId with ⟨hnone, -⟩ | ⟨top, hsegment, hshows⟩
  · exact absurd rfl (hnone caption hmem)
  · have htop := hmerged top hshows.mem
    have hcaption := hmerged caption hmem
    rcases (hshows.highest caption hmem hsegment.symm).lt_or_eq with hlt | hrevision
    · have hdraft := hP.lower caption top hcaption htop hsegment.symm hlt
      rw [hfinal] at hdraft
      cases hdraft
    · obtain ⟨hcontent, -⟩ := hP.same top caption htop hcaption hsegment hrevision.symm
      have hstatus : top.status = .final := (CaptionEvent.of_content hcontent).2.2.trans hfinal
      exact ⟨top, hshows.mem, hsegment, hsegment ▸ (hshows.final hstatus).1, hcontent⟩

end Agree

section Stream

variable {cfg : ViewConfig} {captions : List CaptionEvent} {deliveries : List Delivery}

/-- The captions that a delivery merges. -/
def Delivery.messages (cfg : ViewConfig) : Delivery → List CaptionEvent
  | .live caption => (decodeLiveCaptionEvent caption).toList
  | .snapshot segments =>
    (segments.filter fun segment => segment.status = .final ∧ shown segment.displayText).map
      (Segment.caption cfg)

theorem deliver_eq (state : CaptionState) (delivery : Delivery) :
    deliver cfg state delivery = (delivery.messages cfg).foldl mergeCaption state := by
  cases delivery with
  | live caption =>
    rw [deliver, Delivery.messages]
    cases decodeLiveCaptionEvent caption <;> rfl
  | snapshot segments =>
    simp only [deliver, hydrateFinalSnapshot, Delivery.messages, List.foldl_map]
    induction segments generalizing state with
    | nil => rfl
    | cons segment segments ih =>
      rw [List.foldl_cons, ih, List.filter_cons]
      by_cases hmerged : segment.status = .final ∧ shown segment.displayText
      · rw [if_neg (by simp [hmerged.1, hmerged.2]), if_pos (by simpa using hmerged)]
        rfl
      · rw [if_pos (by rw [not_and_or] at hmerged; exact hmerged), if_neg (by simpa using hmerged)]

theorem view_eq : view cfg deliveries =
    (deliveries.flatMap (Delivery.messages cfg)).foldl mergeCaption {} := by
  unfold view
  generalize ({} : CaptionState) = state
  induction deliveries generalizing state with
  | nil => rfl
  | cons delivery deliveries ih =>
    rw [List.foldl_cons, ih, deliver_eq, List.flatMap_cons, List.foldl_append]

def RowIn (deliveries : List Delivery) (segment : Segment) : Prop :=
  ∃ segments, .snapshot segments ∈ deliveries ∧ segment ∈ segments

/-- Only captions that were given out are delivered, and only rows that were stored of them. -/
def FromStream (cfg : ViewConfig) (captions : List CaptionEvent) (deliveries : List Delivery) :
    Prop :=
  (∀ caption, .live caption ∈ deliveries → caption ∈ captions) ∧
    ∀ segment, RowIn deliveries segment → segment ∈ persisted cfg captions

/-- A caption is one that was given out, or is merged for a row of one. -/
def StemsFrom (cfg : ViewConfig) (captions : List CaptionEvent) (message : CaptionEvent) : Prop :=
  ∃ caption ∈ captions, message = caption ∨
    caption.status = .final ∧ ∃ id, message = (segmentOf cfg id caption).caption cfg

/-- A caption reached the client live, and the client takes it. -/
def LiveIn (deliveries : List Delivery) (caption : CaptionEvent) : Prop :=
  .live caption ∈ deliveries ∧ isCaptionPayload caption

theorem mem_messages {message : CaptionEvent} :
    message ∈ deliveries.flatMap (Delivery.messages cfg) ↔ LiveIn deliveries message ∨
      ∃ segment, RowIn deliveries segment ∧ segment.status = .final ∧
        shown segment.displayText ∧ message = segment.caption cfg := by
  rw [List.mem_flatMap]
  constructor
  · rintro ⟨delivery, hdelivery, hmessage⟩
    cases delivery with
    | live caption =>
      rw [Delivery.messages, Option.mem_toList, decodeLiveCaptionEvent,
        Option.ite_none_right_eq_some] at hmessage
      obtain ⟨htaken, hsame⟩ := hmessage
      cases hsame
      exact Or.inl ⟨hdelivery, htaken⟩
    | snapshot segments =>
      obtain ⟨segment, hsegment, rfl⟩ := List.mem_map.mp hmessage
      obtain ⟨hmem, hshown⟩ := List.mem_filter.mp hsegment
      have hshown := of_decide_eq_true hshown
      exact Or.inr ⟨segment, ⟨segments, hdelivery, hmem⟩, hshown.1, hshown.2, rfl⟩
  · rintro (⟨hlive, htaken⟩ | ⟨segment, ⟨segments, hdelivery, hmem⟩, hstatus, hshown, rfl⟩)
    · refine ⟨_, hlive, ?_⟩
      rw [Delivery.messages, decodeLiveCaptionEvent, if_pos htaken]
      exact List.mem_singleton_self _
    · exact ⟨_, hdelivery,
        List.mem_map_of_mem (List.mem_filter.mpr ⟨hmem, decide_eq_true ⟨hstatus, hshown⟩⟩)⟩

theorem FromStream.stemsFrom (h : FromStream cfg captions deliveries) :
    ∀ message ∈ deliveries.flatMap (Delivery.messages cfg), StemsFrom cfg captions message := by
  intro message hmessage
  rcases mem_messages.mp hmessage with hlive | ⟨segment, hrow, -, -, rfl⟩
  · exact ⟨message, h.1 message hlive.1, Or.inl rfl⟩
  · obtain ⟨caption, hcaption, hfinal, id, rfl⟩ := persisted_storedOf segment (h.2 segment hrow)
    exact ⟨caption, hcaption, Or.inr ⟨hfinal, id, rfl⟩⟩

theorem Ordered.cases (h : Ordered captions) {a b : CaptionEvent} (ha : a ∈ captions)
    (hb : b ∈ captions) (hsegment : a.segmentId = b.segmentId) :
    a = b ∨ a.status = .draft ∧ a.revision < b.revision ∨
      b.status = .draft ∧ b.revision < a.revision := by
  induction captions with
  | nil => cases ha
  | cons first rest ih =>
    obtain ⟨hfirst, hrest⟩ := List.pairwise_cons.mp h
    rcases List.mem_cons.mp ha with rfl | ha'
    · rcases List.mem_cons.mp hb with rfl | hb'
      · exact Or.inl rfl
      · exact Or.inr (Or.inl (hfirst b hb' hsegment))
    · rcases List.mem_cons.mp hb with rfl | hb'
      · exact Or.inr (Or.inr (hfirst a ha' hsegment.symm))
      · exact ih hrest ha' hb'

theorem StemsFrom.eq_of_draft {message : CaptionEvent} (h : StemsFrom cfg captions message)
    (hdraft : message.status = .draft) : message ∈ captions := by
  obtain ⟨caption, hcaption, rfl | ⟨-, id, rfl⟩⟩ := h
  · exact hcaption
  · cases hdraft

theorem StemsFrom.content {message : CaptionEvent} (h : StemsFrom cfg captions message) :
    ∃ caption ∈ captions, message.content = caption.content := by
  obtain ⟨caption, hcaption, rfl | ⟨hfinal, id, rfl⟩⟩ := h
  · exact ⟨message, hcaption, rfl⟩
  · refine ⟨caption, hcaption, ?_⟩
    simp only [CaptionEvent.content, Segment.caption, segmentOf, hfinal]

theorem consistent_of_ordered (h : Ordered captions) (hpositive : ∀ a ∈ captions, 1 ≤ a.revision) :
    Consistent (StemsFrom cfg captions) where
  positive a ha := by
    obtain ⟨caption, hcaption, hcontent⟩ := ha.content
    rw [(CaptionEvent.of_content hcontent).2.1]
    exact hpositive caption hcaption
  lower a b ha hb hsegment hlt := by
    obtain ⟨first, hfirst, hcontent⟩ := ha.content
    obtain ⟨second, hsecond, hcontent'⟩ := hb.content
    obtain ⟨hsegment₁, hrevision₁, hstatus₁⟩ := CaptionEvent.of_content hcontent
    obtain ⟨hsegment₂, hrevision₂, -⟩ := CaptionEvent.of_content hcontent'
    rw [hsegment₁, hsegment₂] at hsegment
    rw [hrevision₁, hrevision₂] at hlt
    rcases h.cases hfirst hsecond hsegment with rfl | ⟨hdraft, -⟩ | ⟨-, hgt⟩
    · exact absurd hlt (lt_irrefl _)
    · exact hstatus₁.trans hdraft
    · exact absurd hgt hlt.asymm
  same a b ha hb hsegment hrevision := by
    obtain ⟨first, hfirst, hcontent⟩ := ha.content
    obtain ⟨second, hsecond, hcontent'⟩ := hb.content
    obtain ⟨hsegment₁, hrevision₁, -⟩ := CaptionEvent.of_content hcontent
    obtain ⟨hsegment₂, hrevision₂, -⟩ := CaptionEvent.of_content hcontent'
    rw [hsegment₁, hsegment₂] at hsegment
    rw [hrevision₁, hrevision₂] at hrevision
    have hsame : first = second := by
      rcases h.cases hfirst hsecond hsegment with heq | ⟨-, hlt⟩ | ⟨-, hlt⟩
      · exact heq
      · exact absurd hrevision hlt.ne
      · exact absurd hrevision hlt.ne'
    subst hsame
    have hboth : a.content = b.content := hcontent.trans hcontent'.symm
    obtain ⟨hsegments, hrevisions, hstatuses⟩ := CaptionEvent.of_content hboth
    refine ⟨hboth, fun hdraft => ?_⟩
    -- A draft is not merged for a row.
    rcases h.cases (ha.eq_of_draft hdraft) (hb.eq_of_draft (hstatuses.symm.trans hdraft))
      hsegments with heq | ⟨-, hlt⟩ | ⟨-, hlt⟩
    · exact heq
    · exact absurd hrevisions hlt.ne
    · exact absurd hrevisions hlt.ne'

end Stream

/-- A Final of the segment was delivered live and taken, or as a row with a text that is not
cleared away. -/
def FinalDelivered (deliveries : List Delivery) (segmentId : String) : Prop :=
  (∃ caption, LiveIn deliveries caption ∧ caption.segmentId = segmentId ∧
    caption.status = .final) ∨
  ∃ segment, RowIn deliveries segment ∧ segment.segmentId = segmentId ∧ shown segment.displayText

/-- The caption is the highest of its segment that was delivered live and taken. -/
def HighestLive (deliveries : List Delivery) (caption : CaptionEvent) : Prop :=
  LiveIn deliveries caption ∧ ∀ other, LiveIn deliveries other →
    other.segmentId = caption.segmentId → other.revision ≤ caption.revision

/-- Two clients got the same, in whichever order, number and snapshots. -/
def SameDelivered (deliveries deliveries' : List Delivery) : Prop :=
  (∀ caption, .live caption ∈ deliveries ↔ .live caption ∈ deliveries') ∧
    ∀ segment, RowIn deliveries segment ↔ RowIn deliveries' segment

section View

variable {cfg : ViewConfig} {captions : List CaptionEvent} {deliveries deliveries' : List Delivery}

theorem FromStream.reflects (hP : Consistent (StemsFrom cfg captions))
    (h : FromStream cfg captions deliveries) :
    Reflects (deliveries.flatMap (Delivery.messages cfg)) (view cfg deliveries) :=
  view_eq ▸ reflects_foldl hP h.stemsFrom

theorem mem_messages_of_live {caption : CaptionEvent} (h : LiveIn deliveries caption) :
    caption ∈ deliveries.flatMap (Delivery.messages cfg) :=
  mem_messages.mpr (Or.inl h)

theorem FromStream.final_iff (hP : Consistent (StemsFrom cfg captions))
    (h : FromStream cfg captions deliveries) (segmentId : String) :
    ((view cfg deliveries).finalSegments segmentId).isSome ↔
      FinalDelivered deliveries segmentId := by
  constructor
  · intro hsome
    rcases h.reflects hP segmentId with ⟨-, hnothing⟩ | ⟨top, rfl, hshows⟩
    · rw [hnothing.final] at hsome
      cases hsome
    · cases hstatus : top.status with
      | draft =>
        rw [(hshows.draft hstatus).2] at hsome
        cases hsome
      | final =>
        rcases mem_messages.mp hshows.mem with hlive | ⟨segment, hrow, -, hshown, rfl⟩
        · exact Or.inl ⟨top, hlive, rfl, hstatus⟩
        · exact Or.inr ⟨segment, hrow, rfl, hshown⟩
  · intro hdelivered
    have hmessage : ∃ message ∈ deliveries.flatMap (Delivery.messages cfg),
        message.segmentId = segmentId ∧ message.status = .final := by
      rcases hdelivered with ⟨caption, hlive, hsegment, hfinal⟩ | ⟨segment, hrow, rfl, hshown⟩
      · exact ⟨caption, mem_messages_of_live hlive, hsegment, hfinal⟩
      · obtain ⟨caption, -, -, id, rfl⟩ := persisted_storedOf segment (h.2 segment hrow)
        exact ⟨_, mem_messages.mpr (Or.inr ⟨_, hrow, rfl, hshown, rfl⟩), rfl, rfl⟩
    obtain ⟨message, hmem, rfl, hfinal⟩ := hmessage
    obtain ⟨top, -, -, hshown, -⟩ := (h.reflects hP).shows_final hP h.stemsFrom hmem hfinal
    rw [hshown]
    rfl

/-- What is shown as the Final of a segment says what the Final that was given out says. -/
theorem FromStream.final_content (hordered : Ordered captions)
    (hP : Consistent (StemsFrom cfg captions)) (h : FromStream cfg captions deliveries)
    {final seen : CaptionEvent} (hfinal : final ∈ captions) (hstatus : final.status = .final)
    (hseen : (view cfg deliveries).finalSegments final.segmentId = some seen) :
    seen.content = final.content := by
  rcases h.reflects hP final.segmentId with ⟨-, hnothing⟩ | ⟨top, hsegment, hshows⟩
  · rw [hnothing.final] at hseen
    cases hseen
  · have htop : top = seen ∧ top.status = .final := by
      cases htopstatus : top.status with
      | draft =>
        rw [← hsegment, (hshows.draft htopstatus).2] at hseen
        cases hseen
      | final =>
        rw [← hsegment, (hshows.final htopstatus).1] at hseen
        exact ⟨Option.some.inj hseen, rfl⟩
    obtain ⟨rfl, htopstatus⟩ := htop
    obtain ⟨first, hfirst, hcontent⟩ := (h.stemsFrom top hshows.mem).content
    obtain ⟨hsegment', -, hstatus'⟩ := CaptionEvent.of_content hcontent
    rcases hordered.cases hfirst hfinal (hsegment'.symm.trans hsegment) with
      rfl | ⟨hdraft, -⟩ | ⟨hdraft, -⟩
    · exact hcontent
    · rw [← hstatus', htopstatus] at hdraft
      cases hdraft
    · rw [hstatus] at hdraft
      cases hdraft

/-- Where no Final is shown, the highest draft that was delivered is. -/
theorem FromStream.draft_iff (hP : Consistent (StemsFrom cfg captions))
    (h : FromStream cfg captions deliveries) {segmentId : String}
    (hopen : (view cfg deliveries).finalSegments segmentId = none) (caption : CaptionEvent) :
    (view cfg deliveries).activeDraftSegments segmentId = some caption ↔
      caption.segmentId = segmentId ∧ HighestLive deliveries caption := by
  rcases h.reflects hP segmentId with ⟨hnone, hnothing⟩ | ⟨top, rfl, hshows⟩
  · rw [hnothing.active]
    constructor
    · intro hsome
      cases hsome
    · rintro ⟨hsegment, hlive, -⟩
      exact absurd hsegment (hnone caption (mem_messages_of_live hlive))
  · have hdraft : top.status = .draft := by
      cases hstatus : top.status with
      | draft => rfl
      | final =>
        rw [(hshows.final hstatus).1] at hopen
        cases hopen
    have htoplive : LiveIn deliveries top := by
      rcases mem_messages.mp hshows.mem with hlive | ⟨segment, -, -, -, rfl⟩
      · exact hlive
      · cases hdraft
    rw [(hshows.draft hdraft).1, Option.some.injEq]
    constructor
    · rintro rfl
      exact ⟨rfl, htoplive, fun other hother => hshows.highest other (mem_messages_of_live hother)⟩
    · rintro ⟨hsegment, hlive, hhighest⟩
      have hmem : caption ∈ deliveries.flatMap (Delivery.messages cfg) := mem_messages_of_live hlive
      have hrevision : top.revision = caption.revision :=
        le_antisymm (hhighest top htoplive hsegment.symm) (hshows.highest caption hmem hsegment)
      exact (hP.same top caption (h.stemsFrom _ hshows.mem) (h.stemsFrom _ hmem) hsegment.symm
        hrevision).2 hdraft

theorem FromStream.never_both (hP : Consistent (StemsFrom cfg captions))
    (h : FromStream cfg captions deliveries) (segmentId : String) :
    (view cfg deliveries).finalSegments segmentId = none ∨
      (view cfg deliveries).activeDraftSegments segmentId = none := by
  rcases h.reflects hP segmentId with ⟨-, hnothing⟩ | ⟨top, rfl, hshows⟩
  · exact Or.inl hnothing.final
  · cases hstatus : top.status with
    | draft => exact Or.inl (hshows.draft hstatus).2
    | final => exact Or.inr (hshows.final hstatus).2

theorem FromStream.deliver_again (hP : Consistent (StemsFrom cfg captions))
    (h : FromStream cfg captions deliveries) {delivery : Delivery} (hmem : delivery ∈ deliveries) :
    deliver cfg (view cfg deliveries) delivery = view cfg deliveries := by
  have hmessages : ∀ message ∈ delivery.messages cfg,
      message ∈ deliveries.flatMap (Delivery.messages cfg) :=
    fun message hmessage => List.mem_flatMap.mpr ⟨delivery, hmem, hmessage⟩
  rw [deliver_eq]
  generalize delivery.messages cfg = messages at hmessages
  induction messages with
  | nil => rfl
  | cons message messages ih =>
    rw [List.foldl_cons, (h.reflects hP).again (hmessages message List.mem_cons_self)]
    exact ih fun later hlater => hmessages later (List.mem_cons_of_mem _ hlater)

theorem FromStream.agree (hP : Consistent (StemsFrom cfg captions))
    (h : FromStream cfg captions deliveries) (hsame : SameDelivered deliveries deliveries')
    (segmentId : String) :
    (view cfg deliveries).activeDraftSegments segmentId =
        (view cfg deliveries').activeDraftSegments segmentId ∧
      ((view cfg deliveries).finalSegments segmentId).map CaptionEvent.content =
        ((view cfg deliveries').finalSegments segmentId).map CaptionEvent.content ∧
      (view cfg deliveries).lastRevisionBySegment segmentId =
        (view cfg deliveries').lastRevisionBySegment segmentId := by
  have hmessages : ∀ message, message ∈ deliveries.flatMap (Delivery.messages cfg) ↔
      message ∈ deliveries'.flatMap (Delivery.messages cfg) := by
    intro message
    simp only [mem_messages, LiveIn, hsame.1, hsame.2]
  have hreflects' : Reflects _ (view cfg deliveries') :=
    view_eq ▸ reflects_foldl hP fun other hother => h.stemsFrom other ((hmessages other).mpr hother)
  exact (h.reflects hP).agree hP h.stemsFrom hmessages hreflects' segmentId

end View

/-- What a client shows after deliveries of the captions of a stream and of the rows stored of them:
the Finals that were delivered, except for live ones that are not taken and for rows whose text is
cleared away; of the other segments the draft of the highest revision. It depends on what was
delivered only, except for the event identifier and the time of receipt of a Final that came both
live and as a row. -/
theorem view_converges (cfg : ViewConfig) (events : List ProviderEvent)
    (deliveries : List Delivery) (hfrom : FromStream cfg
      (Reconciler.emitted { kind := .transcription } events) deliveries) :
    (∀ segmentId, ((view cfg deliveries).finalSegments segmentId).isSome ↔
      FinalDelivered deliveries segmentId) ∧
    (∀ final ∈ Reconciler.emitted { kind := .transcription } events, final.status = .final →
      ∀ seen, (view cfg deliveries).finalSegments final.segmentId = some seen →
        seen.content = final.content) ∧
    (∀ segmentId, (view cfg deliveries).finalSegments segmentId = none → ∀ caption,
      (view cfg deliveries).activeDraftSegments segmentId = some caption ↔
        caption.segmentId = segmentId ∧ HighestLive deliveries caption) ∧
    (∀ segmentId, (view cfg deliveries).finalSegments segmentId = none ∨
      (view cfg deliveries).activeDraftSegments segmentId = none) ∧
    (∀ delivery ∈ deliveries, deliver cfg (view cfg deliveries) delivery = view cfg deliveries) ∧
    ∀ deliveries', SameDelivered deliveries deliveries' → ∀ segmentId,
      (view cfg deliveries).activeDraftSegments segmentId =
          (view cfg deliveries').activeDraftSegments segmentId ∧
        ((view cfg deliveries).finalSegments segmentId).map CaptionEvent.content =
          ((view cfg deliveries').finalSegments segmentId).map CaptionEvent.content ∧
        (view cfg deliveries).lastRevisionBySegment segmentId =
          (view cfg deliveries').lastRevisionBySegment segmentId := by
  have hordered := Reconciler.emitted_ordered { kind := .transcription } events
  have hP : Consistent (StemsFrom cfg _) := consistent_of_ordered hordered fun a ha =>
    Nat.succ_le_of_lt (Nat.lt_of_le_of_lt (Nat.zero_le _) (Reconciler.above_of_mem_emitted ha).1)
  exact ⟨hfrom.final_iff hP, fun final hfinal hstatus seen hseen =>
      hfrom.final_content hordered hP hfinal hstatus hseen,
    fun segmentId hopen => hfrom.draft_iff hP hopen, hfrom.never_both hP,
    fun delivery hdelivery => hfrom.deliver_again hP hdelivery,
    fun deliveries' hsame => hfrom.agree hP hsame⟩

/-- A draft and the Final of one segment, and a Final of another with a byte order mark for its
text. -/
def greeting : List ProviderEvent :=
  [{ eventType := .partialResult, providerEventId := "a", segmentId := some "1",
     text := some "he" },
    { eventType := .finalResult, providerEventId := "b", segmentId := some "1",
      text := some "hello" },
    { eventType := .finalResult, providerEventId := "c", segmentId := some "2",
      text := some "\uFEFF" }]

def greetingCaptions : List CaptionEvent := Reconciler.emitted { kind := .transcription } greeting

def greetingConfig : ViewConfig where
  newId caption := caption.segmentId
  isoformat _ := "1970-01-01T00:00:00Z"
  dateParse _ := some 0

def helloDraft : CaptionEvent := ⟨"1", 1, .draft, "he", none, none, none, "a", 0⟩

def hello : CaptionEvent := ⟨"1", 2, .final, "hello", none, none, none, "b", 0⟩

def mark : CaptionEvent := ⟨"2", 1, .final, "\uFEFF", none, none, none, "c", 0⟩

theorem greetingCaptions_eq : greetingCaptions = [helloDraft, hello, mark] := by
  have hhe : notBlank "he" = true := notBlank_of_any (by decide)
  have hhello : notBlank "hello" = true := notBlank_of_any (by decide)
  have hmark : notBlank "\uFEFF" = true := notBlank_of_any (by decide)
  simp [greetingCaptions, greeting, Reconciler.emitted, Reconciler.consume, ProviderEvent.IsResult,
    hhe, hhello, hmark, Reconciler.consumeSaid, Reconciler.fingerprint, Reconciler.seeId,
    Reconciler.seeSaying, Reconciler.revise, Reconciler.caption, SessionKind.comparedConfidence,
    helloDraft, hello, mark]

theorem greeting_persisted : persisted greetingConfig greetingCaptions =
    [segmentOf greetingConfig "1" hello, segmentOf greetingConfig "2" mark] := by
  rw [greetingCaptions_eq]
  decide

/-- The Final of a segment live and as a row, in both orders. -/
def liveFirst : List Delivery :=
  [.live helloDraft, .live hello, .snapshot [segmentOf greetingConfig "1" hello]]

def rowFirst : List Delivery :=
  [.live helloDraft, .snapshot [segmentOf greetingConfig "1" hello], .live hello]

theorem fromStream_of_perm {deliveries : List Delivery} (h : deliveries.Perm liveFirst) :
    FromStream greetingConfig greetingCaptions deliveries := by
  constructor
  · intro caption hlive
    have hmem := h.mem_iff.mp hlive
    simp only [liveFirst, List.mem_cons, Delivery.live.injEq, reduceCtorEq, List.not_mem_nil,
      or_false] at hmem
    rw [greetingCaptions_eq]
    rcases hmem with rfl | rfl <;> simp
  · rintro segment ⟨segments, hsnapshot, hmem⟩
    have hsnapshot := h.mem_iff.mp hsnapshot
    simp only [liveFirst, List.mem_cons, Delivery.snapshot.injEq, reduceCtorEq, List.not_mem_nil,
      or_false, false_or] at hsnapshot
    subst hsnapshot
    rw [greeting_persisted, List.mem_singleton.mp hmem]
    exact List.mem_cons_self

theorem rowFirst_perm : rowFirst.Perm liveFirst :=
  (List.Perm.swap _ _ _).cons _

/-- A client that gets the Final and its row shows what both say. -/
theorem live_then_row_converges :
    FinalDelivered liveFirst "1" ∧
      ((view greetingConfig liveFirst).finalSegments "1").map CaptionEvent.content =
        ((view greetingConfig rowFirst).finalSegments "1").map CaptionEvent.content := by
  have hconverges := view_converges greetingConfig greeting liveFirst
    (fromStream_of_perm (List.Perm.refl _))
  refine ⟨(hconverges.1 "1").mp (by decide), ?_⟩
  refine (hconverges.2.2.2.2.2 rowFirst ⟨fun caption => ?_, fun segment => ?_⟩ "1").2.1
  · rw [rowFirst_perm.mem_iff]
  · simp only [RowIn, rowFirst_perm.mem_iff]

/-- Clients that got the same live Final and the same row differ in what they keep of where it
came from. And a Final whose text is a byte order mark is shown neither live nor as a row. -/
theorem same_delivered_shown_apart :
    (FromStream greetingConfig greetingCaptions liveFirst ∧
      FromStream greetingConfig greetingCaptions rowFirst ∧ rowFirst.Perm liveFirst ∧
      view greetingConfig liveFirst ≠ view greetingConfig rowFirst) ∧
    mark ∈ greetingCaptions ∧ mark.status = .final ∧
      segmentOf greetingConfig "2" mark ∈ persisted greetingConfig greetingCaptions ∧
      (view greetingConfig
        [.live mark, .snapshot [segmentOf greetingConfig "2" mark]]).finalSegments
        mark.segmentId = none := by
  refine ⟨⟨fromStream_of_perm (List.Perm.refl _), fromStream_of_perm rowFirst_perm, rowFirst_perm,
    fun hsame => ?_⟩, ?_, rfl, ?_, by decide⟩
  · have hshown : (view greetingConfig liveFirst).finalSegments "1" ≠
        (view greetingConfig rowFirst).finalSegments "1" := by decide
    exact hshown (by rw [hsame])
  · rw [greetingCaptions_eq]
    simp
  · rw [greeting_persisted]
    simp

end Captions
end Matinier
