import Matinier.Media.EventLog

/-!
# Projecting a session to completion

An item is acceptable where its event is in the log or meets the contract of events. A batch is
persisted exactly where all its items are acceptable, and its offsets can be advanced then;
what is pending after a round is what was pending before it without the batch. So a projection
ends, with nothing pending where all that was pending is acceptable, and with an error that
stays otherwise.
-/

namespace Matinier
namespace Media

open Assistant

namespace SessionMedia

variable {cfg : ProjectorConfig} {m m' : SessionMedia} {item other : ProjectionItem}
  {items batch rest : List ProjectionItem}

/-- The event of an item can be appended, or need not be. -/
def Acceptable (cfg : ProjectorConfig) (m : SessionMedia) (item : ProjectionItem) : Prop :=
  (m.findSourceRevision item).isSome = true ∨ item.Accepted cfg

instance (item : ProjectionItem) : Decidable (m.Acceptable cfg item) :=
  inferInstanceAs (Decidable (_ ∨ _))

/-- Nothing that is pending in a session makes its projection fail. -/
def Projectable (cfg : ProjectorConfig) (m : SessionMedia) : Prop :=
  ∀ item ∈ m.readPendingItems, m.Acceptable cfg item

instance : Decidable (m.Projectable cfg) :=
  inferInstanceAs (Decidable (∀ item ∈ m.readPendingItems, _))

def offsetAt (m : SessionMedia) (item : ProjectionItem) : ℕ :=
  match m.offsets.get (Row.key item.offset) with
  | none => 0
  | some offset => offset.processedRevision

theorem Sound.processed_eq (h : m.Sound) (item : ProjectionItem) :
    m.processed item = m.offsetAt item := by
  cases hbridge : m.bridge with
  | some bridge =>
    simp only [processed, offsetAt, hbridge]
    rfl
  | none =>
    have hempty : m.events.rows = [] := h.exact.noBridge hbridge
    have hnone : m.offsets.get (Row.key item.offset) = none := by
      refine Table.get_eq_none.mpr fun o ho => ?_
      obtain ⟨e, he, -⟩ := h.covered o ho
      rw [hempty] at he
      exact absurd he List.not_mem_nil
    simp only [processed, offsetAt, hbridge, hnone]

theorem Sound.mem_pending (h : m.Sound) : item ∈ m.readPendingItems ↔
    item ∈ m.sourceItems ∧ m.offsetAt item < item.revision := by
  rw [readPendingItems, List.mem_filter, decide_eq_true_eq, h.processed_eq]

theorem Sound.free (h : m.Sound) (hnew : m.findSourceRevision item = none) :
    m.events.Free (item.event m.nextSequence) := by
  intro e he
  refine ⟨fun hkey => ?_, Or.inr (Table.getUnique_eq_none.mp hnew e he)⟩
  have hmem : e.sequence ∈ List.range' 1 m.events.rows.length :=
    h.numbered ▸ List.mem_map_of_mem he
  have hlt := (List.mem_range'_1.mp hmem).2
  have hsequence : e.sequence = m.nextSequence := hkey
  rw [hsequence, h.next] at hlt
  omega

theorem Sound.appendEvent_returns (h : m.Sound) (hbridge : m.bridge.isSome = true) :
    (∃ m', m.appendEvent cfg item = .ok m') ↔ m.Acceptable cfg item := by
  constructor
  · rintro ⟨m', happend⟩
    rcases appendEvent_cases happend with ⟨e, hfound, -⟩ | ⟨_, _, -, -, haccepted, -⟩
    · exact Or.inl (by rw [hfound, Option.isSome_some])
    · exact Or.inr haccepted
  · intro hacceptable
    obtain ⟨bridge, hbridge⟩ := Option.isSome_iff_exists.mp hbridge
    cases hfind : m.findSourceRevision item with
    | some e => exact ⟨m, by rw [appendEvent, hfind]; rfl⟩
    | none =>
      have haccepted : item.Accepted cfg := hacceptable.resolve_left (by simp [hfind])
      have hnext : bridge.nextSequence = m.nextSequence := by rw [nextSequence, hbridge]
      have hpositive : 1 ≤ bridge.nextSequence := by
        rw [hnext, h.next]
        omega
      obtain ⟨events, hinsert⟩ := Table.insert_isSome (hnext ▸ h.free hfind)
      refine ⟨{ m with
        bridge := some { bridge with nextSequence := bridge.nextSequence + 1 }
        events := events }, ?_⟩
      simp [appendEvent, hfind, hbridge, hpositive, haccepted, hinsert, require, ensure, bind,
        Except.bind, pure, Except.pure]

theorem find_appended (hother : other.logicalId ≠ item.logicalId)
    (happend : m.appendEvent cfg item = .ok m') :
    m'.findSourceRevision other = m.findSourceRevision other := by
  rcases appendEvent_cases happend with ⟨-, -, rfl⟩ | ⟨bridge, events, -, -, -, hinsert, rfl⟩
  · rfl
  · simp only [findSourceRevision, Table.getUnique_insert hinsert]
    refine if_neg fun hunique => hother ?_
    simp only [Row.unique, ProjectionItem.event, Option.some.injEq, Prod.mk.injEq] at hunique
    exact hunique.2.1.symm

theorem appendEvent_bridged (hbridge : m.bridge.isSome = true)
    (happend : m.appendEvent cfg item = .ok m') :
    m'.bridge.isSome = true ∧ m' = { m with bridge := m'.bridge, events := m'.events } := by
  rcases appendEvent_cases happend with ⟨-, -, rfl⟩ | ⟨_, _, -, -, -, -, rfl⟩
  · exact ⟨hbridge, rfl⟩
  · exact ⟨rfl, rfl⟩

theorem acceptable_appended (hother : other.logicalId ≠ item.logicalId)
    (happend : m.appendEvent cfg item = .ok m') :
    m'.Acceptable cfg other ↔ m.Acceptable cfg other := by
  rw [Acceptable, Acceptable, find_appended hother happend]

/-- What the events of the rest of a batch do, where they can be appended. -/
structure Appended (cfg : ProjectorConfig) (batch rest : List ProjectionItem)
    (m m' : SessionMedia) : Prop where
  sound : m'.Sound
  ready : (Phase.advancing batch).Ready m'
  same : m' = { m with bridge := m'.bridge, events := m'.events }
  acceptable : ∀ item ∈ rest, m.Acceptable cfg item
  others : ∀ item, item.logicalId ∉ rest.map ProjectionItem.logicalId →
    (m'.Acceptable cfg item ↔ m.Acceptable cfg item)

theorem appendEvents_spec {projected : ℕ} (hsound : m.Sound) (hbridge : m.bridge.isSome = true)
    (hready : (Phase.appending batch rest).Ready m)
    (h : appendEvents cfg rest m = .ok (m', projected)) : Appended cfg batch rest m m' := by
  induction rest generalizing m projected with
  | nil =>
    cases h
    exact ⟨hsound, (hready.move cfg hsound).2.2 _ rfl, rfl,
      fun item hitem => absurd hitem List.not_mem_nil, fun item _ => Iff.rfl⟩
  | cons item rest ih =>
    simp only [appendEvents, bind_eq_ok, pure_eq_ok, Prod.exists, Prod.mk.injEq] at h
    obtain ⟨appended, happend, last, count, hrest, rfl, -⟩ := h
    obtain ⟨hsound', -, hready'⟩ := ready_appended hsound hready happend
    obtain ⟨hbridge', hsame⟩ := appendEvent_bridged hbridge happend
    have hnodup := hready.2.1
    rw [List.map_cons, List.nodup_cons] at hnodup
    have hlater := ih hsound' hbridge' hready' hrest
    refine ⟨hlater.sound, hlater.ready, ?_, fun other hother => ?_, fun other hother => ?_⟩
    · rw [hlater.same, hsame]
    · rcases List.mem_cons.mp hother with rfl | hother
      · exact (hsound.appendEvent_returns hbridge).mp ⟨appended, happend⟩
      · have hne : other.logicalId ≠ item.logicalId := fun heq =>
          hnodup.1 (heq ▸ List.mem_map_of_mem hother)
        exact (acceptable_appended hne happend).mp (hlater.acceptable other hother)
    · rw [List.map_cons, List.mem_cons, not_or] at hother
      exact (hlater.others other hother.2).trans (acceptable_appended hother.1 happend)

theorem appendEvents_returns (hsound : m.Sound) (hbridge : m.bridge.isSome = true)
    (hready : (Phase.appending batch rest).Ready m)
    (hacceptable : ∀ item ∈ rest, m.Acceptable cfg item) :
    ∃ result, appendEvents cfg rest m = .ok result := by
  induction rest generalizing m with
  | nil => exact ⟨_, rfl⟩
  | cons item rest ih =>
    obtain ⟨appended, happend⟩ := (hsound.appendEvent_returns hbridge).mpr
      (hacceptable item List.mem_cons_self)
    obtain ⟨hsound', -, hready'⟩ := ready_appended hsound hready happend
    obtain ⟨hbridge', -⟩ := appendEvent_bridged hbridge happend
    have hnodup := hready.2.1
    rw [List.map_cons, List.nodup_cons] at hnodup
    obtain ⟨result, hrest⟩ := ih hsound' hbridge' hready' fun other hother =>
      (acceptable_appended (fun heq => hnodup.1 (heq ▸ List.mem_map_of_mem hother)) happend).mpr
        (hacceptable other (List.mem_cons_of_mem _ hother))
    simp only [appendEvents, happend, hrest, bind, Except.bind]
    exact ⟨_, rfl⟩

theorem acceptable_bridged (m : SessionMedia) :
    m.ensureLegacySessionBridge.Acceptable cfg item ↔ m.Acceptable cfg item := by
  rw [(ensureLegacySessionBridge_spec m).1]
  exact Iff.rfl

/-- A batch of pending items is persisted exactly where all of them are acceptable. -/
theorem persistEventBatch_returns (hsound : m.Sound)
    (hready : (Phase.appending batch batch).Ready m) :
    (∃ result, m.persistEventBatch cfg batch = .ok result) ↔
      ∀ item ∈ batch, m.Acceptable cfg item := by
  have hrevised := bridge_revised m
  have hbridge := (ensureLegacySessionBridge_spec m).2.2
  constructor
  · rintro ⟨⟨m', projected⟩, h⟩
    have happended := appendEvents_spec (hsound.revised hrevised) hbridge
      (hready.revised hrevised) h
    exact fun item hitem => (acceptable_bridged m).mp (happended.acceptable item hitem)
  · intro hacceptable
    exact appendEvents_returns (hsound.revised hrevised) hbridge (hready.revised hrevised)
      fun item hitem => (acceptable_bridged m).mpr (hacceptable item hitem)

theorem persistEventBatch_spec {projected : ℕ} (hsound : m.Sound)
    (hready : (Phase.appending batch batch).Ready m)
    (h : m.persistEventBatch cfg batch = .ok (m', projected)) : Appended cfg batch batch m m' := by
  have hrevised := bridge_revised m
  have happended := appendEvents_spec (hsound.revised hrevised)
    (ensureLegacySessionBridge_spec m).2.2 (hready.revised hrevised) h
  refine ⟨happended.sound, happended.ready, ?_, fun item hitem => ?_, fun item hitem => ?_⟩
  · rw [happended.same, (ensureLegacySessionBridge_spec m).1]
  · exact (acceptable_bridged m).mp (happended.acceptable item hitem)
  · exact (happended.others item hitem).trans (acceptable_bridged m)

section Offsets

theorem advanceBridgeOffset_self (h : m.advanceBridgeOffset item = .ok m') :
    item.revision ≤ m'.offsetAt item := by
  rcases advanceBridgeOffset_cases h with ⟨o, hget, hlater, rfl⟩ | ⟨offsets, hwrites, rfl⟩
  · simpa only [offsetAt, hget] using hlater
  · simp only [offsetAt, hwrites.1]
    exact le_rfl

theorem advanceBridgeOffset_other (h : m.advanceBridgeOffset item = .ok m')
    (hother : Row.key other.offset ≠ Row.key item.offset) :
    m'.offsetAt other = m.offsetAt other := by
  rcases advanceBridgeOffset_cases h with ⟨-, -, -, rfl⟩ | ⟨offsets, hwrites, rfl⟩
  · rfl
  · simp only [offsetAt, hwrites.2 _ hother]

/-- A loop over items with different offsets advances each of them and leaves all others. -/
theorem advanceBridgeOffsets_spec
    (hkeys : (items.map fun item => Row.key item.offset).Nodup)
    (h : items.foldlM advanceBridgeOffset m = .ok m') :
    (∀ item ∈ items, item.revision ≤ m'.offsetAt item) ∧
      ∀ other : ProjectionItem,
        Row.key other.offset ∉ (items.map fun item => Row.key item.offset) →
          m'.offsetAt other = m.offsetAt other := by
  induction items generalizing m with
  | nil =>
    cases h
    exact ⟨fun item hitem => absurd hitem List.not_mem_nil, fun other _ => rfl⟩
  | cons first rest ih =>
    rw [List.foldlM_cons, bind_eq_ok] at h
    obtain ⟨advanced, hfirst, hrest⟩ := h
    rw [List.map_cons, List.nodup_cons] at hkeys
    obtain ⟨hreached, hothers⟩ := ih hkeys.2 hrest
    refine ⟨fun item hitem => ?_, fun other hother => ?_⟩
    · rcases List.mem_cons.mp hitem with rfl | hitem
      · rw [hothers item hkeys.1]
        exact advanceBridgeOffset_self hfirst
      · exact hreached item hitem
    · rw [List.map_cons, List.mem_cons, not_or] at hother
      rw [hothers other hother.2, advanceBridgeOffset_other hfirst hother.1]

theorem advanceBridgeOffset_returns (hpositive : 1 ≤ item.revision) (m : SessionMedia) :
    ∃ m', m.advanceBridgeOffset item = .ok m' := by
  unfold advanceBridgeOffset
  rw [show ensure (1 ≤ item.revision) (Fault.value "processed_revision must be positive") =
    .ok () from ensure_eq_ok.mpr hpositive]
  cases hget : m.offsets.get (item.sourceTable, item.sourceType, item.sourceLogicalId) with
  | some existing =>
    by_cases hlater : existing.processedRevision < item.revision
    · exact ⟨_, if_pos hlater⟩
    · exact ⟨_, if_neg hlater⟩
  | none =>
    have hfree : m.offsets.Free item.offset := fun o ho =>
      ⟨Table.get_eq_none.mp hget o ho, Or.inl rfl⟩
    obtain ⟨offsets, hinsert⟩ := Table.insert_isSome hfree
    refine ⟨{ m with offsets := offsets }, ?_⟩
    simp [hinsert, require, bind, Except.bind, pure, Except.pure]

theorem advanceOffsets_returns (hpositive : ∀ item ∈ items, 1 ≤ item.revision)
    (m : SessionMedia) : ∃ m', m.advanceOffsets items = .ok m' := by
  obtain ⟨advanced, hloop, -⟩ := foldlM_returns (f := advanceBridgeOffset) (l := items)
    (I := fun _ => True) (b := m)
    (fun b item hitem _ => by
      obtain ⟨b', hb'⟩ := advanceBridgeOffset_returns (hpositive item hitem) b
      exact ⟨b', hb', trivial⟩) trivial
  exact ⟨_, by simp only [advanceOffsets, hloop, bind, Except.bind]; rfl⟩

/-- Items that name their sources by different logical ids have different offsets. -/
theorem keys_nodup (hid : ∀ item ∈ items, item.sourceLogicalId = item.logicalId)
    (h : (items.map ProjectionItem.logicalId).Nodup) :
    (items.map fun item => Row.key item.offset).Nodup := by
  have hsame : (items.map fun item => Row.key item.offset).map (fun key => key.2.2) =
      items.map ProjectionItem.logicalId := by
    rw [List.map_map]
    exact List.map_congr_left fun item hitem => hid item hitem
  exact List.Nodup.of_map (fun key => key.2.2) (hsame ▸ h)

end Offsets

/-- What is left of a list without its first elements, told by different keys. -/
private theorem filter_not_take {α β : Type} [DecidableEq β] {f : α → β} {l : List α}
    (h : (l.map f).Nodup) (n : ℕ) : l.filter (fun a => f a ∉ (l.take n).map f) = l.drop n := by
  have hdisjoint : ∀ a ∈ l.drop n, f a ∉ (l.take n).map f := by
    intro a ha hmem
    rw [← List.take_append_drop n l, List.map_append, List.nodup_append] at h
    exact h.2.2 (f a) hmem (f a) (List.mem_map_of_mem ha) rfl
  have hfirst : (l.take n).filter (fun a => f a ∉ (l.take n).map f) = [] :=
    List.filter_eq_nil_iff.mpr fun a ha => by
      simpa using List.mem_map_of_mem (f := f) ha
  have hrest : (l.drop n).filter (fun a => f a ∉ (l.take n).map f) = l.drop n :=
    List.filter_eq_self.mpr fun a ha => decide_eq_true (hdisjoint a ha)
  calc l.filter (fun a => f a ∉ (l.take n).map f)
      = (l.take n ++ l.drop n).filter (fun a => f a ∉ (l.take n).map f) := by
        rw [List.take_append_drop]
    _ = l.drop n := by rw [List.filter_append, hfirst, hrest, List.nil_append]

/-- What a round that goes through leaves. -/
structure Advanced (cfg : ProjectorConfig) (n : ℕ) (m m' : SessionMedia) : Prop where
  sound : m'.Sound
  legacy : m'.legacy = m.legacy
  pending : m'.readPendingItems = m.readPendingItems.drop n
  projectable : m'.Projectable cfg ↔ m.Projectable cfg

theorem round_spec {persisted : SessionMedia} {projected n : ℕ} (hsound : m.Sound)
    (hpersist : m.persistEventBatch cfg (m.readPendingItems.take n) = .ok (persisted, projected))
    (hadvance : persisted.advanceOffsets (m.readPendingItems.take n) = .ok m') :
    Advanced cfg n m m' := by
  have hread := ready_read hsound
  have hbatch := ready_batch hread n
  have happended := persistEventBatch_spec hsound hbatch hpersist
  obtain ⟨hsound', hsame⟩ := happended.sound.advanced happended.ready hadvance
  have hfields : m' = { m with
      bridge := m'.bridge, events := persisted.events, offsets := m'.offsets } := by
    rw [hsame, happended.same]
  have hsources : m'.sourceItems = m.sourceItems := by
    rw [hfields]
    rfl
  -- the offsets of the batch stand at its revisions, the others where they stood
  simp only [advanceOffsets, bind_eq_ok, pure_eq_ok] at hadvance
  obtain ⟨advanced, hloop, hended⟩ := hadvance
  have hkeys := keys_nodup
    (fun item hitem => (happended.ready item hitem).2.sourceLogicalId) hbatch.2.1
  obtain ⟨hreached, hothers⟩ := advanceBridgeOffsets_spec hkeys hloop
  have hoffsets : ∀ item, m'.offsetAt item = advanced.offsetAt item := by
    intro item
    have hend := (endBridge_spec (terminalStatus (m.readPendingItems.take n)) advanced).1
    rw [← hended, hend]
    rfl
  have hold : ∀ item, persisted.offsetAt item = m.offsetAt item := by
    intro item
    rw [happended.same]
    rfl
  have hpending : m'.readPendingItems = m.readPendingItems.drop n := by
    rw [← filter_not_take hread.2 n, readPendingItems, hsources, readPendingItems,
      List.filter_filter]
    refine List.filter_congr fun item hitem => ?_
    rw [hsound'.processed_eq, hsound.processed_eq, hoffsets, Bool.eq_iff_iff]
    simp only [decide_eq_true_eq, Bool.and_eq_true]
    by_cases hmem : item.logicalId ∈ (m.readPendingItems.take n).map ProjectionItem.logicalId
    · obtain ⟨other, hother, hid⟩ := List.mem_map.mp hmem
      have hsource := (hsound.mem_pending.mp (List.mem_of_mem_take hother)).1
      obtain rfl : other = item := eq_of_logicalId hsource hitem hid
      have := hreached other hother
      exact ⟨fun hlt => absurd hlt (not_lt.mpr this), fun h => absurd hmem h.1⟩
    · have hkey : Row.key item.offset ∉
          ((m.readPendingItems.take n).map fun item => Row.key item.offset) := by
        intro hkey
        obtain ⟨other, hother, heq⟩ := List.mem_map.mp hkey
        refine hmem (List.mem_map.mpr ⟨other, hother, ?_⟩)
        rw [← (happended.ready other hother).2.sourceLogicalId,
          ← (named_of_mem hitem).sourceLogicalId]
        exact congrArg (fun key => key.2.2) heq
      rw [hothers item hkey, hold]
      exact ⟨fun hlt => ⟨hmem, hlt⟩, fun h => h.2⟩
  refine ⟨hsound', by rw [hfields], hpending, ?_⟩
  have hacceptable : ∀ item ∈ m.readPendingItems.drop n,
      (m'.Acceptable cfg item ↔ m.Acceptable cfg item) := by
    intro item hitem
    have hevents : m'.Acceptable cfg item ↔ persisted.Acceptable cfg item := by
      rw [hfields]
      exact Iff.rfl
    refine hevents.trans (happended.others item fun hmem => ?_)
    rw [← filter_not_take hread.2 n, List.mem_filter, decide_eq_true_eq] at hitem
    exact hitem.2 hmem
  constructor
  · intro h item hitem
    rw [← List.take_append_drop n m.readPendingItems, List.mem_append] at hitem
    rcases hitem with hitem | hitem
    · exact happended.acceptable item hitem
    · exact (hacceptable item hitem).mp (h item (hpending ▸ hitem))
  · intro h item hitem
    rw [hpending] at hitem
    exact (hacceptable item hitem).mpr (h item (List.mem_of_mem_drop hitem))

/-- How a projection ends. -/
structure Completed (cfg : ProjectorConfig) (m : SessionMedia) {α : Type}
    (result : SessionMedia × Except Fault α) : Prop where
  sound : result.1.Sound
  legacy : result.1.legacy = m.legacy
  projectable : result.1.Projectable cfg ↔ m.Projectable cfg
  returns : (∃ a, result.2 = .ok a) ↔ m.Projectable cfg
  drained : m.Projectable cfg → result.1.readPendingItems = []

theorem completed_bridged {total : ℕ} (hsound : m.Sound) (hempty : m.readPendingItems = []) :
    Completed cfg m (m.ensureLegacySessionBridge, (.ok total : Except Fault ℕ)) := by
  obtain ⟨hsame, -, -⟩ := ensureLegacySessionBridge_spec m
  have hsound' := hsound.bridged
  have hpending : m.ensureLegacySessionBridge.readPendingItems = [] := by
    refine List.eq_nil_iff_forall_not_mem.mpr fun item hitem => ?_
    have hitem' : item ∈ m.readPendingItems := by
      rw [hsound'.mem_pending] at hitem
      rw [hsame] at hitem
      exact hsound.mem_pending.mpr hitem
    rw [hempty] at hitem'
    exact List.not_mem_nil hitem'
  have hnone : ∀ m : SessionMedia, m.readPendingItems = [] → m.Projectable cfg := by
    intro m hm item hitem
    rw [hm] at hitem
    exact absurd hitem List.not_mem_nil
  exact ⟨hsound', by rw [hsame], iff_of_true (hnone _ hpending) (hnone _ hempty),
    iff_of_true ⟨total, rfl⟩ (hnone _ hempty), fun _ => hpending⟩

theorem projectRounds_succ {fuel total : ℕ} (h : m.readPendingItems ≠ []) :
    projectRounds cfg (fuel + 1) total m =
      match m.persistEventBatch cfg (m.readPendingItems.take cfg.batchSize) with
      | .error fault => (m, .error fault)
      | .ok (persisted, projected) =>
        match persisted.advanceOffsets (m.readPendingItems.take cfg.batchSize) with
        | .error fault => (persisted, .error fault)
        | .ok advanced =>
          if (m.readPendingItems.take cfg.batchSize).length < cfg.batchSize then
            (advanced, .ok (total + projected))
          else projectRounds cfg fuel (total + projected) advanced := by
  conv_lhs => rw [projectRounds]
  split
  · rename_i hempty
    exact absurd hempty h
  · rfl

/-- A projection goes through, and leaves nothing pending, exactly where the session is
projectable; and it does not change whether it is. -/
theorem projectRounds_spec (cfg : ProjectorConfig) {fuel : ℕ} (total : ℕ) (hsound : m.Sound)
    (hfuel : m.readPendingItems.length < fuel) :
    Completed cfg m (projectRounds cfg fuel total m) := by
  induction fuel generalizing m total with
  | zero => omega
  | succ fuel ih =>
    have hbatch := ready_batch (ready_read hsound) cfg.batchSize
    have hpositive : ∀ item ∈ m.readPendingItems.take cfg.batchSize, 1 ≤ item.revision := by
      intro item hitem
      have := (hsound.mem_pending.mp (List.mem_of_mem_take hitem)).2
      omega
    by_cases hempty : m.readPendingItems = []
    · rw [projectRounds, hempty]
      exact completed_bridged hsound hempty
    rw [projectRounds_succ hempty]
    cases hpersist : m.persistEventBatch cfg (m.readPendingItems.take cfg.batchSize) with
    | error fault =>
      have hfails : ¬ m.Projectable cfg := fun h => by
        obtain ⟨result, hresult⟩ := (persistEventBatch_returns hsound hbatch).mpr
          fun item hitem => h item (List.mem_of_mem_take hitem)
        rw [hpersist] at hresult
        cases hresult
      dsimp only
      exact ⟨hsound, rfl, Iff.rfl, iff_of_false (fun ⟨_, h⟩ => by cases h) hfails,
        fun h => absurd h hfails⟩
    | ok result =>
      obtain ⟨persisted, projected⟩ := result
      obtain ⟨advanced, hadvance⟩ := advanceOffsets_returns hpositive persisted
      obtain ⟨hsound', hlegacy, hpending, hprojectable⟩ := round_spec hsound hpersist hadvance
      simp only [hadvance]
      split_ifs with hfull
      · have hshort : m.readPendingItems.length ≤ cfg.batchSize := by
          rw [List.length_take] at hfull
          omega
        have hdrained : advanced.readPendingItems = [] := by
          rw [hpending, List.drop_eq_nil_iff]
          exact hshort
        have hall : advanced.Projectable cfg := fun item hitem => by
          rw [hdrained] at hitem
          exact absurd hitem List.not_mem_nil
        exact ⟨hsound', hlegacy, hprojectable, iff_of_true ⟨_, rfl⟩ (hprojectable.mp hall),
          fun _ => hdrained⟩
      · have hshorter : advanced.readPendingItems.length < fuel := by
          rw [hpending, List.length_drop]
          have := cfg.batchSize_pos
          have := List.length_pos_iff.mpr hempty
          omega
        obtain ⟨hlast, hlegacy', hsame, hreturns, hdrained⟩ :=
          ih (total + projected) hsound' hshorter
        exact ⟨hlast, hlegacy'.trans hlegacy, hsame.trans hprojectable,
          hreturns.trans hprojectable, fun h => hdrained (hprojectable.mpr h)⟩

theorem projectToCompletion_spec (cfg : ProjectorConfig) (hsound : m.Sound) :
    Completed cfg m (m.projectToCompletion cfg) := by
  obtain ⟨hlast, hlegacy, hsame, hreturns, hdrained⟩ :=
    projectRounds_spec cfg 0 hsound (Nat.lt_succ_self _)
  refine ⟨hlast, hlegacy, hsame, ?_, hdrained⟩
  have houtcome : (m.projectToCompletion cfg).2 =
      (projectRounds cfg (m.readPendingItems.length + 1) 0 m).2.map fun total =>
        { legacySessionId := m.legacy.id, projectedEventCount := total
          latestSequence := (m.projectToCompletion cfg).1.latestSequence } := rfl
  rw [← hreturns, houtcome]
  cases (projectRounds cfg (m.readPendingItems.length + 1) 0 m).2 <;> simp [Except.map]

end SessionMedia

end Media
end Matinier
