import Matinier.CourseOrganizer.SessionOrder

/-!
# Acknowledged progress is durable

A batch is answered with the cursor of the memory. Where batches continue from the cursor and are
stored, and nothing that was taken in is thrown away, what the host has stored then has that cursor,
and every caption up to it.
-/

namespace Matinier
namespace CourseOrganizer

open Plugins (JsonEntries)

variable {cfg : CourseConfig} {r r' : CourseRecord} {e item : PendingEvent}

/-- The revision of a caption or a newer one of its stream. -/
def PendingEvent.Supersedes (p e : PendingEvent) : Prop :=
  p.streamKey = e.streamKey ∧ e.revision ≤ p.revision

/-- A caption is pending or superseded, or it was part of a window whose notes were merged in. -/
def Taken (r : CourseRecord) (e : PendingEvent) : Prop :=
  (∃ p ∈ r.pending, p.Supersedes e) ∨ ∃ window ∈ r.notes.windows, ∃ p ∈ window, p.Supersedes e

/-- A state is as far as another, and has taken in what that has. -/
structure TakesMore (r r' : CourseRecord) : Prop where
  lastSequence : r.lastSequence ≤ r'.lastSequence
  taken : ∀ e, Taken r e → Taken r' e

theorem PendingEvent.Supersedes.trans {a b c : PendingEvent} (h : a.Supersedes b)
    (h' : b.Supersedes c) : a.Supersedes c := ⟨h.1.trans h'.1, h'.2.trans h.2⟩

instance : IsPreorder CourseRecord TakesMore where
  refl _ := ⟨le_rfl, fun _ h => h⟩
  trans _ _ _ h h' := ⟨h.lastSequence.trans h'.lastSequence, fun e he => h'.taken e (h.taken e he)⟩

theorem TakesMore.refl (r : CourseRecord) : TakesMore r r := ⟨le_rfl, fun _ h => h⟩

theorem Taken.congr (h : Taken r e) (hpending : r'.pending = r.pending)
    (hwindows : r'.notes.windows = r.notes.windows) : Taken r' e := by
  unfold Taken
  rw [hpending, hwindows]
  exact h

theorem TakesMore.of_same (hlast : r.lastSequence ≤ r'.lastSequence)
    (hpending : r'.pending = r.pending) (hwindows : r'.notes.windows = r.notes.windows) :
    TakesMore r r' := ⟨hlast, fun _ h => h.congr hpending hwindows⟩

instance : KeepsDict TakesMore where
  dict_le _ := .of_same le_rfl rfl rfl
  le_dict _ := .of_same le_rfl rfl rfl

theorem PendingEvent.Supersedes.refl (p : PendingEvent) : p.Supersedes p := ⟨rfl, le_rfl⟩

/-- An event that is merged takes the place of an older one of its stream only. -/
theorem mergePending_old (item : PendingEvent) {pending : List PendingEvent} {p : PendingEvent}
    (hp : p ∈ pending) :
    ∃ q ∈ mergePending item pending, q.Supersedes p := by
  simp only [mergePending, List.mem_insertionSort]
  split_ifs with hany
  · by_cases hnewer : p.streamKey = item.streamKey ∧ p.revision < item.revision
    · refine ⟨item, ?_, hnewer.1.symm, hnewer.2.le⟩
      exact List.mem_map.mpr ⟨p, hp, if_pos hnewer⟩
    · exact ⟨p, List.mem_map.mpr ⟨p, hp, if_neg hnewer⟩, .refl p⟩
  · exact ⟨p, List.mem_append_left _ hp, .refl p⟩

theorem mergePending_new {pending : List PendingEvent} :
    ∃ q ∈ mergePending item pending, q.Supersedes item := by
  simp only [mergePending, List.mem_insertionSort]
  split_ifs with hany
  · obtain ⟨p, hp, hkey⟩ := List.any_eq_true.mp hany
    have hkey' : p.streamKey = item.streamKey := of_decide_eq_true hkey
    by_cases hnewer : p.revision < item.revision
    · exact ⟨item, List.mem_map.mpr ⟨p, hp, if_pos ⟨hkey', hnewer⟩⟩, .refl item⟩
    · refine ⟨p, List.mem_map.mpr ⟨p, hp, if_neg fun h => hnewer h.2⟩, hkey', ?_⟩
      exact not_lt.mp hnewer
  · exact ⟨item, List.mem_append_right _ (List.mem_singleton_self item), .refl item⟩

theorem observeLanguage_same (item : PendingEvent) (r : CourseRecord) :
    (r.observeLanguage item).lastSequence = r.lastSequence ∧
      (r.observeLanguage item).pending = r.pending ∧
      (r.observeLanguage item).notes = r.notes := by
  unfold CourseRecord.observeLanguage
  split_ifs <;> exact ⟨rfl, rfl, rfl⟩

theorem noteTerminal_same (cfg : CourseConfig) (trigger : String) (r : CourseRecord) :
    (r.noteTerminal cfg trigger).lastSequence = r.lastSequence ∧
      (r.noteTerminal cfg trigger).pending = r.pending ∧
      (r.noteTerminal cfg trigger).notes = r.notes := by
  unfold CourseRecord.noteTerminal
  split_ifs <;> exact ⟨rfl, rfl, rfl⟩

/-- A window takes what it has of a stream out of what is pending, and has it itself. -/
theorem commitWindow_takesMore (snapshot : List PendingEvent) (notes : List RealtimeNote)
    (status : CourseStatus) (replaceIds : List String) (r : CourseRecord) :
    TakesMore r (r.commitWindow cfg snapshot notes status replaceIds) := by
  refine ⟨le_rfl, fun e he => ?_⟩
  rcases he with ⟨p, hp, hsupersedes⟩ | ⟨window, hwindow, hp⟩
  · cases hfind : snapshot.find? (fun s => decide (s.streamKey = p.streamKey)) with
    | none =>
      refine Or.inl ⟨p, List.mem_filter.mpr ⟨hp, ?_⟩, hsupersedes⟩
      simp [hfind]
    | some s =>
      by_cases hnewer : s.revision < p.revision
      · refine Or.inl ⟨p, List.mem_filter.mpr ⟨hp, ?_⟩, hsupersedes⟩
        simp [hfind, hnewer]
      · have hkey : s.streamKey = p.streamKey := by simpa using List.find?_some hfind
        have hs : s.Supersedes e := .trans ⟨hkey, not_lt.mp hnewer⟩ hsupersedes
        exact Or.inr ⟨snapshot, List.mem_cons_self, s, List.mem_of_find?_eq_some hfind, hs⟩
  · exact Or.inr ⟨window, List.mem_cons_of_mem _ hwindow, hp⟩

/-- What an event is taken in with: its type is read from it, and its sequence. -/
theorem pendingEvent_inv {entries : JsonEntries} (h : pendingEvent entries = some e) :
    ∃ eventType, textField "event_type" entries = some eventType ∧
      (eventType = "transcript.final" ∨ eventType = "translation.final") ∧
        eventSequence (.obj entries) = some e.sequence := by
  unfold pendingEvent at h
  obtain ⟨eventType, htype, h⟩ := Option.bind_eq_some_iff.mp h
  obtain ⟨logicalId, -, h⟩ := Option.bind_eq_some_iff.mp h
  obtain ⟨revision, -, h⟩ := Option.bind_eq_some_iff.mp h
  obtain ⟨startMs, -, h⟩ := Option.bind_eq_some_iff.mp h
  obtain ⟨durationMs, -, h⟩ := Option.bind_eq_some_iff.mp h
  obtain ⟨payload, -, h⟩ := Option.bind_eq_some_iff.mp h
  obtain ⟨text, -, h⟩ := Option.bind_eq_some_iff.mp h
  obtain ⟨language, -, h⟩ := Option.bind_eq_some_iff.mp h
  obtain ⟨confidence, -, h⟩ := Option.bind_eq_some_iff.mp h
  obtain ⟨sequence, hsequence, h⟩ := Option.bind_eq_some_iff.mp h
  obtain ⟨sources, -, h⟩ := Option.bind_eq_some_iff.mp h
  obtain ⟨_, hguard, hevent⟩ := Option.bind_eq_some_iff.mp h
  have hvalid := (Option.guard_eq_some' _).mp hguard
  simp only [PendingEvent.valid, Bool.and_eq_true, Bool.or_eq_true, decide_eq_true_eq] at hvalid
  cases hevent
  exact ⟨eventType, htype, hvalid.1.1.1.1.1.1.2, hsequence⟩

theorem pendingEvent_sequence {entries : JsonEntries} (h : pendingEvent entries = some e) :
    eventSequence (.obj entries) = some e.sequence := by
  obtain ⟨_, -, -, hsequence⟩ := pendingEvent_inv h
  exact hsequence

theorem pendingEvent_eventType {entries : JsonEntries} (h : pendingEvent entries = some e) :
    ∃ eventType, JsonValue.lookup "event_type" entries = some (.str eventType) ∧
      (eventType = "transcript.final" ∨ eventType = "translation.final") := by
  obtain ⟨eventType, htype, hkind, -⟩ := pendingEvent_inv h
  refine ⟨eventType, ?_, hkind⟩
  unfold textField at htype
  split at htype
  · rename_i s hlookup
    rw [hlookup, Option.some.inj htype]
  · cases htype

/-- An event above the cursor moves it, and its caption is taken in; one that is not is passed
over. -/
theorem takeEvent_spec {terminalTask : Bool} {sequence : ℤ} {entries : JsonEntries}
    {b b' : BatchProgress} (h : takeEvent cfg terminalTask sequence entries b = (b', false)) :
    TakesMore b.record b'.record ∧
      (sequence ≤ b.record.lastSequence ∧ b' = b ∨
        b.record.lastSequence < sequence ∧ b'.record.lastSequence = sequence ∧
          ∀ e, pendingEvent entries = some e → Taken b'.record e) := by
  unfold takeEvent at h
  split_ifs at h with hold
  · obtain rfl := (Prod.mk.inj h).1
    exact ⟨.refl _, Or.inl ⟨hold, rfl⟩⟩
  · have hnew := not_le.mp hold
    simp only at h
    split at h
    · rename_i eventType htype
      have hlookup : ∀ s, JsonValue.lookup "event_type" entries = some (.str s) →
          s = eventType := by
        intro s hs
        rw [hs] at htype
        exact JsonValue.str.inj htype
      split_ifs at h with hfinal
      · cases hpending : pendingEvent entries with
        | none => simp [hpending] at h
        | some item =>
          simp only [hpending, Prod.mk.injEq, and_true] at h
          subst h
          obtain ⟨hlast, hpend, hnotes⟩ := observeLanguage_same item
            { b.record with
              lastSequence := sequence
              pending := mergePending item b.record.pending }
          have htaken : Taken { b.record with
              lastSequence := sequence
              pending := mergePending item b.record.pending } item :=
            Or.inl mergePending_new
          refine ⟨⟨hnew.le.trans_eq hlast.symm, fun e he => ?_⟩, Or.inr ⟨hnew, hlast, ?_⟩⟩
          · apply Taken.congr _ hpend (congrArg CourseNotes.windows hnotes)
            rcases he with ⟨p, hp, hsupersedes⟩ | hwindow
            · obtain ⟨q, hq, hqp⟩ := mergePending_old item hp
              exact Or.inl ⟨q, hq, hqp.trans hsupersedes⟩
            · exact Or.inr hwindow
          · intro e he
            obtain rfl := Option.some.inj he
            exact htaken.congr hpend (congrArg CourseNotes.windows hnotes)
      · have hnone : ∀ e, pendingEvent entries ≠ some e := by
          intro e he
          obtain ⟨s, hs, hs'⟩ := pendingEvent_eventType he
          exact hfinal (hlookup s hs ▸ hs')
        split at h
        · obtain rfl := (Prod.mk.inj h).1
          obtain ⟨hlast, hpend, hnotes⟩ := noteTerminal_same cfg _
            { b.record with lastSequence := sequence }
          exact ⟨.of_same (hnew.le.trans_eq hlast.symm) hpend (congrArg CourseNotes.windows hnotes),
            Or.inr ⟨hnew, hlast, fun e he => absurd he (hnone e)⟩⟩
        · obtain rfl := (Prod.mk.inj h).1
          exact ⟨.of_same hnew.le rfl rfl, Or.inr ⟨hnew, rfl, fun e he => absurd he (hnone e)⟩⟩
    · rename_i value hvalue
      obtain rfl := (Prod.mk.inj h).1
      refine ⟨.of_same hnew.le rfl rfl, Or.inr ⟨hnew, rfl, fun e he => ?_⟩⟩
      obtain ⟨s, hs, -⟩ := pendingEvent_eventType he
      exact absurd (by rw [hs]; rfl) (hvalue s)

def numberedEvents (events : List JsonValue) : List (ℤ × JsonEntries) :=
  events.filterMap numberedEvent

theorem sortedEvents_eq {events : List JsonValue} {sorted : List (ℤ × JsonEntries)}
    (h : sortedEvents events = some sorted) :
    sorted = (numberedEvents events).insertionSort sequencePrecedes := by
  obtain ⟨numbered, hnumbered, rfl⟩ := Option.map_eq_some_iff.mp h
  congr 1
  clear h
  induction events generalizing numbered with
  | nil =>
    simp only [List.mapM_nil, Option.pure_def, Option.some.injEq] at hnumbered
    exact hnumbered.symm
  | cons raw events ih =>
    simp only [List.mapM_cons, Option.bind_eq_bind, Option.bind_eq_some_iff, Option.pure_def,
      Option.some.injEq] at hnumbered
    obtain ⟨entry, hentry, rest, hrest, rfl⟩ := hnumbered
    rw [numberedEvents, List.filterMap_cons_some hentry, ih rest hrest]
    rfl

theorem mem_finalCaptions {events : List JsonValue} :
    e ∈ finalCaptions events ↔
      ∃ entries, (e.sequence, entries) ∈ numberedEvents events ∧ pendingEvent entries = some e := by
  simp only [finalCaptions, numberedEvents, List.mem_filterMap]
  constructor
  · rintro ⟨raw, hraw, he⟩
    split at he
    · rename_i entries
      refine ⟨entries, ⟨.obj entries, hraw, ?_⟩, he⟩
      simp [numberedEvent, pendingEvent_sequence he]
    · cases he
  · rintro ⟨entries, ⟨raw, hraw, hentry⟩, he⟩
    refine ⟨raw, hraw, ?_⟩
    cases raw with
    | obj fields =>
      obtain ⟨_, _, heq⟩ := Option.map_eq_some_iff.mp hentry
      obtain rfl := (Prod.mk.inj heq).2
      exact he
    | _ => cases hentry

theorem numberedEvent_sequence {events : List JsonValue} {x : ℤ × JsonEntries}
    (hx : x ∈ numberedEvents events) (he : pendingEvent x.2 = some e) : e.sequence = x.1 := by
  obtain ⟨raw, -, hraw⟩ := List.mem_filterMap.mp hx
  cases raw with
  | obj fields =>
    obtain ⟨sequence, hsequence, rfl⟩ := Option.map_eq_some_iff.mp hraw
    exact Option.some.inj ((pendingEvent_sequence he).symm.trans hsequence)
  | _ => cases hraw

/-- What was above a cursor among the events that are through has been taken in. -/
def Handled (cursor : ℤ) (through : List (ℤ × JsonEntries)) (r : CourseRecord) : Prop :=
  ∀ entry ∈ through, cursor < entry.1 → ∀ e, pendingEvent entry.2 = some e → Taken r e

theorem Handled.mono {cursor : ℤ} {through : List (ℤ × JsonEntries)}
    (h : Handled cursor through r) (hmore : TakesMore r r') : Handled cursor through r' :=
  fun entry hentry hcursor e he => hmore.taken e (h entry hentry hcursor e he)

/-- The loop over the events of a batch. The cursor is where it was, or at an event that is
through. -/
theorem takeEvents_spec {terminalTask : Bool} (cursor : ℤ) (through : List (ℤ × JsonEntries))
    {l : List (ℤ × JsonEntries)} {b b' : BatchProgress}
    (hsorted : (through ++ l).Pairwise sequencePrecedes)
    (hsingle : ∀ x ∈ through ++ l, ∀ y ∈ through ++ l, x.1 = y.1 →
      pendingEvent x.2 = pendingEvent y.2)
    (hcursor : b.record.lastSequence = cursor ∨ ∃ x ∈ through, x.1 = b.record.lastSequence)
    (hhandled : Handled cursor through b.record)
    (h : takeEvents cfg terminalTask l b = (b', false)) :
    TakesMore b.record b'.record ∧ Handled cursor (through ++ l) b'.record ∧
      (b'.record.lastSequence = cursor ∨ ∃ x ∈ through ++ l, x.1 = b'.record.lastSequence) := by
  induction l generalizing through b with
  | nil =>
    obtain rfl := (Prod.mk.inj h).1
    rw [List.append_nil]
    exact ⟨.refl _, hhandled, hcursor⟩
  | cons entry l ih =>
    rw [takeEvents] at h
    split at h
    · cases h
    · rename_i b₁ hstep
      obtain ⟨hmore, hcase⟩ := takeEvent_spec hstep
      have hsplit : through ++ entry :: l = (through ++ [entry]) ++ l := by simp
      rw [hsplit] at hsorted hsingle ⊢
      have hentry : entry ∈ (through ++ [entry]) ++ l := by simp
      have hle : ∀ x ∈ through, x.1 ≤ entry.1 := by
        intro x hx
        exact (List.pairwise_append.mp (List.pairwise_append.mp hsorted).1).2.2 x hx entry
          (List.mem_singleton_self entry)
      have hcursor' : b₁.record.lastSequence = cursor ∨
          ∃ x ∈ through ++ [entry], x.1 = b₁.record.lastSequence := by
        rcases hcase with ⟨-, rfl⟩ | ⟨-, hlast, -⟩
        · exact hcursor.imp id fun ⟨x, hx, heq⟩ => ⟨x, List.mem_append_left _ hx, heq⟩
        · exact Or.inr ⟨entry, by simp, hlast.symm⟩
      have hhandled' : Handled cursor (through ++ [entry]) b₁.record := by
        intro x hx hxcursor e he
        rcases List.mem_append.mp hx with hx | hx
        · exact (hhandled.mono hmore) x hx hxcursor e he
        · obtain rfl := List.mem_singleton.mp hx
          rcases hcase with ⟨hold, rfl⟩ | ⟨-, -, htaken⟩
          · -- The event is at the cursor, where one with the same caption is through.
            rcases hcursor with heq | ⟨y, hy, heq⟩
            · exact absurd hxcursor (not_lt.mpr (hold.trans_eq heq))
            · have hsame : y.1 = x.1 := le_antisymm (hle y hy) (hold.trans_eq heq.symm)
              have hy' : y ∈ (through ++ [x]) ++ l := by simp [hy]
              rw [← hsingle y hy' x hentry hsame] at he
              exact hhandled y hy (hsame.symm ▸ hxcursor) e he
          · exact htaken e he
      obtain ⟨hmore', hrest⟩ := ih _ hsorted hsingle hcursor' hhandled' h
      exact ⟨IsTrans.trans _ _ _ hmore hmore', hrest⟩

/-- Where a batch gets to that does not raise. -/
structure BatchTakes (events : List JsonValue) (r r' : CourseRecord) : Prop where
  more : TakesMore r r'
  captions : ∀ e ∈ finalCaptions events, r.lastSequence < e.sequence → Taken r' e
  cursor : r'.lastSequence = r.lastSequence ∨
    ∃ x ∈ numberedEvents events, x.1 = r'.lastSequence

def SingleCaptions (events : List JsonValue) : Prop :=
  ∀ x ∈ numberedEvents events, ∀ y ∈ numberedEvents events, x.1 = y.1 →
    pendingEvent x.2 = pendingEvent y.2

theorem takeEvents_takes {terminalTask : Bool} {events : List JsonValue}
    {sorted : List (ℤ × JsonEntries)} {b : BatchProgress} (hsingle : SingleCaptions events)
    (hsorted : sortedEvents events = some sorted)
    (h : takeEvents cfg terminalTask sorted { record := r } = (b, false)) :
    BatchTakes events r b.record := by
  obtain rfl := sortedEvents_eq hsorted
  have hmem : ∀ x, x ∈ (numberedEvents events).insertionSort sequencePrecedes ↔
      x ∈ numberedEvents events := fun x => List.mem_insertionSort _
  have : IsTrans (ℤ × JsonEntries) sequencePrecedes := ⟨fun _ _ _ => le_trans⟩
  have : Std.Total (α := ℤ × JsonEntries) sequencePrecedes := ⟨fun x y => le_total x.1 y.1⟩
  have hspec := takeEvents_spec r.lastSequence []
    (List.pairwise_insertionSort sequencePrecedes _)
    (fun x hx y hy => hsingle x ((hmem x).mp hx) y ((hmem y).mp hy)) (Or.inl rfl)
    (fun _ hx => nomatch hx) h
  refine ⟨hspec.1, fun e he hnew => ?_, ?_⟩
  · obtain ⟨entries, hentry, hpending⟩ := mem_finalCaptions.mp he
    exact hspec.2.1 _ ((hmem _).mpr hentry) hnew e hpending
  · exact hspec.2.2.imp id fun ⟨x, hx, heq⟩ => ⟨x, (hmem x).mp hx, heq⟩

theorem eventBatch_takes {background terminalTask : Bool} {events : List JsonValue}
    {window : Option (List PendingEvent)} {terminal : Bool} (hsingle : SingleCaptions events)
    (h : eventBatch cfg background terminalTask events r = .changed r' window terminal) :
    BatchTakes events r r' := by
  unfold eventBatch at h
  split at h
  · cases h
  · rename_i sorted hsorted
    split at h
    · cases h
    · rename_i b htake
      have htakes := takeEvents_takes hsingle hsorted htake
      split_ifs at h
      · cases h
        exact htakes
      · split at h
        · cases h
        · split_ifs at h
          · cases h
            exact ⟨IsTrans.trans _ _ _ htakes.more (.of_same le_rfl rfl rfl),
              fun e he hnew => (htakes.captions e he hnew).congr rfl rfl, htakes.cursor⟩
          · cases h
            exact htakes

/-- Nothing about an event raises: its type is a value to ask for in a set, and a final caption has
what it needs. -/
def wellFormed (entries : JsonEntries) : Bool :=
  match (JsonValue.lookup "event_type" entries).getD .null with
  | .str eventType =>
    !(eventType = "transcript.final" || eventType = "translation.final") ||
      (pendingEvent entries).isSome
  | value => hashable value

theorem takeEvent_fine {terminalTask : Bool} {sequence : ℤ} {entries : JsonEntries}
    {b : BatchProgress} (h : b.record.lastSequence < sequence → wellFormed entries = true) :
    (takeEvent cfg terminalTask sequence entries b).2 = false := by
  unfold takeEvent
  split_ifs with hold
  · rfl
  · have hfine := h (not_le.mp hold)
    unfold wellFormed at hfine
    simp only
    split
    · rename_i eventType htype
      simp only [htype] at hfine
      split_ifs with hfinal
      · have hcases : (eventType ≠ "transcript.final" ∧ eventType ≠ "translation.final") ∨
            (pendingEvent entries).isSome = true := by simpa using hfine
        have hsome := hcases.resolve_left fun h => hfinal.elim h.1 h.2
        obtain ⟨item, hitem⟩ := Option.isSome_iff_exists.mp hsome
        rw [hitem]
      · split <;> rfl
    · rename_i value hvalue
      split at hfine
      · rename_i s hs
        exact absurd hs (hvalue s)
      · rw [hfine]
        rfl

theorem takeEvent_pending {terminalTask : Bool} {sequence : ℤ} {entries : JsonEntries}
    {b : BatchProgress} (he :
      e ∈ (takeEvent cfg terminalTask sequence entries b).1.record.pending) :
    e ∈ b.record.pending ∨ pendingEvent entries = some e := by
  unfold takeEvent at he
  split_ifs at he
  · exact Or.inl he
  · simp only at he
    split at he
    · split_ifs at he
      · split at he
        · exact Or.inl he
        · rename_i item hitem
          rw [(observeLanguage_same item _).2.1] at he
          simp only [mergePending, List.mem_insertionSort] at he
          split_ifs at he
          · obtain ⟨q, hq, heq⟩ := List.mem_map.mp he
            split_ifs at heq
            · exact Or.inr (heq ▸ hitem)
            · exact Or.inl (heq ▸ hq)
          · rcases List.mem_append.mp he with he | he
            · exact Or.inl he
            · exact Or.inr (List.mem_singleton.mp he ▸ hitem)
      · split at he
        · rw [(noteTerminal_same cfg _ _).2.1] at he
          exact Or.inl he
        · exact Or.inl he
    · exact Or.inl he

theorem takeEvents_fine (cfg : CourseConfig) (terminalTask : Bool) {cursor : ℤ}
    {l : List (ℤ × JsonEntries)} {b : BatchProgress} (hcursor : cursor ≤ b.record.lastSequence)
    (h : ∀ x ∈ l, cursor < x.1 → wellFormed x.2 = true) :
    ∃ b', takeEvents cfg terminalTask l b = (b', false) ∧
      ∀ e ∈ b'.record.pending, e ∈ b.record.pending ∨ ∃ x ∈ l, pendingEvent x.2 = some e := by
  induction l generalizing b with
  | nil => exact ⟨b, rfl, fun e he => Or.inl he⟩
  | cons entry l ih =>
    have hfine : (takeEvent cfg terminalTask entry.1 entry.2 b).2 = false := by
      apply takeEvent_fine
      intro hnew
      exact h entry List.mem_cons_self (hcursor.trans_lt hnew)
    have hstep : takeEvent cfg terminalTask entry.1 entry.2 b =
        ((takeEvent cfg terminalTask entry.1 entry.2 b).1, false) := Prod.ext rfl hfine
    have hcursor' := hcursor.trans (takeEvent_spec hstep).1.lastSequence
    obtain ⟨b', htake, hpending⟩ := ih hcursor' fun x hx => h x (List.mem_cons_of_mem _ hx)
    refine ⟨b', ?_, fun e he => ?_⟩
    · rw [takeEvents, hstep]
      exact htake
    · rcases hpending e he with he | ⟨x, hx, he⟩
      · rcases takeEvent_pending he with he | he
        · exact Or.inl he
        · exact Or.inr ⟨entry, List.mem_cons_self, he⟩
      · exact Or.inr ⟨x, List.mem_cons_of_mem _ hx, he⟩

theorem mem_of_latestEvent {events : List PendingEvent} (h : latestEvent events = some e) :
    e ∈ events := by
  cases events with
  | nil => cases h
  | cons first rest =>
    obtain rfl := Option.some.inj h
    clear h
    induction rest generalizing first with
    | nil => exact List.mem_singleton_self first
    | cons second rest ih =>
      rw [List.foldl_cons]
      split_ifs
      · exact List.mem_cons_of_mem _ (ih second)
      · rcases List.mem_cons.mp (ih first) with heq | hmem
        · rw [heq]
          exact List.mem_cons_self
        · exact List.mem_cons_of_mem _ (List.mem_cons_of_mem _ hmem)

theorem preferredFragments_isSome {pending : List PendingEvent} (outputLanguage : String)
    (h : ∀ e ∈ pending, e.fragment.isSome = true) :
    (preferredFragments pending outputLanguage).isSome = true := by
  have hall : ∀ l : List PendingEvent, (∀ e ∈ l, e.fragment.isSome = true) →
      (l.mapM PendingEvent.fragment).isSome = true := by
    intro l hl
    induction l with
    | nil => rfl
    | cons first rest ih =>
      obtain ⟨f, hf⟩ := Option.isSome_iff_exists.mp (hl first List.mem_cons_self)
      obtain ⟨fs, hfs⟩ := Option.isSome_iff_exists.mp
        (ih fun e he => hl e (List.mem_cons_of_mem _ he))
      simp [List.mapM_cons, hf, hfs]
  apply hall
  intro e he
  have hkept := (List.mem_insertionSort _).mp he
  obtain ⟨group, hgroup, hpreferred⟩ := List.mem_filterMap.mp (List.mem_of_mem_filter hkept)
  obtain ⟨sources, -, rfl⟩ := List.mem_map.mp hgroup
  apply h
  unfold preferredEvent at hpreferred
  have hlatest := mem_of_latestEvent hpreferred
  split_ifs at hlatest
  · exact List.mem_of_mem_filter (List.mem_of_mem_filter hlatest)
  · exact List.mem_of_mem_filter (List.mem_of_mem_filter hlatest)
  · exact List.mem_of_mem_filter hlatest

/-- No event above the cursor is refused, and a fragment can be made of every caption, unless a
window is under way anyway. -/
structure Accepted (p : CourseProcess) (events : List JsonValue) : Prop where
  formed : ∀ x ∈ numberedEvents events, p.state.lastSequence < x.1 → wellFormed x.2 = true
  fragments : p.tasks.any CourseTask.isBackground = true ∨
    ∀ e ∈ p.state.pending ++ finalCaptions events, e.fragment.isSome = true

/-- A batch that is accepted raises for an event without a sequence only, before anything else. -/
theorem Accepted.raised {p : CourseProcess} {events : List JsonValue} (h : Accepted p events)
    (hraised : eventBatch cfg (p.tasks.any CourseTask.isBackground) p.terminalTask events
      p.state.toCourseRecord = .raised r) : r = p.state.toCourseRecord := by
  unfold eventBatch at hraised
  split at hraised
  · exact (BatchOutcome.raised.inj hraised).symm
  · rename_i sorted hsorted
    obtain rfl := sortedEvents_eq hsorted
    have hmem : ∀ x, x ∈ (numberedEvents events).insertionSort sequencePrecedes ↔
        x ∈ numberedEvents events := fun x => List.mem_insertionSort _
    obtain ⟨b, htake, hpending⟩ := takeEvents_fine cfg p.terminalTask
      (b := { record := p.state.toCourseRecord }) le_rfl
      fun x hx => h.formed x ((hmem x).mp hx)
    rw [htake] at hraised
    simp only at hraised
    split_ifs at hraised with hchanged hbackground
    split at hraised
    · rename_i hnone
      have hfragments := h.fragments.resolve_left (by simpa using hbackground)
      have hsome : (b.record.windowReady? cfg).isSome = true := by
        unfold CourseRecord.windowReady?
        rw [Option.isSome_map]
        apply preferredFragments_isSome
        intro e he
        apply hfragments
        rcases hpending e he with he | ⟨x, hx, he⟩
        · exact List.mem_append_left _ he
        · apply List.mem_append_right
          refine mem_finalCaptions.mpr ⟨x.2, ?_, he⟩
          rw [numberedEvent_sequence ((hmem x).mp hx) he]
          exact (hmem x).mp hx
      rw [hnone] at hsome
      cases hsome
    · split_ifs at hraised

/-- A batch continues from the cursor: what it has at or below it was delivered before, what was
delivered before above it, up to the last of the batch, is in it again, and one sequence has one
caption. -/
structure ContinuesFrom (delivered : List PendingEvent) (cursor : ℤ) (events : List JsonValue) :
    Prop where
  known : ∀ e ∈ finalCaptions events, e.sequence ≤ cursor → e ∈ delivered
  again : ∀ e ∈ delivered, cursor < e.sequence →
    ∀ x ∈ numberedEvents events, e.sequence ≤ x.1 → e ∈ finalCaptions events
  single : SingleCaptions events

/-- A session is opened with a cursor that is stored; a batch continues from the cursor and is
accepted; the state behind a batch is not refused; and a translation is of notes that every window
is in. -/
def Careful (w : CourseWorld) : CourseAction → Prop
  | .opening afterSequence => afterSequence ≤ w.base.lastSequence
  | .batch events _ => ∀ p, w.process = some p →
      ContinuesFrom w.delivered p.state.lastSequence events ∧ Accepted p events
  | .refuses kind => kind.isBatch = false
  | .outcome (.language _ notes) _ => ∀ p, w.process = some p →
      ∀ window ∈ p.state.notes.windows, window ≠ [] → window ∈ notes.windows
  | _ => True

/-- What was delivered up to its cursor has been taken in. -/
def UpToCursor (delivered : List PendingEvent) (r : CourseRecord) : Prop :=
  ∀ e ∈ delivered, e.sequence ≤ r.lastSequence → Taken r e

/-- Everything that is stored, or may be, or is in the memory, has what was delivered up to its
cursor; and the cursor of the memory is stored, or is about to be with a batch. -/
structure Durable (delivered : List PendingEvent) (base : CourseRecord) (version : ℕ)
    (p : CourseProcess) : Prop where
  order : InOrder TakesMore base version p
  memory : UpToCursor delivered p.state.toCourseRecord
  writes : ∀ kind record expected, ⟨kind, .storing record expected⟩ ∈ p.operations →
    UpToCursor delivered record
  storing : ∀ kind record expected, kind.isBatch = true →
    ⟨kind, .storing record expected⟩ ∈ p.operations → record.lastSequence = p.state.lastSequence
  stored : ∀ kind known, kind.isBatch = true → ⟨kind, .stored known⟩ ∈ p.operations →
    p.state.lastSequence ≤ base.lastSequence
  cursor : p.state.lastSequence ≤ base.lastSequence ∨
    ∃ kind record expected, kind.isBatch = true ∧
      ⟨kind, .storing record expected⟩ ∈ p.operations

theorem UpToCursor.of_takes {delivered : List PendingEvent} (h : UpToCursor delivered r)
    (hmore : TakesMore r r') (hlast : r'.lastSequence ≤ r.lastSequence) :
    UpToCursor delivered r' :=
  fun e he hle => hmore.taken e (h e he (hle.trans hlast))

theorem UpToCursor.deliver {delivered : List PendingEvent} {cursor : ℤ} {events : List JsonValue}
    (h : UpToCursor delivered r) (hcursor : r.lastSequence ≤ cursor)
    (hcontinues : ContinuesFrom delivered cursor events) :
    UpToCursor (delivered ++ finalCaptions events) r := by
  intro e he hle
  rcases List.mem_append.mp he with he | he
  · exact h e he hle
  · exact h e (hcontinues.known e he (hle.trans hcursor)) hle

theorem BatchTakes.upToCursor {delivered : List PendingEvent} {events : List JsonValue}
    (htakes : BatchTakes events r r') (h : UpToCursor delivered r)
    (hcontinues : ContinuesFrom delivered r.lastSequence events) :
    UpToCursor (delivered ++ finalCaptions events) r' := by
  intro e he hle
  by_cases hold : e.sequence ≤ r.lastSequence
  · exact htakes.more.taken e (h.deliver le_rfl hcontinues e he hold)
  · have hnew := not_le.mp hold
    apply htakes.captions e _ hnew
    rcases List.mem_append.mp he with he | he
    · rcases htakes.cursor with heq | ⟨x, hx, heq⟩
      · exact absurd (hle.trans_eq heq) hold
      · exact hcontinues.again e he hnew x hx (hle.trans_eq heq.symm)
    · exact he

theorem outcome_takesMore {task : CourseTask} {outcome : TaskOutcome} {left : Option CourseTask}
    (h : task.outcome cfg r outcome = some (left, r'))
    (hlanguage : ∀ target notes, task = .language target notes →
      ∀ window ∈ r.notes.windows, window ≠ [] → window ∈ notes.windows) :
    TakesMore r r' ∧ r'.lastSequence = r.lastSequence := by
  unfold CourseTask.outcome at h
  split at h
  · cases h
    exact ⟨commitWindow_takesMore _ _ _ _ _, rfl⟩
  · cases h
    exact ⟨commitWindow_takesMore _ _ _ _ _, rfl⟩
  · cases h
    exact ⟨commitWindow_takesMore _ _ _ _ _, rfl⟩
  · split_ifs at h
    cases h
    refine ⟨⟨le_rfl, fun e he => he.imp id ?_⟩, rfl⟩
    rintro ⟨window, hwindow, p, hp, hsupersedes⟩
    exact ⟨window, hlanguage _ _ rfl window hwindow (List.ne_nil_of_mem hp), p, hp, hsupersedes⟩
  · cases h
    exact ⟨.of_same le_rfl rfl rfl, rfl⟩
  · cases h
    exact ⟨.of_same le_rfl rfl rfl, rfl⟩
  · cases h

/-- A careful step moves the memory to where it has taken in no less. -/
theorem Careful.moves {w w' : CourseWorld} {a : CourseAction} (hcareful : Careful w a)
    (hstep : CourseSteps cfg w a w') : MemoryMoves TakesMore w w' := by
  intro q hq
  cases hclosed : w.process with
  | none =>
    obtain ⟨afterSequence, hrecord⟩ := hstep.memory_of_closed hclosed hq
    rw [hrecord]
    unfold CourseWorld.base restoredState
    cases w.stored with
    | none => exact .of_same (le_max_left _ _) rfl rfl
    | some record => exact .of_same (le_max_left _ _) rfl rfl
  | some p =>
    rcases hstep.memory_cases hclosed hq with hsame | ⟨events, answer, rfl, hbatch⟩ |
        ⟨c, id, -, hrecord⟩ | ⟨task, outcome, left, rfl, -, houtcome⟩ | ⟨-, -, hrecord⟩
    · rw [hsame]
      exact .refl _
    · obtain ⟨hcontinues, haccepted⟩ := hcareful p hclosed
      rcases hbatch with hraised | ⟨window, terminal, hchanged⟩
      · rw [haccepted.raised hraised]
        exact .refl _
      · exact (eventBatch_takes hcontinues.single hchanged).more
    · rw [hrecord]
      exact .of_same le_rfl rfl rfl
    · refine (outcome_takesMore houtcome ?_).1
      rintro target notes rfl
      exact hcareful p hclosed
    · rw [hrecord]
      exact .of_same le_rfl rfl rfl

section

variable {delivered : List PendingEvent} {base : CourseRecord} {version : ℕ}
  {p p' : CourseProcess} {events : List JsonValue}

/-- The memory has taken in no less, at the same cursor, and what is new under way is no batch. -/
theorem Durable.next (h : Durable delivered base version p)
    (horder : InOrder TakesMore base version p')
    (hlast : p'.state.lastSequence = p.state.lastSequence)
    (hmore : TakesMore p.state.toCourseRecord p'.state.toCourseRecord)
    (hops : ∀ op ∈ p'.operations, op ∈ p.operations ∨ op.kind.isBatch = false ∧
      ∀ record expected, op.stage = .storing record expected → record = p'.state.toDict)
    (hkeep : ∀ kind record expected, kind.isBatch = true →
      ⟨kind, .storing record expected⟩ ∈ p.operations →
        ⟨kind, .storing record expected⟩ ∈ p'.operations) :
    Durable delivered base version p' := by
  have hmemory : UpToCursor delivered p'.state.toCourseRecord := h.memory.of_takes hmore hlast.le
  refine ⟨horder, hmemory, ?_, ?_, ?_, ?_⟩
  · intro kind record expected hmem
    rcases hops _ hmem with hold | ⟨-, hnew⟩
    · exact h.writes kind record expected hold
    · rw [hnew record expected rfl]
      exact hmemory.of_takes (KeepsDict.le_dict p'.state) le_rfl
  · intro kind record expected hbatch hmem
    rcases hops _ hmem with hold | ⟨hnone, -⟩
    · exact (h.storing kind record expected hbatch hold).trans hlast.symm
    · exact absurd (hbatch.symm.trans hnone) (by simp)
  · intro kind known hbatch hmem
    rcases hops _ hmem with hold | ⟨hnone, -⟩
    · exact hlast.trans_le (h.stored kind known hbatch hold)
    · exact absurd (hbatch.symm.trans hnone) (by simp)
  · rcases h.cursor with hle | ⟨kind, record, expected, hbatch, hmem⟩
    · exact Or.inl (hlast.trans_le hle)
    · exact Or.inr ⟨kind, record, expected, hbatch, hkeep kind record expected hbatch hmem⟩

theorem Durable.settle {before after : List Operation} {settled : Operation}
    (h : Durable delivered base version p)
    (hoperation : p.operations = before ++ settled :: after)
    (hstage : ∀ record expected, settled.stage ≠ .storing record expected) :
    Durable delivered base version { p with operations := before ++ after } := by
  refine h.next (h.order.drop fun op hop => mem_of_split hoperation hop) rfl (.refl _)
    (fun op hop => Or.inl (mem_of_split hoperation hop)) ?_
  intro k record expected _ hmem
  rw [hoperation] at hmem
  rcases List.mem_append.mp hmem with hmem | hmem
  · exact List.mem_append_left _ hmem
  · rcases List.mem_cons.mp hmem with heq | hmem
    · cases heq
      exact absurd rfl (hstage record expected)
    · exact List.mem_append_right _ hmem

/-- What is under way stays, and what is new is no batch and is not to be stored. -/
theorem Durable.goOn (op : Operation) (h : Durable delivered base version p)
    (horder : InOrder TakesMore base version p')
    (hrecord : p'.state.toCourseRecord = p.state.toCourseRecord)
    (hop : op.kind.isBatch = false)
      (hstage : ∀ record expected, op.stage ≠ .storing record expected)
    (hops : p'.operations = p.operations ∨ p'.operations = op :: p.operations) :
    Durable delivered base version p' := by
  have hmore : TakesMore p.state.toCourseRecord p'.state.toCourseRecord := by
    rw [hrecord]
    exact .refl _
  refine h.next horder (by rw [hrecord]) hmore ?_ ?_
  · intro op' hop'
    rcases hops with hops | hops
    · rw [hops] at hop'
      exact Or.inl hop'
    · rw [hops] at hop'
      rcases List.mem_cons.mp hop' with rfl | hop'
      · exact Or.inr ⟨hop, fun record expected heq => absurd heq (hstage record expected)⟩
      · exact Or.inl hop'
  · intro k record expected _ hmem
    rcases hops with hops | hops
    · rw [hops]
      exact hmem
    · rw [hops]
      exact List.mem_cons_of_mem _ hmem

theorem CourseProcess.not_batch_of_lockFree (hlock : p.lockFree = true) {op : Operation}
    (hop : op ∈ p.operations) : op.kind.isBatch = false := by
  have hfree := List.all_eq_true.mp hlock op hop
  cases hkind : op.kind with
  | batch window terminal => simp [hkind, OperationKind.locks] at hfree
  | _ => rfl

theorem Durable.cursor_of_lockFree (h : Durable delivered base version p)
    (hlock : p.lockFree = true) : p.state.lastSequence ≤ base.lastSequence := by
  rcases h.cursor with hle | ⟨kind, record, expected, hbatch, hmem⟩
  · exact hle
  · exact absurd (hbatch.symm.trans (CourseProcess.not_batch_of_lockFree hlock hmem)) (by simp)

/-- What a batch delivers does not matter to what is stored, or may be. -/
theorem Durable.deliver_writes (h : Durable delivered base version p)
    (hcontinues : ContinuesFrom delivered p.state.lastSequence events) (kind : OperationKind)
    (record : CourseRecord) (expected : ℕ)
    (hmem : ⟨kind, .storing record expected⟩ ∈ p.operations) :
    UpToCursor (delivered ++ finalCaptions events) record := by
  apply (h.writes kind record expected hmem).deliver _ hcontinues
  exact (h.order.ordered.write_memory _ (List.mem_filterMap.mpr ⟨_, hmem, rfl⟩)).lastSequence

theorem Durable.batch_unchanged (h : Durable delivered base version p)
    (hcontinues : ContinuesFrom delivered p.state.lastSequence events) :
    Durable (delivered ++ finalCaptions events) base version p :=
  ⟨h.order, h.memory.deliver le_rfl hcontinues, h.deliver_writes hcontinues, h.storing, h.stored,
    h.cursor⟩

theorem Durable.batch_changed (h : Durable delivered base version p) (hlock : p.lockFree = true)
    (hcontinues : ContinuesFrom delivered p.state.lastSequence events)
    (htakes : BatchTakes events p.state.toCourseRecord r) (window : Option (List PendingEvent))
    (terminal : Bool) :
    Durable (delivered ++ finalCaptions events) base version
      ((p.setRecord r).putState (.batch window terminal)) := by
  have hmemory := htakes.upToCursor h.memory hcontinues
  refine ⟨(h.order.advance htakes.more).putState, hmemory, ?_, ?_, ?_, ?_⟩
  · intro kind record expected hmem
    rcases List.mem_cons.mp hmem with heq | hmem
    · cases heq
      exact hmemory.of_takes (KeepsDict.le_dict (p.setRecord r).state) le_rfl
    · exact h.deliver_writes hcontinues kind record expected hmem
  · intro kind record expected hbatch hmem
    rcases List.mem_cons.mp hmem with heq | hmem
    · cases heq
      rfl
    · have hnone := CourseProcess.not_batch_of_lockFree hlock hmem
      exact absurd (hbatch.symm.trans hnone) (by simp)
  · intro kind known hbatch hmem
    rcases List.mem_cons.mp hmem with heq | hmem
    · cases heq
    · have hnone := CourseProcess.not_batch_of_lockFree hlock hmem
      exact absurd (hbatch.symm.trans hnone) (by simp)
  · exact Or.inr ⟨_, _, _, rfl, List.mem_cons_self⟩

theorem Durable.stores {kind : OperationKind} {record : CourseRecord}
    {before after : List Operation} (h : Durable delivered base version p)
    (hoperation : p.operations = before ++ ⟨kind, .storing record version⟩ :: after)
    (horder : InOrder TakesMore record (version + 1)
      { p with operations := before ++ ⟨kind, .stored (version + 1)⟩ :: after }) :
    Durable delivered record (version + 1)
      { p with operations := before ++ ⟨kind, .stored (version + 1)⟩ :: after } := by
  have hmem : ⟨kind, .storing record version⟩ ∈ p.operations := by
    rw [hoperation]
    exact List.mem_append_right _ List.mem_cons_self
  have hold : ∀ op ∈ before ++ ⟨kind, .stored (version + 1)⟩ :: after,
      op ∈ p.operations ∨ op = ⟨kind, .stored (version + 1)⟩ :=
    fun _ => mem_or_eq_of_split hoperation
  have hbase : base.lastSequence ≤ record.lastSequence :=
    (h.order.ordered.stored_write _ (List.mem_filterMap.mpr ⟨_, hmem, rfl⟩) rfl).lastSequence
  refine ⟨horder, h.memory, ?_, ?_, ?_, ?_⟩
  · intro k r expected hop
    rcases hold _ hop with hop | heq
    · exact h.writes k r expected hop
    · cases heq
  · intro k r expected hbatch hop
    rcases hold _ hop with hop | heq
    · exact h.storing k r expected hbatch hop
    · cases heq
  · intro k known hbatch hop
    rcases hold _ hop with hop | heq
    · exact (h.stored k known hbatch hop).trans hbase
    · cases heq
      exact (h.storing kind record version hbatch hmem).ge
  · rcases h.cursor with hle | ⟨k, r, expected, hbatch, hop⟩
    · exact Or.inl (hle.trans hbase)
    · -- The batch that is to bring the cursor is the one that is stored, or it stays under way.
      rw [hoperation] at hop
      rcases List.mem_append.mp hop with hop | hop
      · exact Or.inr ⟨k, r, expected, hbatch, List.mem_append_left _ hop⟩
      · rcases List.mem_cons.mp hop with heq | hop
        · cases heq
          exact Or.inl (h.storing kind record version hbatch hmem).ge
        · exact Or.inr ⟨k, r, expected, hbatch,
            List.mem_append_right _ (List.mem_cons_of_mem _ hop)⟩

end

/-- The host has everything up to the cursor of what is stored, and so has the session. -/
structure DurableWorld (w : CourseWorld) : Prop where
  base : UpToCursor w.delivered w.base
  process : ∀ p, w.process = some p → Durable w.delivered w.base w.version p

/-- Only the session moves. -/
theorem DurableWorld.goOn {w w' : CourseWorld} {p : CourseProcess} (h : DurableWorld w)
    (hdelivered : w'.delivered = w.delivered) (hbase : w'.base = w.base)
    (hprocess : w'.process = some p) (hp : Durable w'.delivered w'.base w'.version p) :
    DurableWorld w' := by
  refine ⟨?_, fun q hq => ?_⟩
  · rw [hdelivered, hbase]
    exact h.base
  · obtain rfl := Option.some.inj (hprocess.symm.trans hq)
    exact hp

theorem DurableWorld.step {w w' : CourseWorld} {a : CourseAction} (h : DurableWorld w)
    (hstep : Under Careful (CourseSteps cfg) w a w') : DurableWorld w' := by
  obtain ⟨hcareful, hstep⟩ := hstep
  have hmove := hcareful.moves hstep
  have horder := hstep.inOrder (fun p hp => (h.process p hp).order) hmove
  cases hstep with
  | opening afterSequence hclosed hafter =>
    refine h.goOn rfl rfl rfl ?_
    have hmore := hmove _ rfl
    rw [hclosed] at hmore
    have hlast : (restoredState cfg.toRealtimeConfig w.version w.stored
        afterSequence).lastSequence ≤ w.base.lastSequence := by
      have hafter' : afterSequence ≤ w.base.lastSequence := hcareful
      unfold CourseWorld.base at hafter' ⊢
      cases hstored : w.stored with
      | none =>
        rw [hstored] at hafter'
        exact max_le le_rfl hafter'
      | some record =>
        rw [hstored] at hafter'
        exact max_le le_rfl hafter'
    have hnone : ∀ kind stage, (∀ row, stage ≠ .publishing row) →
        (⟨kind, stage⟩ : Operation) ∉
          (CourseProcess.opening cfg w.version w.stored afterSequence).operations := by
      intro kind stage hstage hmem
      rcases List.mem_cons.mp hmem with heq | hmem
      · exact hstage _ (Operation.mk.inj heq).2
      · cases hmem
    exact ⟨horder _ rfl, h.base.of_takes hmore hlast,
      fun kind record expected hmem => absurd hmem (hnone kind _ (by simp)),
      fun kind record expected _ hmem => absurd hmem (hnone kind _ (by simp)),
      fun kind known _ hmem => absurd hmem (hnone kind _ (by simp)), Or.inl hlast⟩
  | batch events hprocess hopened hlock =>
    have hp := h.process _ hprocess
    obtain ⟨hcontinues, haccepted⟩ := hcareful _ hprocess
    refine ⟨h.base.deliver hp.order.ordered.stored_memory.lastSequence hcontinues, fun q hq => ?_⟩
    obtain rfl := Option.some.inj hq
    rcases CourseProcess.batch_cases cfg _ events with ⟨r, hraised, heq⟩ | ⟨-, heq⟩ |
        ⟨r, window, terminal, hchanged, heq⟩
    · rw [heq, haccepted.raised hraised]
      exact hp.batch_unchanged hcontinues
    · rw [heq]
      exact hp.batch_unchanged hcontinues
    · rw [heq]
      exact hp.batch_changed hlock hcontinues (eventBatch_takes hcontinues.single hchanged) window
        terminal
  | command c hprocess hopened =>
    refine h.goOn rfl rfl rfl ?_
    have hmore := hmove _ rfl
    rw [hprocess] at hmore
    have hq' := horder _ rfl
    rcases CourseProcess.command_cases _ c with ⟨terminalJobId, kind, hkind, -, heq⟩ |
        ⟨hstate, hops⟩
    · rw [heq] at hmore hq' ⊢
      refine (h.process _ hprocess).next hq' rfl hmore ?_ ?_
      · intro op hop
        rcases List.mem_cons.mp hop with rfl | hop
        · exact Or.inr ⟨hkind, fun record expected hstage =>
            (OperationStage.storing.inj hstage).1.symm⟩
        · exact Or.inl hop
      · exact fun k record expected _ hmem => List.mem_cons_of_mem _ hmem
    · refine (h.process _ hprocess).next hq' (by rw [hstate]) hmore ?_ ?_
      · intro op hop
        rw [hops] at hop
        exact Or.inl hop
      · intro k record expected _ hmem
        rw [hops]
        exact hmem
  | outcome outcome hprocess hlock htask houtcome =>
    refine h.goOn rfl rfl rfl ?_
    have hmore := hmove _ rfl
    rw [hprocess] at hmore
    refine (h.process _ hprocess).next (horder _ rfl) ?_ hmore ?_ ?_
    · refine (outcome_takesMore houtcome ?_).2
      rintro target notes rfl
      exact hcareful _ hprocess
    · intro op hop
      rcases List.mem_cons.mp hop with rfl | hop
      · exact Or.inr ⟨rfl, fun record expected hstage =>
          (OperationStage.storing.inj hstage).1.symm⟩
      · exact Or.inl hop
    · exact fun k record expected _ hmem => List.mem_cons_of_mem _ hmem
  | advanced hprocess | ended hprocess =>
    refine h.goOn rfl rfl rfl ?_
    exact (h.process _ hprocess).next (horder _ rfl) rfl (.refl _) (fun op hop => Or.inl hop)
      fun k record expected _ hmem => hmem
  | stores hprocess hoperation =>
    have hp := h.process _ hprocess
    refine ⟨?_, fun q hq => ?_⟩
    · apply hp.writes _ _ w.version
      rw [hoperation]
      exact List.mem_append_right _ List.mem_cons_self
    · obtain rfl := Option.some.inj hq
      exact hp.stores hoperation (horder _ rfl)
  | refuses hprocess hoperation =>
    refine h.goOn rfl rfl rfl ?_
    refine (h.process _ hprocess).next (horder _ rfl) rfl (.refl _)
      (fun op hop => Or.inl (mem_of_split hoperation hop)) ?_
    intro k record expected hbatch hmem
    have hkind : OperationKind.isBatch _ = false := hcareful
    rw [hoperation] at hmem
    rcases List.mem_append.mp hmem with hmem | hmem
    · exact List.mem_append_left _ hmem
    · rcases List.mem_cons.mp hmem with heq | hmem
      · cases heq
        exact absurd (hbatch.symm.trans hkind) (by simp)
      · exact List.mem_append_right _ hmem
  | resumes hprocess hoperation =>
    refine h.goOn rfl rfl rfl ?_
    rename_i p kind known before after
    have hp := (h.process _ hprocess).settle hoperation (by simp)
    rcases resume_operations { p with operations := before ++ after } kind known with
      hops | ⟨hkind, hops⟩
    · exact hp.goOn ⟨.opening, .published⟩ (horder _ rfl) (resume_record _ _ _) rfl
        (by simp) (Or.inl hops)
    · exact hp.goOn _ (horder _ rfl) (resume_record _ _ _) hkind (by simp) (Or.inr hops)
  | publishes hprocess hoperation haccepts =>
    refine h.goOn rfl rfl rfl ?_
    rename_i p kind row before after
    have hp := (h.process _ hprocess).settle hoperation (by simp)
    have hstate := congrArg CourseState.toCourseRecord
      (finishPublishing_state { p with operations := before ++ after } kind)
    exact hp.goOn ⟨.opening, .published⟩ (horder _ rfl) hstate rfl (by simp)
      ((finishPublishing_operations { p with operations := before ++ after } kind).imp id And.right)
  | rejects hprocess hoperation | loses hprocess hoperation =>
    refine h.goOn rfl rfl rfl ?_
    exact (h.process _ hprocess).settle hoperation (by simp)
  | opened hprocess hoperation =>
    refine h.goOn rfl rfl rfl ?_
    have hp := (h.process _ hprocess).settle hoperation (by simp)
    have hq' := horder _ rfl
    rcases CourseProcess.finishOpening_cases cfg _ with ⟨-, heq⟩ | ⟨hstate, hops⟩
    · rw [heq] at hq' ⊢
      refine hp.next hq' rfl (.of_same le_rfl rfl rfl) ?_ ?_
      · intro op hop
        rcases List.mem_cons.mp hop with rfl | hop
        · exact Or.inr ⟨rfl, fun record expected hstage =>
            (OperationStage.storing.inj hstage).1.symm⟩
        · exact Or.inl hop
      · exact fun k record expected _ hmem => List.mem_cons_of_mem _ hmem
    · exact hp.goOn ⟨.opening, .published⟩ hq' (by rw [hstate]) rfl (by simp) (Or.inl hops)
  | crashed => exact ⟨h.base, fun q hq => by cases hq⟩

/-- What a batch is answered with. -/
def CourseAction.answer : CourseAction → Option ℤ
  | .batch _ answer => answer
  | .resumes _ answer => answer
  | _ => none

/-- The host has stored a state that has got to a cursor, and has every caption up to it. -/
def CourseWorld.HasUpTo (w : CourseWorld) (n : ℤ) : Prop :=
  n ≤ w.base.lastSequence ∧ ∀ e ∈ w.delivered, e.sequence ≤ n → Taken w.base e

/-- A batch that is answered at once is answered with the cursor of the memory. -/
theorem CourseProcess.batch_answer {p : CourseProcess} {events : List JsonValue} {n : ℤ}
    (h : (p.batch cfg events).2 = some n) :
    n = p.state.lastSequence ∧ (p.batch cfg events).1 = p := by
  unfold CourseProcess.batch at h ⊢
  split at h
  · cases h
  · exact ⟨(Option.some.inj h).symm, rfl⟩
  · cases h

theorem CourseProcess.resume_answer {p : CourseProcess} {kind : OperationKind} {known : ℕ} {n : ℤ}
    (h : (p.resume kind known).2 = some n) :
    kind.isBatch = true ∧ n = p.state.lastSequence := by
  unfold CourseProcess.resume at h
  split_ifs at h
  cases kind with
  | batch window terminal => exact ⟨rfl, (Option.some.inj h).symm⟩
  | _ => cases h

theorem DurableWorld.hasUpTo {w : CourseWorld} {n : ℤ} (h : DurableWorld w)
    (hn : n ≤ w.base.lastSequence) : w.HasUpTo n :=
  ⟨hn, fun e he hle => h.base e he (hle.trans hn)⟩

theorem DurableWorld.answered {w w' : CourseWorld} {a : CourseAction} {n : ℤ}
    (h : DurableWorld w) (hstep : Under Careful (CourseSteps cfg) w a w')
    (hanswer : a.answer = some n) : w'.HasUpTo n := by
  have hnext := h.step hstep
  obtain ⟨-, hstep⟩ := hstep
  cases hstep with
  | batch events hprocess hopened hlock =>
    obtain ⟨rfl, -⟩ := CourseProcess.batch_answer hanswer
    exact hnext.hasUpTo ((h.process _ hprocess).cursor_of_lockFree hlock)
  | resumes hprocess hoperation =>
    obtain ⟨hbatch, rfl⟩ := CourseProcess.resume_answer hanswer
    apply hnext.hasUpTo
    apply (h.process _ hprocess).stored _ _ hbatch
    rw [hoperation]
    exact List.mem_append_right _ List.mem_cons_self
  | _ => cases hanswer

theorem DurableWorld.initial : DurableWorld {} :=
  ⟨fun _ he => (nomatch he), fun _ hp => (nomatch hp)⟩

/-- Where a run is careful, a batch is answered only with a cursor that the host has everything up
to. -/
theorem acknowledged_durable {actions : List CourseAction} {w w' : CourseWorld} {a : CourseAction}
    {n : ℤ} (hrun : Run (Under Careful (CourseSteps cfg)) {} actions w)
    (hstep : Under Careful (CourseSteps cfg) w a w') (hanswer : a.answer = some n) :
    w'.HasUpTo n := by
  have hdurable : DurableWorld w :=
    hrun.invariant (fun _ _ _ h hstep => DurableWorld.step h hstep) DurableWorld.initial
  exact hdurable.answered hstep hanswer

def lectureConfig : CourseConfig where
  mediaSessionId := "lecture"
  terminalJobId := fun _ trigger _ _ => trigger

def lectureEvent : JsonValue := .obj
  [("sequence", .int 1), ("event_type", .str "transcript.final"),
    ("logical_id", .str "transcript:s1"), ("revision", .int 1), ("media_time_ms", .int 0),
    ("duration_ms", .int 4000),
    ("payload", .obj [("text", .str "limits"), ("language", .str "en")])]

def lectureCaption : PendingEvent where
  streamKey := "transcript.final:transcript:s1:en"
  eventType := "transcript.final"
  logicalId := "transcript:s1"
  sequence := 1
  revision := 1
  text := "limits"
  startMs := 0
  endMs := 4000
  language := "en"
  confidence := none
  sourceSegmentIds := ["s1"]

theorem lectureEvent_captions : finalCaptions [lectureEvent] = [lectureCaption] := by
  decide +kernel

def lectureRecord : CourseRecord :=
  { lastSequence := 1
    outputLanguage := "en"
    pending := [lectureCaption]
    sourceLanguage := some "en" }

/-- The session in which nothing is under way. -/
def lectureProcess (r : CourseRecord) (stateVersion : ℕ) : CourseProcess where
  state := { r with stateVersion := stateVersion }
  opened := true
  operations := []
  tasks := []
  terminalTask := false

def lectureView : ViewRow := ⟨1, CourseRecord.view {}⟩

def lectureOpened (delivered : List PendingEvent) (r : CourseRecord) : CourseWorld where
  view := some lectureView
  process := some (lectureProcess r 0)
  delivered := delivered

def lecturePublished : CourseProcess :=
  ({ CourseProcess.opening lectureConfig 0 none 0 with operations := [] } :
    CourseProcess).finishPublishing .opening

theorem lectureOpened_run :
    Run (Under Careful (CourseSteps lectureConfig)) {}
      [.opening 0, .publishes .opening, .opened] (lectureOpened [] {}) :=
  .more ⟨le_rfl, .opening 0 rfl le_rfl⟩ <|
    .more ⟨trivial, .publishes rfl (rfl : _ = [] ++ _ :: []) rfl⟩ <|
      .single ⟨trivial, .opened (p := lecturePublished) rfl (rfl : _ = [] ++ _ :: [])⟩

theorem lectureBatch :
    eventBatch lectureConfig false false [lectureEvent] {} =
      .changed lectureRecord none false := by
  decide +kernel

def lectureStoring : CourseProcess :=
  ((lectureProcess {} 0).setRecord lectureRecord).putState (.batch none false)

theorem lectureProcess_batch :
    (lectureProcess {} 0).batch lectureConfig [lectureEvent] = (lectureStoring, none) := by
  unfold CourseProcess.batch
  rw [show eventBatch lectureConfig ((lectureProcess {} 0).tasks.any CourseTask.isBackground)
      (lectureProcess {} 0).terminalTask [lectureEvent] (lectureProcess {} 0).state.toCourseRecord =
      .changed lectureRecord none false from lectureBatch]
  rfl

def lectureBatched : CourseWorld where
  view := some lectureView
  process := some lectureStoring
  delivered := [lectureCaption]

theorem lectureBatch_step :
    CourseSteps lectureConfig (lectureOpened [] {})
      (.batch [lectureEvent] none) lectureBatched := by
  have hstep : CourseSteps lectureConfig (lectureOpened [] {}) _ _ :=
    .batch [lectureEvent] rfl rfl rfl
  rw [lectureProcess_batch, lectureEvent_captions] at hstep
  exact hstep

theorem lectureBatch_careful : Careful (lectureOpened [] {}) (.batch [lectureEvent] none) := by
  intro p hp
  obtain rfl := Option.some.inj hp
  refine ⟨⟨?_, fun e he => (nomatch he), ?_⟩, ?_, Or.inr ?_⟩
  · rw [lectureEvent_captions]
    decide
  · intro x hx y hy _
    rw [List.mem_singleton.mp hx, List.mem_singleton.mp hy]
  · intro x hx _
    rw [List.mem_singleton.mp hx]
    decide +kernel
  · rw [lectureEvent_captions]
    decide +kernel

def lectureSaved : CourseProcess :=
  { lectureStoring with operations := [⟨.batch none false, .stored 1⟩] }

def lectureStored : CourseWorld where
  stored := some lectureRecord
  version := 1
  view := some lectureView
  process := some lectureSaved
  delivered := [lectureCaption]

theorem lecture_acknowledged :
    ∃ w, Run (Under Careful (CourseSteps lectureConfig)) {}
        ([.opening 0, .publishes .opening, .opened] ++
          ([.batch [lectureEvent] none, .stores (.batch none false)] ++
            [.resumes (.batch none false) (some 1)])) w ∧
      w.delivered = [lectureCaption] ∧ w.HasUpTo 1 := by
  have hbatch : Run (Under Careful (CourseSteps lectureConfig)) (lectureOpened [] {})
      [.batch [lectureEvent] none, .stores (.batch none false)] lectureStored :=
    .more ⟨lectureBatch_careful, lectureBatch_step⟩ <|
      .single ⟨trivial, @CourseSteps.stores _ lectureBatched _ _ _ [] [] rfl rfl⟩
  have hresumes : Under Careful (CourseSteps lectureConfig) lectureStored
      (.resumes (.batch none false) (some 1)) _ :=
    ⟨trivial, .resumes (p := lectureSaved) rfl (rfl : _ = [] ++ _ :: [])⟩
  have hdurable := acknowledged_durable (lectureOpened_run.append hbatch) hresumes rfl
  exact ⟨_, lectureOpened_run.append (hbatch.append (.single hresumes)), rfl, hdurable⟩

/-- The host refuses to store the state behind the batch, which is sent again then: it is answered
from the memory, and the host has nothing. -/
theorem lecture_not_durable :
    ∃ w w', Run (CourseSteps lectureConfig) {}
        ([.opening 0, .publishes .opening, .opened] ++
          [.batch [lectureEvent] none, .refuses (.batch none false)]) w ∧
      CourseSteps lectureConfig w (.batch [lectureEvent] (some 1)) w' ∧
      w'.stored = none ∧ w'.delivered = [lectureCaption, lectureCaption] ∧ ¬ w'.HasUpTo 1 := by
  have hrefused : Run (CourseSteps lectureConfig) (lectureOpened [] {})
      [.batch [lectureEvent] none, .refuses (.batch none false)]
      (lectureOpened [lectureCaption] lectureRecord) :=
    .more lectureBatch_step <|
      .single (.refuses (p := lectureStoring) rfl (rfl : _ = [] ++ _ :: []))
  have hagain : (lectureProcess lectureRecord 0).batch lectureConfig [lectureEvent] =
      (lectureProcess lectureRecord 0, some 1) := rfl
  have hstep : CourseSteps lectureConfig (lectureOpened [lectureCaption] lectureRecord) _ _ :=
    .batch [lectureEvent] rfl rfl rfl
  rw [hagain, lectureEvent_captions] at hstep
  refine ⟨_, _, lectureOpened_run.forget.append hrefused, hstep, rfl, rfl, fun hdurable => ?_⟩
  exact absurd hdurable.1 (by decide)

end CourseOrganizer
end Matinier
