import Matinier.Media.Projector

/-!
# What the media projector writes

The items of a session have different logical ids. The log of a session is sound where its
events are numbered without a gap, the revisions of each logical id increase along it, every
offset stands for an event in it, and every event comes from a source that is still there at
its revision or a later one; the end of a session has one revision, whatever its status is. An
item whose revision the log does not pass can be appended.
-/

namespace Matinier
namespace Media

open Assistant

section LogicalIds

theorem transcriptId_injective {a b : String} (h : transcriptId a = transcriptId b) : a = b :=
  (String.append_right_inj _).mp h

/-- Two texts of which only the first separators count are the same on both sides of it. -/
private theorem append_cons_inj {a b c d : List Char} {x : Char} (ha : x ∉ a) (hc : x ∉ c)
    (h : a ++ x :: b = c ++ x :: d) : a = c ∧ b = d := by
  induction a generalizing c with
  | nil =>
    cases c with
    | nil => exact ⟨rfl, (List.cons.inj h).2⟩
    | cons y c =>
      have hxy : x = y := (List.cons.inj h).1
      exact absurd (hxy ▸ List.mem_cons_self) hc
  | cons y a ih =>
    cases c with
    | nil =>
      have hyx : y = x := (List.cons.inj h).1
      exact absurd (hyx ▸ List.mem_cons_self) ha
    | cons z c =>
      obtain ⟨hyz, hrest⟩ := List.cons.inj h
      obtain ⟨hac, hbd⟩ := ih (fun hx => ha (List.mem_cons_of_mem _ hx))
        (fun hx => hc (List.mem_cons_of_mem _ hx)) hrest
      exact ⟨by rw [hyz, hac], hbd⟩

theorem translationId_injective {l l' : LanguageCode} {a b : String}
    (h : translationId l a = translationId l' b) : l = l' ∧ a = b := by
  have hlists := congrArg String.toList h
  simp only [translationId, String.append_assoc, String.toList_append] at hlists
  have hrest := List.append_cancel_left hlists
  have hcolon : (":" : String).toList = [':'] := rfl
  rw [hcolon] at hrest
  obtain ⟨hlanguage, hsegment⟩ := append_cons_inj l.no_colon l'.no_colon hrest
  refine ⟨?_, String.toList_inj.mp hsegment⟩
  cases l
  cases l'
  cases String.toList_inj.mp hlanguage
  rfl

theorem transcriptId_ne_translationId (a : String) (l : LanguageCode) (b : String) :
    transcriptId a ≠ translationId l b := by
  intro h
  have hlists := congrArg (fun s => s.toList[5]?) h
  simp [transcriptId, translationId] at hlists

theorem transcriptId_ne_terminalId (a : String) (id : SessionId) :
    transcriptId a ≠ terminalId id := by
  intro h
  have hlists := congrArg (fun s => s.toList[0]?) h
  simp [transcriptId, terminalId] at hlists

theorem translationId_ne_terminalId (l : LanguageCode) (a : String) (id : SessionId) :
    translationId l a ≠ terminalId id := by
  intro h
  have hlists := congrArg (fun s => s.toList[0]?) h
  simp [translationId, terminalId] at hlists

end LogicalIds

namespace SessionMedia

variable {cfg : ProjectorConfig} {m m' : SessionMedia} {item other : ProjectionItem}
  {items : List ProjectionItem}

theorem mem_itemsEnding {ending : Option MediaStatus} : item ∈ m.itemsEnding ending ↔
    (∃ s ∈ m.segments.rows, s.status = .final ∧ s.item m.legacy.id = item) ∨
    (∃ t ∈ m.translations.rows, t.status = .final ∧ t.item m.legacy.id = item) ∨
    ∃ status, ending = some status ∧ m.legacy.item status = item := by
  simp only [itemsEnding, List.mem_append, List.mem_map, Option.mem_toList,
    Option.map_eq_some_iff, (List.perm_insertionSort _ _).mem_iff, Table.mem_select,
    decide_eq_true_eq, and_assoc, or_assoc]

/-- The source of the events of a table, and what their type may be. -/
inductive Projects : String → String → String → Prop
  | segments : Projects "segments" "host.transcription" "transcript.final"
  | translations : Projects "translation_segments" "host.translation" "translation.final"
  | sessions (status : SessionStatus) :
    Projects "sessions" "host.session" ("session." ++ status.name)

theorem Projects.eventType_eq {table table' source eventType eventType' : String}
    (h : Projects table source eventType) (h' : Projects table' source eventType')
    (hcaption : table ≠ "sessions") : eventType' = eventType := by
  cases h with
  | segments => generalize hsource : "host.transcription" = source at h'; cases h' <;> simp_all
  | translations => generalize hsource : "host.translation" = source at h'; cases h' <;> simp_all
  | sessions => exact absurd rfl hcaption

/-- The names of an item, as those of its event and of its offset. -/
structure Named (item : ProjectionItem) : Prop where
  projects : Projects item.sourceTable item.source item.eventType
  sourceType : item.sourceType = item.eventType
  sourceLogicalId : item.sourceLogicalId = item.logicalId

theorem named_of_mem {ending : Option MediaStatus} (h : item ∈ m.itemsEnding ending) :
    Named item := by
  rcases mem_itemsEnding.mp h with ⟨s, -, -, rfl⟩ | ⟨t, -, -, rfl⟩ | ⟨status, -, rfl⟩
  · exact ⟨.segments, rfl, rfl⟩
  · exact ⟨.translations, rfl, rfl⟩
  · exact ⟨.sessions _, rfl, rfl⟩

/-- Rows of one table sorted by anything have different values of what tells their keys. -/
private theorem sorted_nodup {ρ κ υ α : Type} [Row ρ κ υ] {t : Table ρ} {p : ρ → Bool}
    {r : ρ → ρ → Prop} [DecidableRel r] {f : ρ → α}
    (hf : ∀ a b, f a = f b → Row.key a = Row.key b) :
    (((t.select p).insertionSort r).map f).Nodup := by
  rw [((List.perm_insertionSort r _).map f).nodup_iff]
  refine List.Nodup.map_on (fun a ha b hb hab => ?_)
    ((List.Nodup.of_map Row.key t.keys_nodup).filter _)
  exact Table.eq_of_key (Table.mem_select.mp ha).1 (Table.mem_select.mp hb).1 (hf a b hab)

theorem itemsEnding_nodup (m : SessionMedia) (ending : Option MediaStatus) :
    ((m.itemsEnding ending).map ProjectionItem.logicalId).Nodup := by
  simp only [itemsEnding, List.map_append, List.map_map, List.append_assoc]
  refine List.nodup_append.mpr ⟨sorted_nodup fun a b h => transcriptId_injective h,
    List.nodup_append.mpr ⟨sorted_nodup fun a b h => ?_, ?_, ?_⟩, ?_⟩
  · obtain ⟨hlanguage, hsegment⟩ := translationId_injective h
    exact Prod.ext hlanguage hsegment
  · cases ending <;> simp
  · intro x hx y hy hxy
    obtain ⟨t, -, rfl⟩ := List.mem_map.mp hx
    simp only [List.mem_map, Option.mem_toList, Option.map_eq_some_iff] at hy
    obtain ⟨_, ⟨status, -, rfl⟩, rfl⟩ := hy
    exact translationId_ne_terminalId _ _ _ hxy
  · intro x hx y hy hxy
    obtain ⟨s, -, rfl⟩ := List.mem_map.mp hx
    simp only [List.mem_append, List.mem_map, Option.mem_toList, Option.map_eq_some_iff] at hy
    rcases hy with ⟨t, -, rfl⟩ | ⟨_, ⟨status, -, rfl⟩, rfl⟩
    · exact transcriptId_ne_translationId _ _ _ hxy
    · exact transcriptId_ne_terminalId _ _ hxy

theorem eq_of_logicalId {ending : Option MediaStatus} (h : item ∈ m.itemsEnding ending)
    (h' : other ∈ m.itemsEnding ending) (hid : item.logicalId = other.logicalId) : item = other :=
  List.inj_on_of_nodup_map (m.itemsEnding_nodup ending) h h' hid

/-- The items of a session that has ended; its end has the same names whatever it is. -/
def allItems (m : SessionMedia) : List ProjectionItem := m.itemsEnding (some .completed)

/-- There is a source with the names of an event, at its revision or a later one. -/
def Offers (m : SessionMedia) (source logicalId : String) (revision : ℕ) : Prop :=
  ∃ s ∈ m.allItems, s.source = source ∧ s.logicalId = logicalId ∧ revision ≤ s.revision

theorem offers_of_mem (h : item ∈ m.sourceItems) :
    m.Offers item.source item.logicalId item.revision := by
  rcases mem_itemsEnding.mp h with hsegment | htranslation | ⟨status, -, rfl⟩
  · exact ⟨item, mem_itemsEnding.mpr (Or.inl hsegment), rfl, rfl, le_rfl⟩
  · exact ⟨item, mem_itemsEnding.mpr (Or.inr (Or.inl htranslation)), rfl, rfl, le_rfl⟩
  · exact ⟨m.legacy.item .completed, mem_itemsEnding.mpr (Or.inr (Or.inr ⟨_, rfl, rfl⟩)), rfl, rfl,
      le_rfl⟩

/-- What is offered under one logical id is of one source, and as late as that is. -/
theorem Offers.same {source source' logicalId : String} {revision revision' : ℕ}
    (h : m.Offers source logicalId revision) (h' : m.Offers source' logicalId revision') :
    source = source' := by
  obtain ⟨s, hs, rfl, hid, -⟩ := h
  obtain ⟨s', hs', rfl, hid', -⟩ := h'
  rw [eq_of_logicalId hs hs' (hid.trans hid'.symm)]

theorem Offers.le {source logicalId : String} {revision : ℕ}
    (h : m.Offers source logicalId revision) (hitem : item ∈ m.sourceItems)
    (hid : logicalId = item.logicalId) : revision ≤ item.revision := by
  obtain ⟨s, hs, -, hsid, hle⟩ := h
  rcases mem_itemsEnding.mp hitem with hsegment | htranslation | ⟨status, -, rfl⟩
  · rwa [eq_of_logicalId hs (mem_itemsEnding.mpr (Or.inl hsegment)) (hsid.trans hid)] at hle
  · rwa [eq_of_logicalId hs (mem_itemsEnding.mpr (Or.inr (Or.inl htranslation)))
      (hsid.trans hid)] at hle
  · have hend : m.legacy.item .completed ∈ m.allItems :=
      mem_itemsEnding.mpr (Or.inr (Or.inr ⟨_, rfl, rfl⟩))
    rwa [eq_of_logicalId hs hend (hsid.trans hid)] at hle

/-- The sources of the first are those of the second at their revisions or later ones. -/
def Renewed (m m' : SessionMedia) : Prop :=
  ∀ s ∈ m.allItems, m'.Offers s.source s.logicalId s.revision

/-- The log has the event of an item; for the end of a session it may be of another type. -/
def Logged (m : SessionMedia) (item : ProjectionItem) : Prop :=
  ∃ e ∈ m.events.rows, e.source = item.source ∧ e.logicalId = item.logicalId ∧
    e.revision = item.revision ∧ (item.sourceTable ≠ "sessions" → e.eventType = item.eventType)

/-- The event that an offset stands for is in the log. -/
def Covers (m : SessionMedia) (o : MediaBridgeOffsetRecord) : Prop :=
  ∃ e ∈ m.events.rows, Projects o.sourceTable e.source o.sourceType ∧
    e.logicalId = o.sourceLogicalId ∧ e.revision = o.processedRevision ∧
    (o.sourceTable ≠ "sessions" → e.eventType = o.sourceType)

def nextSequence (m : SessionMedia) : ℕ :=
  match m.bridge with
  | none => 1
  | some bridge => bridge.nextSequence

/-- An item that is to be projected: it has a source, and the log does not pass it. -/
structure Due (m : SessionMedia) (item : ProjectionItem) : Prop where
  offered : m.Offers item.source item.logicalId item.revision
  named : Named item
  latest : ∀ e ∈ m.events.rows, e.logicalId = item.logicalId → e.revision ≤ item.revision

structure Sound (m : SessionMedia) : Prop where
  numbered : m.events.rows.map MediaEventRecord.sequence = List.range' 1 m.events.rows.length
  next : m.nextSequence = m.events.rows.length + 1
  increasing : m.events.rows.Pairwise fun a b => a.logicalId = b.logicalId → a.revision < b.revision
  covered : ∀ o ∈ m.offsets.rows, m.Covers o
  backed : ∀ e ∈ m.events.rows, m.Offers e.source e.logicalId e.revision
  typed : ∀ e ∈ m.events.rows, ∃ table, Projects table e.source e.eventType

theorem Offers.renewed {source logicalId : String} {revision : ℕ}
    (h : m.Offers source logicalId revision) (hrenewed : Renewed m m') :
    m'.Offers source logicalId revision := by
  obtain ⟨s, hs, rfl, rfl, hle⟩ := h
  obtain ⟨s', hs', hsource, hid, hle'⟩ := hrenewed s hs
  exact ⟨s', hs', hsource, hid, hle.trans hle'⟩

theorem Renewed.of_eq (hlegacy : m'.legacy = m.legacy) (hsegments : m'.segments = m.segments)
    (htranslations : m'.translations = m.translations) : Renewed m m' := by
  intro s hs
  have hsame : m'.allItems = m.allItems := by
    simp only [allItems, itemsEnding, hlegacy, hsegments, htranslations]
  exact ⟨s, hsame ▸ hs, rfl, rfl, le_rfl⟩

theorem Logged.of_events (h : m.Logged item)
    (hevents : ∀ e ∈ m.events.rows, e ∈ m'.events.rows) : m'.Logged item := by
  obtain ⟨e, he, hsame⟩ := h
  exact ⟨e, hevents e he, hsame⟩

theorem Due.renewed (h : m.Due item) (hrenewed : Renewed m m') (hevents : m'.events = m.events) :
    m'.Due item :=
  ⟨h.offered.renewed hrenewed, h.named, hevents ▸ h.latest⟩

theorem Sound.renewed (h : m.Sound) (hrenewed : Renewed m m') (hevents : m'.events = m.events)
    (hoffsets : m'.offsets = m.offsets) (hnext : m'.nextSequence = m.nextSequence) : m'.Sound where
  numbered := by rw [hevents, h.numbered]
  next := by rw [hnext, hevents, h.next]
  increasing := by rw [hevents]; exact h.increasing
  covered := by
    intro o ho
    obtain ⟨e, he, hcovers⟩ := h.covered o (hoffsets ▸ ho)
    exact ⟨e, hevents ▸ he, hcovers⟩
  backed := by
    rw [hevents]
    exact fun e he => (h.backed e he).renewed hrenewed
  typed := by rw [hevents]; exact h.typed

theorem Sound.due (h : m.Sound) (hitem : item ∈ m.sourceItems) : m.Due item where
  offered := offers_of_mem hitem
  named := named_of_mem hitem
  latest e he hid := (h.backed e he).le hitem hid

theorem ensureLegacySessionBridge_spec (m : SessionMedia) :
    m.ensureLegacySessionBridge = { m with bridge := m.ensureLegacySessionBridge.bridge } ∧
      m.ensureLegacySessionBridge.nextSequence = m.nextSequence ∧
      m.ensureLegacySessionBridge.bridge.isSome = true := by
  unfold ensureLegacySessionBridge
  cases hbridge : m.bridge with
  | none => simp [nextSequence, hbridge]
  | some bridge => exact ⟨rfl, rfl, by simp [hbridge]⟩

theorem Sound.bridged (h : m.Sound) : m.ensureLegacySessionBridge.Sound := by
  obtain ⟨hsame, hnext, -⟩ := ensureLegacySessionBridge_spec m
  rw [hsame] at hnext ⊢
  exact h.renewed (.of_eq rfl rfl rfl) rfl rfl hnext

theorem appendEvent_cases (h : m.appendEvent cfg item = .ok m') :
    (∃ e, m.findSourceRevision item = some e ∧ m' = m) ∨
    ∃ bridge events, m.findSourceRevision item = none ∧ m.bridge = some bridge ∧
      item.Accepted cfg ∧ m.events.insert (item.event bridge.nextSequence) = some events ∧
      m' = { m with
        bridge := some { bridge with nextSequence := bridge.nextSequence + 1 }
        events := events } := by
  unfold appendEvent at h
  cases hfind : m.findSourceRevision item with
  | some e =>
    rw [hfind] at h
    exact Or.inl ⟨e, rfl, (Except.ok.inj h).symm⟩
  | none =>
    simp only [hfind, bind_eq_ok, require_eq_ok, ensure_eq_ok, pure_eq_ok] at h
    obtain ⟨bridge, hbridge, -, ⟨-, haccepted⟩, events, hevents, rfl⟩ := h
    exact Or.inr ⟨bridge, events, rfl, hbridge, haccepted, hevents, rfl⟩

/-- Appending changes no source and adds at most one event, with the logical id of the item. -/
theorem appendEvent_frame (h : m.appendEvent cfg item = .ok m') :
    m'.legacy = m.legacy ∧ Renewed m m' ∧ (∀ e ∈ m.events.rows, e ∈ m'.events.rows) ∧
      ∀ e ∈ m'.events.rows, e ∈ m.events.rows ∨ e.logicalId = item.logicalId := by
  rcases appendEvent_cases h with ⟨-, -, rfl⟩ | ⟨bridge, events, -, -, -, hinsert, rfl⟩
  · exact ⟨rfl, .of_eq rfl rfl rfl, fun e he => he, fun e he => Or.inl he⟩
  · refine ⟨rfl, .of_eq rfl rfl rfl, fun e he => (Table.mem_insert hinsert).mpr (Or.inl he),
      fun e he => ?_⟩
    rcases (Table.mem_insert hinsert).mp he with he | rfl
    · exact Or.inl he
    · exact Or.inr rfl

/-- An event that is due comes after every event with its logical id. -/
theorem Sound.before_new (h : m.Sound) (hdue : m.Due item)
    (hnew : m.findSourceRevision item = none) {e : MediaEventRecord} (he : e ∈ m.events.rows)
    (hid : e.logicalId = item.logicalId) : e.revision < item.revision := by
  refine lt_of_le_of_ne (hdue.latest e he hid) fun hrevision => ?_
  have hsource := (hid ▸ h.backed e he).same hdue.offered
  refine Table.getUnique_eq_none.mp hnew e he ?_
  change some (e.source, e.logicalId, e.revision) = _
  rw [hsource, hid, hrevision]

theorem Sound.appended (h : m.Sound) (hdue : m.Due item)
    (happend : m.appendEvent cfg item = .ok m') : m'.Sound ∧ m'.Logged item := by
  rcases appendEvent_cases happend with ⟨e, hfound, rfl⟩ | ⟨bridge, events, hnew, hbridge, -,
    hinsert, rfl⟩
  · obtain ⟨he, hkey⟩ := Table.getUnique_eq_some.mp hfound
    simp only [Row.unique, Option.some.injEq, Prod.mk.injEq] at hkey
    obtain ⟨table, htyped⟩ := h.typed e he
    refine ⟨h, e, he, hkey.1, hkey.2.1, hkey.2.2, fun hcaption => ?_⟩
    exact hdue.named.projects.eventType_eq (hkey.1 ▸ htyped) hcaption
  · have hrows := (Table.insert_eq_some hinsert).2
    have hsequence : bridge.nextSequence = m.events.rows.length + 1 := by
      have hnext := h.next
      rwa [nextSequence, hbridge] at hnext
    have hrenewed : Renewed m { m with
        bridge := some { bridge with nextSequence := bridge.nextSequence + 1 }
        events := events } := .of_eq rfl rfl rfl
    refine ⟨⟨?_, ?_, ?_, ?_, ?_, ?_⟩, item.event bridge.nextSequence, ?_, rfl, rfl, rfl,
      fun _ => rfl⟩
    · rw [hrows, List.map_append, h.numbered, List.length_append, List.length_singleton,
        List.range'_1_concat]
      simp [ProjectionItem.event, hsequence, Nat.add_comm]
    · simp [nextSequence, hrows, hsequence]
    · rw [hrows, List.pairwise_append]
      refine ⟨h.increasing, List.pairwise_singleton _ _, fun e he new hnew' hid => ?_⟩
      rw [List.mem_singleton.mp hnew'] at hid ⊢
      exact h.before_new hdue hnew he hid
    · intro o ho
      obtain ⟨e, he, hsame⟩ := h.covered o ho
      exact ⟨e, (Table.mem_insert hinsert).mpr (Or.inl he), hsame⟩
    · intro e he
      rcases (Table.mem_insert hinsert).mp he with he | rfl
      · exact (h.backed e he).renewed hrenewed
      · exact hdue.offered.renewed hrenewed
    · intro e he
      rcases (Table.mem_insert hinsert).mp he with he | rfl
      · exact h.typed e he
      · exact ⟨_, hdue.named.projects⟩
    · exact (Table.mem_insert hinsert).mpr (Or.inr rfl)

theorem advanceBridgeOffset_cases (h : m.advanceBridgeOffset item = .ok m') :
    (∃ o, m.offsets.get (Row.key item.offset) = some o ∧
      item.revision ≤ o.processedRevision ∧ m' = m) ∨
    ∃ offsets, Table.Writes m.offsets offsets item.offset ∧
      m' = { m with offsets := offsets } := by
  unfold advanceBridgeOffset at h
  simp only [bind_eq_ok, ensure_eq_ok] at h
  obtain ⟨-, -, h⟩ := h
  split at h
  · rename_i o hget
    obtain ⟨htable, htype, hid⟩ : o.sourceTable = item.sourceTable ∧
        o.sourceType = item.sourceType ∧ o.sourceLogicalId = item.sourceLogicalId := by
      simpa [Row.key] using Table.key_of_get hget
    split_ifs at h with hlater
    · have hsame : { o with processedRevision := item.revision } = item.offset := by
        simp only [ProjectionItem.offset, htable, htype, hid]
      rw [hsame] at h
      exact Or.inr ⟨_, Table.Writes.of_set hget ⟨Table.key_of_get hget, Or.inl rfl⟩,
        (Except.ok.inj h).symm⟩
    · exact Or.inl ⟨o, hget, not_lt.mp hlater, (Except.ok.inj h).symm⟩
  · simp only [bind_eq_ok, require_eq_ok, pure_eq_ok] at h
    obtain ⟨offsets, hinsert, rfl⟩ := h
    exact Or.inr ⟨offsets, Table.Writes.of_insert hinsert, rfl⟩

theorem Sound.offset_advanced (h : m.Sound) (hlogged : m.Logged item) (hnamed : Named item)
    (hadvance : m.advanceBridgeOffset item = .ok m') :
    m'.Sound ∧ m' = { m with offsets := m'.offsets } := by
  rcases advanceBridgeOffset_cases hadvance with ⟨-, -, -, rfl⟩ | ⟨offsets, hwrites, rfl⟩
  · exact ⟨h, rfl⟩
  · refine ⟨⟨h.numbered, h.next, h.increasing, fun o ho => ?_,
      fun e he => (h.backed e he).renewed (.of_eq rfl rfl rfl), h.typed⟩, rfl⟩
    rcases hwrites.mem.mp ho with rfl | ⟨ho, -⟩
    · obtain ⟨e, he, hsource, hid, hrevision, htype⟩ := hlogged
      refine ⟨e, he, ?_, hid.trans hnamed.sourceLogicalId.symm, hrevision, fun hcaption => ?_⟩
      · simp only [ProjectionItem.offset, hsource, hnamed.sourceType, hnamed.projects]
      · exact (htype hcaption).trans hnamed.sourceType.symm
    · exact h.covered o ho

theorem endBridge_spec (status : Option MediaStatus) (m : SessionMedia) :
    m.endBridge status = { m with bridge := (m.endBridge status).bridge } ∧
      (m.endBridge status).nextSequence = m.nextSequence ∧
      (m.endBridge status).bridge.isSome = m.bridge.isSome := by
  unfold endBridge
  cases status with
  | none => exact ⟨rfl, rfl, rfl⟩
  | some status =>
    refine ⟨rfl, ?_, by simp⟩
    cases hbridge : m.bridge <;> simp [nextSequence, hbridge]

/-- Advancing the offsets of events that are in the log keeps it sound and leaves the sources. -/
theorem Sound.advanced (h : m.Sound)
    (hitems : ∀ item ∈ items, m.Logged item ∧ Named item)
    (hadvance : m.advanceOffsets items = .ok m') :
    m'.Sound ∧ m' = { m with bridge := m'.bridge, offsets := m'.offsets } := by
  simp only [advanceOffsets, bind_eq_ok, pure_eq_ok] at hadvance
  obtain ⟨advanced, hloop, rfl⟩ := hadvance
  obtain ⟨hsound, hsame⟩ := foldlM_invariant
    (I := fun m' => m'.Sound ∧ m' = { m with offsets := m'.offsets })
    (fun b item b' hitem hb hstep => by
      obtain ⟨hlogged, hnamed⟩ := hitems item hitem
      obtain ⟨hsound, hsame⟩ := hb
      have hlogged' : b.Logged item := hlogged.of_events fun e he => by rw [hsame]; exact he
      obtain ⟨hsound', hsame'⟩ := hsound.offset_advanced hlogged' hnamed hstep
      refine ⟨hsound', hsame'.trans ?_⟩
      rw [hsame])
    ⟨h, rfl⟩ hloop
  obtain ⟨hend, hnext, -⟩ := endBridge_spec (terminalStatus items) advanced
  refine ⟨?_, ?_⟩
  · rw [hend] at hnext ⊢
    exact hsound.renewed (.of_eq rfl rfl rfl) rfl rfl hnext
  · rw [hend, hsame]

end SessionMedia

end Media
end Matinier
