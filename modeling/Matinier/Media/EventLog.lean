import Matinier.Media.ProjectorSpec

/-!
# The media event log

The log of a media session has one event at most for each source, logical id and revision, its
sequence numbers have no gap, the revisions of a logical id increase along it, and no offset is
ahead of it. A step of the projector keeps this where the items it has read are due, and they
stay due whatever the host writes, as sources are only revised.
-/

namespace Matinier
namespace Media

open Assistant

namespace SessionMedia

variable {cfg : ProjectorConfig} {m m' : SessionMedia}

/-- What the host changes: sources are revised, and a media session may be made. -/
structure Revised (m m' : SessionMedia) : Prop where
  id : m'.legacy.id = m.legacy.id
  renewed : Renewed m m'
  events : m'.events = m.events
  offsets : m'.offsets = m.offsets
  next : m'.nextSequence = m.nextSequence
  bridged : m.bridge.isSome = true → m'.bridge.isSome = true

theorem Revised.of_segment {segments : Table SegmentRecord} {r : SegmentRecord}
    (hwrites : Table.Writes m.segments segments r) (hfinal : r.status = .final)
    (hlater : ∀ old, m.segments.get r.segmentId = some old → old.revision ≤ r.revision) :
    Revised m { m with segments := segments } := by
  refine ⟨rfl, fun item hitem => ?_, rfl, rfl, rfl, fun h => h⟩
  rcases mem_itemsEnding.mp hitem with ⟨s, hs, hstatus, rfl⟩ | hother
  · by_cases hkey : s.segmentId = r.segmentId
    · refine ⟨r.item m.legacy.id, mem_itemsEnding.mpr (Or.inl ⟨r, hwrites.mem.mpr (Or.inl rfl),
        hfinal, rfl⟩), rfl, ?_, hlater s ?_⟩
      · simp only [SegmentRecord.item, hkey]
      · rw [← hkey]
        exact Table.get_of_mem hs
    · exact ⟨_, mem_itemsEnding.mpr (Or.inl ⟨s, hwrites.mem.mpr (Or.inr ⟨hs, hkey⟩), hstatus,
        rfl⟩), rfl, rfl, le_rfl⟩
  · exact ⟨item, mem_itemsEnding.mpr (Or.inr hother), rfl, rfl, le_rfl⟩

theorem Revised.of_translation {translations : Table TranslationSegmentRecord}
    {r : TranslationSegmentRecord} (hwrites : Table.Writes m.translations translations r)
    (hfinal : ∀ old, m.translations.get (Row.key r) = some old → old.status = .final →
      r.status = .final ∧ old.revision ≤ r.revision) :
    Revised m { m with translations := translations } := by
  refine ⟨rfl, fun item hitem => ?_, rfl, rfl, rfl, fun h => h⟩
  rcases mem_itemsEnding.mp hitem with hsegment | ⟨t, ht, hstatus, rfl⟩ | hsession
  · exact ⟨item, mem_itemsEnding.mpr (Or.inl hsegment), rfl, rfl, le_rfl⟩
  · by_cases hkey : Row.key t = Row.key r
    · obtain ⟨hrstatus, hlater⟩ := hfinal t (hkey ▸ Table.get_of_mem ht) hstatus
      refine ⟨r.item m.legacy.id, mem_itemsEnding.mpr (Or.inr (Or.inl ⟨r,
        hwrites.mem.mpr (Or.inl rfl), hrstatus, rfl⟩)), rfl, ?_, hlater⟩
      obtain ⟨hlanguage, hsegment⟩ := Prod.mk.inj hkey
      simp only [TranslationSegmentRecord.item, hlanguage, hsegment]
    · exact ⟨_, mem_itemsEnding.mpr (Or.inr (Or.inl ⟨t, hwrites.mem.mpr (Or.inr ⟨ht, hkey⟩),
        hstatus, rfl⟩)), rfl, rfl, le_rfl⟩
  · exact ⟨item, mem_itemsEnding.mpr (Or.inr (Or.inr hsession)), rfl, rfl, le_rfl⟩

theorem Revised.refl (m : SessionMedia) : Revised m m :=
  ⟨rfl, .of_eq rfl rfl rfl, rfl, rfl, rfl, fun h => h⟩

theorem upsertFinal_revised {caption : SegmentRecord} (h : m.upsertFinal caption = .ok m') :
    Revised m m' := by
  unfold upsertFinal at h
  simp only [bind_eq_ok, ensure_eq_ok] at h
  obtain ⟨-, hfinal, -, -, -, -, h⟩ := h
  split at h
  · rename_i old hget
    split_ifs at h with hearlier
    · cases h
      exact .refl m
    · cases h
      refine .of_segment (.of_set hget ⟨Table.key_of_get hget, Or.inl rfl⟩) hfinal
        fun row hrow => ?_
      rw [hget] at hrow
      cases hrow
      exact (not_le.mp hearlier).le
  · rename_i hnone
    simp only [bind_eq_ok, require_eq_ok, pure_eq_ok] at h
    obtain ⟨segments, hinsert, rfl⟩ := h
    refine .of_segment (.of_insert hinsert) hfinal fun row hrow => ?_
    rw [hnone] at hrow
    cases hrow

theorem upsertFinalTranslation_revised {caption : TranslationSegmentRecord}
    (h : m.upsertFinalTranslation caption = .ok m') : Revised m m' := by
  unfold upsertFinalTranslation at h
  simp only [bind_eq_ok, ensure_eq_ok] at h
  obtain ⟨-, hfinal, h⟩ := h
  split at h
  · rename_i old hget
    split_ifs at h with hearlier
    · cases h
      exact .refl m
    · cases h
      refine .of_translation (.of_set hget ⟨Table.key_of_get hget, Or.inl rfl⟩)
        fun row hrow _ => ?_
      obtain rfl : old = row := Option.some.inj (hget.symm.trans hrow)
      exact ⟨hfinal, (not_le.mp hearlier).le⟩
  · rename_i hnone
    simp only [bind_eq_ok, require_eq_ok, pure_eq_ok] at h
    obtain ⟨translations, hinsert, rfl⟩ := h
    refine .of_translation (.of_insert hinsert) fun row hrow _ => ?_
    exact absurd (hnone.symm.trans hrow) (by simp)

theorem realign_revised (language : LanguageCode) (segmentId : String) (aligned : List String)
    (m : SessionMedia) : Revised m (m.realign language segmentId aligned) := by
  unfold realign
  split
  · exact .refl m
  · rename_i old hget
    have hkey : Row.key old = (language, segmentId) := Table.key_of_get hget
    have hput : m.translations.get (Row.key { old with sourceSegmentIds := aligned }) = some old :=
      hkey.symm ▸ hget
    refine .of_translation (.of_set hput ⟨rfl, Or.inl rfl⟩) fun row hrow hstatus => ?_
    obtain rfl : old = row := Option.some.inj (hput.symm.trans hrow)
    exact ⟨hstatus, le_rfl⟩

/-- The end of a session has the same names whatever is written of it. -/
theorem commitSession_revised (status : SessionStatus) (stopReason : Option String)
    (endedAt : Option Instant) (m : SessionMedia) :
    Revised m (m.commitSession status stopReason endedAt) := by
  refine ⟨rfl, fun item hitem => ?_, rfl, rfl, rfl, fun h => h⟩
  rcases mem_itemsEnding.mp hitem with hsegment | htranslation | ⟨status, -, rfl⟩
  · exact ⟨item, mem_itemsEnding.mpr (Or.inl hsegment), rfl, rfl, le_rfl⟩
  · exact ⟨item, mem_itemsEnding.mpr (Or.inr (Or.inl htranslation)), rfl, rfl, le_rfl⟩
  · exact ⟨_, mem_itemsEnding.mpr (Or.inr (Or.inr ⟨.completed, rfl, rfl⟩)), rfl, rfl, le_rfl⟩

theorem bridge_revised (m : SessionMedia) : Revised m m.ensureLegacySessionBridge := by
  obtain ⟨hsame, hnext, hbridged⟩ := ensureLegacySessionBridge_spec m
  rw [hsame] at hnext hbridged ⊢
  exact ⟨rfl, .of_eq rfl rfl rfl, rfl, rfl, hnext, fun _ => hbridged⟩

theorem Sound.revised (h : m.Sound) (hrevised : Revised m m') : m'.Sound :=
  h.renewed hrevised.renewed hrevised.events hrevised.offsets hrevised.next

end SessionMedia

open SessionMedia

/-- What a projection knows of the items it has read. -/
def Phase.Ready (m : SessionMedia) : Phase → Prop
  | .reading => True
  | .bridging items => (∀ item ∈ items, m.Due item) ∧
      (items.map ProjectionItem.logicalId).Nodup
  | .appending batch rest => (∀ item ∈ rest, m.Due item) ∧
      (rest.map ProjectionItem.logicalId).Nodup ∧
      ∀ item ∈ batch, Named item ∧ (item ∈ rest ∨ m.Logged item)
  | .advancing batch => ∀ item ∈ batch, m.Logged item ∧ Named item

section Moves

variable {cfg : ProjectorConfig} {m m' : SessionMedia} {phase : Phase}

theorem Phase.Ready.revised (h : phase.Ready m) (hrevised : Revised m m') : phase.Ready m' := by
  have hdue : ∀ item, m.Due item → m'.Due item := fun item hitem =>
    hitem.renewed hrevised.renewed hrevised.events
  have hlogged : ∀ item, m.Logged item → m'.Logged item := fun item hitem =>
    hitem.of_events fun e he => hrevised.events ▸ he
  cases phase with
  | reading => trivial
  | bridging items => exact ⟨fun item hitem => hdue item (h.1 item hitem), h.2⟩
  | appending batch rest =>
    refine ⟨fun item hitem => hdue item (h.1 item hitem), h.2.1, fun item hitem => ?_⟩
    obtain ⟨hnamed, hplace⟩ := h.2.2 item hitem
    exact ⟨hnamed, hplace.imp_right (hlogged item)⟩
  | advancing batch => exact fun item hitem => ⟨hlogged item (h item hitem).1, (h item hitem).2⟩

/-- After the first item of a batch is appended the others are due, and it is in the log. -/
theorem ready_appended {batch rest : List ProjectionItem} {item : ProjectionItem} (hsound : m.Sound)
    (h : (Phase.appending batch (item :: rest)).Ready m)
      (happend : m.appendEvent cfg item = .ok m') :
    m'.Sound ∧ m'.legacy = m.legacy ∧ (Phase.appending batch rest).Ready m' := by
  obtain ⟨hdue, hnodup, hbatch⟩ := h
  rw [List.map_cons, List.nodup_cons] at hnodup
  obtain ⟨hsound', hlogged⟩ := hsound.appended (hdue item List.mem_cons_self) happend
  obtain ⟨hlegacy, hrenewed, hkept, hnew⟩ := appendEvent_frame happend
  refine ⟨hsound', hlegacy, fun other hother => ?_, hnodup.2, fun other hother => ?_⟩
  · have hold := hdue other (List.mem_cons_of_mem _ hother)
    refine ⟨hold.offered.renewed hrenewed, hold.named, fun e he hid => ?_⟩
    rcases hnew e he with he | hid'
    · exact hold.latest e he hid
    · have hsame : other.logicalId = item.logicalId := hid.symm.trans hid'
      exact absurd (hsame ▸ List.mem_map_of_mem hother) hnodup.1
  · obtain ⟨hnamed, hplace⟩ := hbatch other hother
    refine ⟨hnamed, ?_⟩
    rcases hplace with hplace | hplace
    · rcases List.mem_cons.mp hplace with rfl | hplace
      · exact Or.inr hlogged
      · exact Or.inl hplace
    · exact Or.inr (hplace.of_events hkept)

theorem ready_read (hsound : m.Sound) : (Phase.bridging m.readPendingItems).Ready m := by
  refine ⟨fun item hitem => hsound.due (List.mem_of_mem_filter hitem), ?_⟩
  exact (m.itemsEnding_nodup _).sublist (List.filter_sublist.map _)

theorem ready_batch {items : List ProjectionItem} (h : (Phase.bridging items).Ready m) (n : ℕ) :
    (Phase.appending (items.take n) (items.take n)).Ready m := by
  have hdue : ∀ item ∈ items.take n, m.Due item := fun item hitem =>
    h.1 item (List.mem_of_mem_take hitem)
  refine ⟨hdue, h.2.sublist ((List.take_sublist n items).map _), fun item hitem => ?_⟩
  exact ⟨(hdue item hitem).named, Or.inl hitem⟩

/-- A step of a projection keeps the log sound, and knows of its items what the next one needs. -/
theorem Phase.Ready.move (cfg : ProjectorConfig) (h : phase.Ready m) (hsound : m.Sound) :
    (phase.move cfg m).1.Sound ∧ (phase.move cfg m).1.legacy.id = m.legacy.id ∧
      ∀ rest, (phase.move cfg m).2 = some rest → rest.Ready (phase.move cfg m).1 := by
  cases phase with
  | reading =>
    refine ⟨hsound, rfl, fun rest hrest => ?_⟩
    cases hrest
    exact ready_read hsound
  | bridging items =>
    have hrevised := bridge_revised m
    cases items with
    | nil => exact ⟨hsound.revised hrevised, hrevised.id, fun rest hrest => by cases hrest⟩
    | cons item items =>
      refine ⟨hsound.revised hrevised, hrevised.id, fun rest hrest => ?_⟩
      cases hrest
      exact (ready_batch h cfg.batchSize).revised hrevised
  | appending batch items =>
    cases items with
    | nil =>
      refine ⟨hsound, rfl, fun rest hrest => ?_⟩
      cases hrest
      intro item hitem
      obtain ⟨hnamed, hplace⟩ := h.2.2 item hitem
      exact ⟨hplace.resolve_left List.not_mem_nil, hnamed⟩
    | cons item items =>
      simp only [Phase.move]
      cases happend : m.appendEvent cfg item with
      | error fault => exact ⟨hsound, rfl, fun rest hrest => by cases hrest⟩
      | ok appended =>
        obtain ⟨hsound', hlegacy, hready⟩ := ready_appended hsound h happend
        refine ⟨hsound', congrArg SessionRecord.id hlegacy, fun rest hrest => ?_⟩
        cases hrest
        exact hready
  | advancing batch =>
    simp only [Phase.move]
    cases hadvance : m.advanceOffsets batch with
    | error fault => exact ⟨hsound, rfl, fun rest hrest => by cases hrest⟩
    | ok advanced =>
      obtain ⟨hsound', hsame⟩ := hsound.advanced h hadvance
      refine ⟨hsound', congrArg (fun m => m.legacy.id) hsame, fun rest hrest => ?_⟩
      dsimp only at hrest
      split_ifs at hrest
      cases hrest
      trivial

end Moves

namespace MediaWorld

variable {cfg : ProjectorConfig} {w w' : MediaWorld} {action : MediaAction} {id : SessionId}

structure Sound (w : MediaWorld) : Prop where
  logs : ∀ m ∈ w.db.rows, m.Sound
  ready : ∀ id phase, w.projection = some (id, phase) →
    ∃ m, w.db.get id = some m ∧ phase.Ready m

/-- The rows of one session are written, and what a projection of it needs is there. -/
theorem Sound.written {db : MediaDb} {projection : Option (SessionId × Phase)} {m' : SessionMedia}
    (h : w.Sound) (hwrites : Table.Writes w.db db m') (hsound : m'.Sound)
    (hready : ∀ id phase, projection = some (id, phase) →
      (id = m'.legacy.id ∧ phase.Ready m') ∨
        id ≠ m'.legacy.id ∧ w.projection = some (id, phase)) :
    Sound { db := db, projection := projection } where
  logs m hm := by
    rcases hwrites.mem.mp hm with rfl | ⟨hm, -⟩
    · exact hsound
    · exact h.logs m hm
  ready id phase hprojection := by
    rcases hready id phase hprojection with ⟨rfl, hphase⟩ | ⟨hother, hold⟩
    · exact ⟨m', hwrites.1, hphase⟩
    · obtain ⟨m, hm, hphase⟩ := h.ready id phase hold
      exact ⟨m, (hwrites.2 id hother).trans hm, hphase⟩

theorem Sound.changed {f : SessionMedia → Option SessionMedia} (h : w.Sound)
    (hf : ∀ m m', f m = some m' → Revised m m') (hchange : w.change id f = some w') :
    w'.Sound := by
  simp only [change, Option.bind_eq_bind, Option.bind_eq_some_iff, Option.some.injEq] at hchange
  obtain ⟨m, hm, m', hm', rfl⟩ := hchange
  have hrevised := hf m m' hm'
  have hkey : Row.key m' = id := hrevised.id.trans (Table.key_of_get hm)
  have hwrites : Table.Writes w.db (w.db.set m') m' :=
    .of_set (hkey ▸ hm) ⟨hrevised.id.symm, Or.inl rfl⟩
  refine h.written hwrites ((h.logs m (Table.mem_of_get hm)).revised hrevised)
    fun other phase hprojection => ?_
  by_cases hother : other = m'.legacy.id
  · obtain ⟨row, hrow, hphase⟩ := h.ready other phase hprojection
    obtain rfl : m = row := Option.some.inj (hm.symm.trans ((hother.trans hkey) ▸ hrow))
    exact Or.inl ⟨hother, hphase.revised hrevised⟩
  · exact Or.inr ⟨hother, hprojection⟩

theorem Sound.step (h : w.Sound) (hstep : MediaSteps cfg w action w') : w'.Sound := by
  cases action with
  | create record =>
    simp only [MediaSteps, next, Option.bind_eq_bind, Option.bind_eq_some_iff,
      Option.some.injEq] at hstep
    obtain ⟨db, hinsert, rfl⟩ := hstep
    refine h.written (.of_insert hinsert) ?_ fun id phase hprojection => ?_
    · exact ⟨rfl, rfl, List.Pairwise.nil, fun o ho => absurd ho List.not_mem_nil,
        fun e he => absurd he List.not_mem_nil, fun e he => absurd he List.not_mem_nil⟩
    · refine Or.inr ⟨fun hid => ?_, hprojection⟩
      obtain ⟨m, hm, -⟩ := h.ready id phase hprojection
      have hnone := Table.get_none_of_insert hinsert
      rw [hid] at hm
      exact absurd (hnone.symm.trans hm) (by simp)
  | session id status stopReason endedAt =>
    refine h.changed (fun m m' hm => ?_) hstep
    cases hm
    exact commitSession_revised status stopReason endedAt m
  | caption id caption =>
    exact h.changed (fun m m' hm => upsertFinal_revised (toOption_eq_some.mp hm)) hstep
  | translation id caption =>
    exact h.changed (fun m m' hm => upsertFinalTranslation_revised (toOption_eq_some.mp hm)) hstep
  | realign id language segmentId aligned =>
    refine h.changed (fun m m' hm => ?_) hstep
    cases hm
    exact realign_revised language segmentId aligned m
  | bridge id =>
    refine h.changed (fun m m' hm => ?_) hstep
    cases hm
    exact bridge_revised m
  | project id =>
    obtain ⟨⟨-, hsome⟩, rfl⟩ : (w.projection.isNone ∧ (w.db.get id).isSome) ∧
        { w with projection := some (id, Phase.reading) } = w' := by
      simpa [MediaSteps, next] using hstep
    refine ⟨h.logs, fun other phase hprojection => ?_⟩
    cases hprojection
    obtain ⟨m, hm⟩ := Option.isSome_iff_exists.mp hsome
    exact ⟨m, hm, trivial⟩
  | move =>
    simp only [MediaSteps, next, Option.bind_eq_bind, Option.bind_eq_some_iff,
      Option.some.injEq] at hstep
    obtain ⟨⟨id, phase⟩, hprojection, m, hm, rfl⟩ := hstep
    obtain ⟨row, hrow, hready⟩ := h.ready id phase hprojection
    obtain rfl : m = row := Option.some.inj (hm.symm.trans hrow)
    obtain ⟨hsound, hid, hnext⟩ := hready.move cfg (h.logs m (Table.mem_of_get hm))
    have hkey : Row.key (phase.move cfg m).1 = id := hid.trans (Table.key_of_get hm)
    refine h.written (.of_set (hkey ▸ hm) ⟨hid.symm, Or.inl rfl⟩) hsound
      fun other rest hrest => ?_
    obtain ⟨rest, hmoved, hpair⟩ := Option.map_eq_some_iff.mp hrest
    cases hpair
    exact Or.inl ⟨hkey.symm, hnext _ hmoved⟩
  | abandon =>
    cases hstep
    exact ⟨h.logs, fun id phase hprojection => by cases hprojection⟩

theorem Sound.run {actions : List MediaAction} (h : Run (MediaSteps cfg) {} actions w) :
    w.Sound := by
  refine h.invariant (fun _ _ _ hw hstep => Sound.step hw hstep)
    ⟨fun m hm => ?_, fun id phase hp => ?_⟩
  · exact absurd hm List.not_mem_nil
  · cases hp

end MediaWorld

/-- The log of a session has each event once, in a sequence without a gap, with later and
later revisions, and every offset stands for an event in it. -/
structure SessionMedia.Exact (m : SessionMedia) : Prop where
  once : ∀ e ∈ m.events.rows, ∀ e' ∈ m.events.rows, e.source = e'.source →
    e.logicalId = e'.logicalId → e.revision = e'.revision → e = e'
  gapFree : m.events.rows.map MediaEventRecord.sequence = List.range' 1 m.events.rows.length
  next : ∀ bridge ∈ m.bridge, bridge.nextSequence = m.events.rows.length + 1
  noBridge : m.bridge = none → m.events.rows = []
  increasing : ∀ e ∈ m.events.rows, ∀ e' ∈ m.events.rows, e.logicalId = e'.logicalId →
    e.sequence < e'.sequence → e.revision < e'.revision
  covered : ∀ o ∈ m.offsets.rows, m.Covers o

theorem SessionMedia.Sound.exact {m : SessionMedia} (h : m.Sound) : m.Exact where
  once e he e' he' hsource hid hrevision :=
    Table.eq_of_unique he he' rfl
      (congrArg some (Prod.ext hsource.symm (Prod.ext hid.symm hrevision.symm)))
  gapFree := h.numbered
  next bridge hbridge := by
    have hnext := h.next
    rwa [nextSequence, Option.mem_def.mp hbridge] at hnext
  noBridge hnone := by
    have hnext := h.next
    simp only [nextSequence, hnone] at hnext
    exact List.length_eq_zero_iff.mp (by omega)
  increasing e he e' he' hid hlt := by
    obtain ⟨i, hi, rfl⟩ := List.getElem_of_mem he
    obtain ⟨j, hj, rfl⟩ := List.getElem_of_mem he'
    have hsequence : ∀ (k : ℕ) (hk : k < m.events.rows.length),
        m.events.rows[k].sequence = k + 1 := by
      intro k hk
      have hmap := congrArg (fun l => l[k]?) h.numbered
      simpa [hk, Nat.add_comm] using hmap
    rw [hsequence i hi, hsequence j hj] at hlt
    exact List.pairwise_iff_getElem.mp h.increasing i j hi hj (by omega) hid
  covered := h.covered

/-- Whatever the host writes meanwhile, a session that ends twice included, and wherever
projections are given up, the log of every session is exact. -/
theorem event_log_exact {cfg : ProjectorConfig} {w : MediaWorld} {actions : List MediaAction}
    (h : Run (MediaSteps cfg) {} actions w) : ∀ m ∈ w.db.rows, m.Exact :=
  fun m hm => ((MediaWorld.Sound.run h).logs m hm).exact

section Example

/-- A projector for captions of which every one fits. -/
def smallConfig : ProjectorConfig where
  encodedLength _ := 200

def caption (segmentId text : String) (revision : ℕ) : SegmentRecord where
  id := revision
  segmentId := segmentId
  trackId := "microphone"
  revision := revision
  language := "en"
  displayText := text

/-- A caption is appended and the process ends; after a revision of the caption another
projection goes through. The session is cancelled and projected, and so it is again when a
stale writer has made it a failed one. -/
def abandonedTrace : List MediaAction :=
  [.create { id := 0 }, .caption 0 (caption "1" "hello" 1), .caption 0 (caption "2" "world" 1),
    .project 0, .move, .move, .move, .abandon, .caption 0 (caption "1" "hallo" 2),
    .project 0, .move, .move, .move, .move, .move, .move,
    .session 0 .cancelled none (some 5), .project 0, .move, .move, .move, .move, .move,
    .session 0 .failed none (some 6), .project 0, .move, .move, .move, .move, .move]

def projectedWorld : MediaWorld :=
  (follow (MediaWorld.next smallConfig) abandonedTrace {}).get (by decide)

/-- The two revisions, the other caption and one end are in the log, and both ends are projected. -/
theorem projectedWorld_exact :
    (projectedWorld.db.rows.map fun m => m.events.rows.map fun e => (e.eventType, e.revision)) =
        [[("transcript.final", 1), ("transcript.final", 2), ("transcript.final", 1),
          ("session.cancelled", 1)]] ∧
      (projectedWorld.db.rows.map fun m => m.offsets.rows.map fun o => o.sourceType) =
        [["transcript.final", "transcript.final", "session.cancelled", "session.failed"]] ∧
      ∀ m ∈ projectedWorld.db.rows, m.Exact :=
  ⟨by decide, by decide, event_log_exact (run_to_get _ abandonedTrace _ (by decide))⟩

end Example

end Media
end Matinier
