import Matinier.Meeting.ProjectorSteps

/-!
# What holds of every reachable world

Whatever was read before stays true: a batch is extracted from the live state of a version
that is no later than the live one, and an analysis found drained stays drained. Offsets are
at revisions that captions have reached.
-/

namespace Matinier
namespace Meeting

open Assistant

section Growth

variable {cfg : ProjectorConfig} {db db' : ProjectionDb} {w w' : World} {id? : Option TaskId}

theorem Advanced.grows_all {sessionId : SessionId} {entries : List (SegmentId × ℕ)}
    {offsets offsets' : Table OffsetRecord} (h : Advanced sessionId entries offsets offsets')
    {s : SessionId} {g : SegmentId} {r : ℕ} (hr : processedIn offsets s g = some r) :
    ∃ r', processedIn offsets' s g = some r' ∧ r ≤ r' := by
  by_cases hs : s = sessionId
  · subst hs
    exact h.grows g r hr
  · exact ⟨r, (h.others s g hs).trans hr, Nat.le_refl r⟩

/-- An offset that changes is of the session, and changes to an entry. -/
theorem Advanced.changed {sessionId : SessionId} {entries : List (SegmentId × ℕ)}
    {offsets offsets' : Table OffsetRecord} (h : Advanced sessionId entries offsets offsets')
    {s : SessionId} {g : SegmentId} (hne : processedIn offsets' s g ≠ processedIn offsets s g) :
    s = sessionId ∧ ∃ r, processedIn offsets' s g = some r ∧ (g, r) ∈ entries := by
  have hs : s = sessionId := by
    by_contra hs
    exact hne (h.others s g hs)
  subst hs
  refine ⟨rfl, ?_⟩
  cases hnew : processedIn offsets' s g with
  | some r =>
    rcases h.source g r hnew with hold | hentry
    · exact absurd (hnew.trans hold.symm) hne
    · exact ⟨r, rfl, hentry⟩
  | none =>
    cases hold : processedIn offsets s g with
    | none => exact absurd (hnew.trans hold.symm) hne
    | some r =>
      obtain ⟨r', hr', -⟩ := h.grows g r hold
      rw [hnew] at hr'
      cases hr'

theorem Committed.grows {p : Projection} {epoch : ℕ} (h : Committed cfg p epoch db db') :
    Grows db db' := by
  refine ⟨fun k row hrow => ?_, fun k r hr => ?_, fun s g r => h.offsets.grows_all, fun s => ?_⟩
  · rw [h.meeting]
    exact ⟨row, hrow, .refl row⟩
  · rw [h.segments]
    exact ⟨r, hr, Nat.le_refl _⟩
  · by_cases hs : s = p.sessionId
    · subst hs
      have hversion := h.version
      have hnext := h.versions
      exact ⟨by omega, fun heq => by omega⟩
    · rw [ProjectionDb.liveVersion, ProjectionDb.liveVersion, ProjectionDb.liveState,
        ProjectionDb.liveState, h.heads s hs]
      exact ⟨Nat.le_refl _, fun _ => rfl⟩

theorem Skipped.grows {sessionId : SessionId} {epoch : ℕ} {records : List SegmentRecord}
    (h : Skipped cfg sessionId epoch records db db') : Grows db db' := by
  obtain ⟨⟨_, -, hadvanced⟩, hrest⟩ := h
  rw [hrest]
  exact ⟨(Grows.refl db).sessions, (Grows.refl db).segments,
    fun _ _ _ => hadvanced.grows_all, (Grows.refl db).heads⟩

theorem FailureRecorded.grows {sessionId : SessionId} {epoch : ℕ}
    (h : FailureRecorded sessionId epoch db db') : Grows db db' := by
  have hheads : ∀ s, db.liveVersion s ≤ db'.liveVersion s ∧
      (db'.liveVersion s = db.liveVersion s → db'.liveState s = db.liveState s) :=
    fun s => ⟨Nat.le_of_eq (h.versions s).symm, fun _ => h.states s⟩
  have hrest := h.rest
  refine ⟨?_, ?_, ?_, hheads⟩
  all_goals rw [hrest]
  · exact (Grows.refl db).sessions
  · exact (Grows.refl db).segments
  · exact (Grows.refl db).offsets

theorem TaskEffect.grows {task : Task} (h : TaskEffect cfg db task db') : Grows db db' := by
  cases h with
  | nothing => exact .refl db
  | skipped h => exact h.grows
  | committed _ h => exact h.grows
  | recorded h => exact h.grows
  | froze hrow _ hactive =>
    obtain rfl := Table.key_of_get hrow
    exact .of_set hrow rfl rfl ⟨Nat.le_refl _, fun _ hended => absurd (Or.inl hactive) hended,
      fun _ hfrozen => absurd hactive hfrozen⟩
  | finished hrow _ hruns =>
    obtain rfl := Table.key_of_get hrow
    exact .of_set hrow rfl rfl ⟨Nat.le_refl _, fun _ hended => absurd hruns hended,
      fun _ _ => ⟨nofun, rfl⟩⟩

theorem upsertFinal_segments (caption : SegmentRecord) (db : ProjectionDb) :
    ∃ segments, upsertFinal caption db = { db with segments } ∧
      ∀ k r, db.segments.get k = some r → ∃ r', segments.get k = some r' ∧
        r.revision ≤ r'.revision := by
  have hsame : ∀ k r, db.segments.get k = some r →
      ∃ r', db.segments.get k = some r' ∧ r.revision ≤ r'.revision :=
    fun k r hr => ⟨r, hr, Nat.le_refl _⟩
  unfold upsertFinal
  cases hold : db.segments.get (caption.sessionId, caption.segmentId) with
  | some existing =>
    by_cases hle : caption.revision ≤ existing.revision
    · simp only [if_pos hle]
      exact ⟨db.segments, rfl, hsame⟩
    · simp only [if_neg hle]
      refine ⟨_, rfl, ?_⟩
      let final : SegmentRecord := { caption with status := .final }
      have hfinal : db.segments.get (Row.key final) = some existing := hold
      have hevolves : db.segments.Evolves (fun r r' => r.revision ≤ r'.revision) (fun _ => True)
          (db.segments.set final) :=
        .of_set (fun _ => Nat.le_refl _) hfinal ⟨Table.key_of_get hfinal, Or.inl rfl⟩
          (Nat.le_of_lt (Nat.lt_of_not_le hle))
      exact hevolves.kept
  | none =>
    simp only
    cases hinsert : db.segments.insert { caption with status := .final } with
    | none => exact ⟨db.segments, rfl, hsame⟩
    | some segments =>
      have hevolves : db.segments.Evolves (fun r r' => r.revision ≤ r'.revision) (fun _ => True)
          segments := .of_insert (fun _ => Nat.le_refl _) hinsert trivial
      exact ⟨segments, rfl, hevolves.kept⟩

theorem Effect.grows (h : Effect cfg w id? db') : Grows w.db db' := by
  cases h with
  | control h =>
    refine .of_control fun k row hrow => ?_
    obtain ⟨row', hrow', hcontrolled⟩ := h.kept k row hrow
    exact ⟨row', hrow', hcontrolled.turned⟩
  | caption caption =>
    obtain ⟨segments, heq, hgrows⟩ := upsertFinal_segments caption w.db
    rw [heq]
    exact ⟨(Grows.refl _).sessions, hgrows, (Grows.refl _).offsets, (Grows.refl _).heads⟩
  | task _ heffect => exact heffect.grows

theorem run_grows {as : List Action} (h : Run (World.Steps cfg) w as w') : Grows w.db w'.db :=
  h.relation (I := fun _ => True) (R := fun a b : World => Grows a.db b.db) (fun w => .refl w.db)
    (fun {_ _ _ : World} h h' => Grows.trans h h') (fun _ _ _ _ _ => trivial)
    (fun _ _ _ _ hstep => (next_stepped hstep).effect.grows) trivial

end Growth

theorem Grows.drained {db db' : ProjectionDb} (h : Grows db db') {sessionId : SessionId}
    {frontier : List (SegmentId × ℕ)} (hdrained : db.Drained sessionId frontier) :
    db'.Drained sessionId frontier := by
  intro entry hentry
  have hle := hdrained entry hentry
  cases hold : db.processed sessionId entry.1 with
  | none =>
    rw [hold] at hle
    exact Nat.le_trans hle (Nat.zero_le _)
  | some r =>
    obtain ⟨r', hr', hgrown⟩ := h.offsets sessionId entry.1 r hold
    rw [hold] at hle
    rw [hr']
    exact Nat.le_trans hle hgrown

/-- What was found of an analysis that is to be finished: in the same epoch its frontier is
frozen and drained. -/
def FoundDrained (db : ProjectionDb) (sessionId : SessionId) (epoch : ℕ) : Prop :=
  ∃ row, db.meeting.sessions.get sessionId = some row ∧ epoch ≤ row.analysisEpoch ∧
    (row.analysisEpoch = epoch → row.analysisState ≠ .active ∧
      ∃ frontier, row.terminalFrontier = some frontier ∧ db.Drained sessionId frontier)

theorem FoundDrained.grows {db db' : ProjectionDb} {sessionId : SessionId} {epoch : ℕ}
    (h : FoundDrained db sessionId epoch) (hgrows : Grows db db') :
    FoundDrained db' sessionId epoch := by
  obtain ⟨row, hrow, hle, hfound⟩ := h
  obtain ⟨row', hrow', hturned⟩ := hgrows.sessions sessionId row hrow
  refine ⟨row', hrow', Nat.le_trans hle hturned.epoch, fun heq => ?_⟩
  have hbefore : row.analysisEpoch = epoch := by
    have := hturned.epoch
    omega
  obtain ⟨hstate, frontier, hfrontier, hdrained⟩ := hfound hbefore
  obtain ⟨hstate', hsame⟩ := hturned.frozen (heq.trans hbefore.symm) hstate
  exact ⟨hstate', frontier, hsame.trans hfrontier, hgrows.drained hdrained⟩

/-- What a task holds is still so. -/
def TaskOk (db : ProjectionDb) : Task → Prop
  | .scanned _ sessionId _ _ invalid => ∀ record ∈ invalid, record.sessionId = sessionId →
      ∃ r, db.segments.get (sessionId, record.segmentId) = some r ∧ record.revision ≤ r.revision
  | .batch _ sessionId _ (.extracting _ current version _) =>
      current.sessionId = sessionId ∧ version ≤ db.liveVersion sessionId ∧
        (db.liveVersion sessionId = version → db.liveState sessionId = current)
  | .finishing sessionId epoch => FoundDrained db sessionId epoch
  | _ => True

theorem TaskOk.grows {db db' : ProjectionDb} {task : Task} (h : TaskOk db task)
    (hgrows : Grows db db') : TaskOk db' task := by
  match task with
  | .scanned _ sessionId _ _ invalid =>
    intro record hrecord hsession
    obtain ⟨r, hr, hle⟩ := h record hrecord hsession
    obtain ⟨r', hr', hle'⟩ := hgrows.segments _ r hr
    exact ⟨r', hr', Nat.le_trans hle hle'⟩
  | .batch _ sessionId _ (.extracting _ current version _) =>
    obtain ⟨hsession, hle, hsame⟩ := h
    obtain ⟨hlater, hkept⟩ := hgrows.heads sessionId
    refine ⟨hsession, Nat.le_trans hle hlater, fun heq => ?_⟩
    have hbefore : db.liveVersion sessionId = version := by omega
    exact (hkept (heq.trans hbefore.symm)).trans (hsame hbefore)
  | .finishing sessionId epoch => exact FoundDrained.grows h hgrows
  | .batch _ _ _ (.selected _) => trivial
  | .batch _ _ _ (.failed _) => trivial
  | .freezing _ _ _ => trivial

/-- An analysis that drains has a frontier, and one that is complete has drained it. -/
structure SessionOk (db : ProjectionDb) (row : PluginSessionRecord) : Prop where
  draining : row.analysisState = .draining → ∃ frontier, row.terminalFrontier = some frontier
  completed : row.analysisState = .completed → ∃ frontier, row.terminalFrontier = some frontier ∧
    db.Drained row.legacySessionId frontier

/-- What holds of every reachable world. -/
structure World.Sound (w : World) : Prop where
  sessions : ∀ s row, w.db.meeting.sessions.get s = some row → SessionOk w.db row
  tasks : ∀ id task, w.tasks id = some task → TaskOk w.db task
  states : ∀ s, (w.db.liveState s).sessionId = s ∧ (w.db.liveState s).userConcerns = []
  offsets : ∀ s g r, w.db.processed s g = some r →
    ∃ segment, w.db.segments.get (s, g) = some segment ∧ r ≤ segment.revision

/-- A world in which nothing has been analysed: there are captions at most. -/
structure World.Fresh (w : World) : Prop where
  sessions : w.db.meeting.sessions.rows = []
  offsets : w.db.offsets.rows = []
  heads : w.db.heads.rows = []
  tasks : ∀ id, w.tasks id = none

section Sound

variable {cfg : ProjectorConfig} {db db' : ProjectionDb} {w w' : World}
  {id? : Option TaskId} {row : PluginSessionRecord}

theorem SessionOk.grows (h : SessionOk db row) (hgrows : Grows db db') : SessionOk db' row := by
  refine ⟨h.draining, fun hcompleted => ?_⟩
  obtain ⟨frontier, hfrontier, hdrained⟩ := h.completed hcompleted
  exact ⟨frontier, hfrontier, hgrows.drained hdrained⟩

theorem SessionOk.of_starts (h : StartsEpoch row) : SessionOk db row := by
  have hstate : row.analysisState = .inactive ∨ row.analysisState = .active :=
    h.imp_right fun h => h.1
  refine ⟨fun hdraining => ?_, fun hcompleted => ?_⟩
  · rw [hdraining] at hstate
    exact absurd hstate (by decide)
  · rw [hcompleted] at hstate
    exact absurd hstate (by decide)

theorem SessionOk.controlled {row' : PluginSessionRecord} (h : SessionOk db row)
    (hid : row'.legacySessionId = row.legacySessionId) (hcontrolled : Controlled row row') :
    SessionOk db row' := by
  rcases hcontrolled with ⟨-, hstate, hfrontier⟩ | ⟨-, hstarts⟩
  · refine ⟨fun hdraining => ?_, fun hcompleted => ?_⟩
    · rw [hfrontier]
      exact h.draining (hstate.symm.trans hdraining)
    · rw [hfrontier, hid]
      exact h.completed (hstate.symm.trans hcompleted)
  · exact .of_starts hstarts

/-- A row that replaces another one is there with the rows of the other sessions. -/
theorem get_setSession {row' found : PluginSessionRecord} {s : SessionId}
    (hrow : db.meeting.sessions.get row.legacySessionId = some row)
    (hfound : (db.setSession row').meeting.sessions.get s = some found)
    (hid : row'.legacySessionId = row.legacySessionId)
    (hmedia : row'.mediaSessionId = row.mediaSessionId) :
    found = row' ∨ db.meeting.sessions.get s = some found := by
  rw [← hid] at hrow
  have hget := Table.get_set hrow ⟨hid.symm, Or.inr (congrArg some hmedia)⟩ s
  rw [ProjectionDb.setSession, hget] at hfound
  split_ifs at hfound
  · exact Or.inl (Option.some.inj hfound).symm
  · exact Or.inr hfound

theorem TaskEffect.sessions_ok {task : Task} (h : TaskEffect cfg db task db')
    (htask : TaskOk db task)
    (hsessions : ∀ s row, db.meeting.sessions.get s = some row → SessionOk db row)
    {s : SessionId} (hrow : db'.meeting.sessions.get s = some row) : SessionOk db row := by
  cases h with
  | nothing => exact hsessions s row hrow
  | skipped h =>
    rw [h.rest] at hrow
    exact hsessions s row hrow
  | committed _ h =>
    rw [h.meeting] at hrow
    exact hsessions s row hrow
  | recorded h =>
    rw [h.rest] at hrow
    exact hsessions s row hrow
  | froze hold _ hactive =>
    obtain rfl := Table.key_of_get hold
    rcases get_setSession hold hrow rfl rfl with rfl | hrow
    · exact ⟨fun _ => ⟨_, rfl⟩, nofun⟩
    · exact hsessions s row hrow
  | finished hold hepoch hruns =>
    obtain rfl := Table.key_of_get hold
    rcases get_setSession hold hrow rfl rfl with rfl | hrow
    · obtain ⟨found, hget, -, hdrained⟩ := htask
      obtain rfl := Option.some.inj (hold.symm.trans hget)
      exact ⟨nofun, fun _ => (hdrained hepoch).2⟩
    · exact hsessions s row hrow

theorem Effect.sessions_ok (h : Effect cfg w id? db') (hw : w.Sound) {s : SessionId}
    (hrow : db'.meeting.sessions.get s = some row) : SessionOk db' row := by
  have hgrows := h.grows
  cases h with
  | control h =>
    refine SessionOk.grows ?_ hgrows
    cases hold : w.db.meeting.sessions.get s with
    | none => exact .of_starts (h.fresh s row hrow hold)
    | some old =>
      obtain ⟨row', hrow', hcontrolled⟩ := h.kept s old hold
      obtain rfl := Option.some.inj (hrow'.symm.trans hrow)
      refine (hw.sessions s old hold).controlled ?_ hcontrolled
      exact (Table.key_of_get hrow').trans (Table.key_of_get hold).symm
  | caption caption =>
    obtain ⟨segments, heq, -⟩ := upsertFinal_segments caption w.db
    rw [heq] at hrow
    exact (hw.sessions s row hrow).grows hgrows
  | task htask heffect =>
    exact (heffect.sessions_ok (hw.tasks _ _ htask) hw.sessions hrow).grows hgrows

theorem Committed.current_live {projector : ProjectorId} {sessionId : SessionId} {epoch : ℕ}
    {batch : List ProjectionSegment} {current : MeetingState} {expectedVersion : ℕ}
    {answers : List MeetingStateDelta} {delta : MeetingStateDelta}
    (h : Committed cfg ⟨current, expectedVersion, delta, batch⟩ epoch db db')
    (htask : TaskOk db
      (.batch projector sessionId epoch (.extracting batch current expectedVersion answers))) :
    current.sessionId = sessionId ∧ db.liveState sessionId = current := by
  obtain ⟨rfl, -, hsame⟩ := htask
  exact ⟨rfl, hsame h.version⟩

theorem Effect.states_ok (h : Effect cfg w id? db') (hw : w.Sound) (s : SessionId) :
    (db'.liveState s).sessionId = s ∧ (db'.liveState s).userConcerns = [] := by
  cases h with
  | control h => exact hw.states s
  | caption caption =>
    obtain ⟨segments, heq, -⟩ := upsertFinal_segments caption w.db
    rw [heq]
    exact hw.states s
  | task htask heffect =>
    cases heffect with
    | nothing => exact hw.states s
    | skipped h =>
      rw [h.rest]
      exact hw.states s
    | recorded h =>
      rw [h.states s]
      exact hw.states s
    | froze => exact hw.states s
    | finished => exact hw.states s
    | @committed _ sessionId _ batch current version _ delta _ _ h =>
      by_cases hs : s = current.sessionId
      · subst hs
        obtain ⟨shown, next, hmerge, hlive⟩ := h.merged
        obtain ⟨hconcerns, hsession, -⟩ := mergeMeetingState_items hmerge
        obtain ⟨rfl, hcurrent⟩ := h.current_live (hw.tasks _ _ htask)
        have hlive : db'.liveState current.sessionId = next := hlive
        have hempty := (hw.states current.sessionId).2
        rw [hcurrent] at hempty
        rw [hlive, hsession, hconcerns]
        exact ⟨rfl, hempty⟩
      · rw [ProjectionDb.liveState, h.heads s hs]
        exact hw.states s

theorem currentRevision_eq_some {segments : Table SegmentRecord} {s : SessionId} {g : SegmentId}
    {r : ℕ} (h : currentRevision segments s g = some r) :
    ∃ segment, segments.get (s, g) = some segment ∧ segment.revision = r := by
  obtain ⟨segment, hsegment, hr⟩ := Option.map_eq_some_iff.mp h
  exact ⟨segment, (Option.filter_eq_some_iff.mp hsegment).1, hr⟩

/-- Offsets that advance to revisions of captions are at such revisions. -/
theorem Advanced.offsets_ok {sessionId : SessionId} {entries : List (SegmentId × ℕ)}
    {offsets offsets' : Table OffsetRecord} {segments : Table SegmentRecord}
    (h : Advanced sessionId entries offsets offsets')
    (hold : ∀ s g r, processedIn offsets s g = some r →
      ∃ segment, segments.get (s, g) = some segment ∧ r ≤ segment.revision)
    (hentries : ∀ entry ∈ entries, ∃ segment, segments.get (sessionId, entry.1) = some segment ∧
      entry.2 ≤ segment.revision)
    {s : SessionId} {g : SegmentId} {r : ℕ} (hr : processedIn offsets' s g = some r) :
    ∃ segment, segments.get (s, g) = some segment ∧ r ≤ segment.revision := by
  by_cases hs : s = sessionId
  · subst hs
    rcases h.source g r hr with hr | hmem
    · exact hold s g r hr
    · exact hentries (g, r) hmem
  · exact hold s g r ((h.others s g hs).symm.trans hr)

theorem Effect.offsets_ok (h : Effect cfg w id? db') (hw : w.Sound) {s : SessionId} {g : SegmentId}
    {r : ℕ} (hr : db'.processed s g = some r) :
    ∃ segment, db'.segments.get (s, g) = some segment ∧ r ≤ segment.revision := by
  cases h with
  | control h => exact hw.offsets s g r hr
  | caption caption =>
    obtain ⟨segments, heq, hgrows⟩ := upsertFinal_segments caption w.db
    rw [heq] at hr ⊢
    obtain ⟨segment, hsegment, hle⟩ := hw.offsets s g r hr
    obtain ⟨segment', hsegment', hle'⟩ := hgrows _ segment hsegment
    exact ⟨segment', hsegment', Nat.le_trans hle hle'⟩
  | task htask heffect =>
    cases heffect with
    | nothing => exact hw.offsets s g r hr
    | skipped h =>
      obtain ⟨⟨_, -, hadvanced⟩, hrest⟩ := h
      rw [hrest]
      refine hadvanced.offsets_ok hw.offsets (fun entry hentry => ?_) hr
      obtain ⟨record, hrecord, rfl⟩ := List.mem_map.mp hentry
      obtain ⟨hinvalid, hpermitted⟩ := List.mem_filter.mp hrecord
      exact hw.tasks _ _ htask record hinvalid (of_decide_eq_true hpermitted).1
    | committed _ h =>
      rw [h.segments]
      refine h.offsets.offsets_ok hw.offsets (fun entry hentry => ?_) hr
      obtain ⟨segment, hsegment, rfl⟩ := List.mem_map.mp hentry
      obtain ⟨record, hrecord, hrevision⟩ := currentRevision_eq_some (h.current segment hsegment)
      exact ⟨record, hrecord, Nat.le_of_eq hrevision.symm⟩
    | recorded h =>
      rw [h.rest] at hr ⊢
      exact hw.offsets s g r hr
    | froze => exact hw.offsets s g r hr
    | finished => exact hw.offsets s g r hr

theorem NewTask.ok {task : Task} (h : NewTask cfg w task) (hw : w.Sound) : TaskOk w.db task := by
  cases h with
  | scanned projector sessionId epoch snapshots h =>
    intro record hrecord hsession
    obtain ⟨hmem, -⟩ := Table.mem_select.mp (h record hrecord)
    refine ⟨record, ?_, Nat.le_refl _⟩
    rw [← hsession]
    exact Table.get_of_mem hmem
  | selected => trivial
  | read projector sessionId epoch batch =>
    exact ⟨(hw.states sessionId).1, Nat.le_refl _, fun _ => rfl⟩
  | extracted hold _ =>
    have htask := hw.tasks _ _ hold
    exact htask
  | failed => trivial
  | freezing => trivial
  | finishing h =>
    obtain ⟨hpermits, hdraining, hdrained⟩ := h
    obtain ⟨row, hrow, hepoch, -, hstate, hfrontier⟩ := ProjectionDb.admission_permits hpermits
    have hrowDraining : row.analysisState = .draining := hstate.symm.trans hdraining
    obtain ⟨frontier, hfrozen⟩ := (hw.sessions _ row hrow).draining hrowDraining
    rw [hfrontier, hfrozen] at hdrained
    refine ⟨row, hrow, Nat.le_of_eq hepoch.symm, fun _ => ⟨?_, frontier, hfrozen, hdrained⟩⟩
    rw [hrowDraining]
    exact nofun

theorem World.Sound.step {a : Action} (hw : w.Sound) (h : World.Steps cfg w a w') : w'.Sound := by
  have hstepped := next_stepped h
  have hgrows := hstepped.effect.grows
  refine ⟨fun s row hrow => hstepped.effect.sessions_ok hw hrow, fun id task htask => ?_,
    hstepped.effect.states_ok hw, fun s g r hr => hstepped.effect.offsets_ok hw hr⟩
  rcases hstepped.tasks id task htask with hold | hnew
  · exact (hw.tasks id task hold).grows hgrows
  · exact (hnew.ok hw).grows hgrows

theorem World.Fresh.sound (h : w.Fresh) : w.Sound := by
  have hheads : ∀ s, w.db.heads.get s = none := fun s => by simp [Table.get, h.heads]
  refine ⟨fun s row hrow => ?_, fun id task htask => ?_, fun s => ?_, fun s g r hr => ?_⟩
  · simp [Table.get, h.sessions] at hrow
  · rw [h.tasks id] at htask
    cases htask
  · simp [ProjectionDb.liveState, hheads, emptyState]
  · simp [ProjectionDb.processed, Table.get, h.offsets] at hr

theorem World.Fresh.reaches {as : List Action} (h : w.Fresh)
    (hrun : Run (World.Steps cfg) w as w') : w'.Sound :=
  hrun.invariant (fun _ _ _ hw hstep => hw.step hstep) h.sound

end Sound

end Meeting
end Matinier
