import Matinier.Meeting.ProjectorMachine
import Matinier.Meeting.ProjectorSpec

/-!
# What a step of the world does

A step is one of the host, a caption, or one of a task; only a task writes offsets, heads and
candidates. Whatever the step, epochs, revisions, offsets and versions only grow, an epoch that
has ended stays ended, and a frontier that is frozen stays until the next epoch.
-/

namespace Matinier
namespace Meeting

open Assistant

def Running (row : PluginSessionRecord) : Prop :=
  row.analysisState = .active ∨ row.analysisState = .draining

/-- A row as a new epoch starts with: the analysis is inactive, or active without a frontier. -/
def StartsEpoch (row : PluginSessionRecord) : Prop :=
  row.analysisState = .inactive ∨ row.analysisState = .active ∧ row.terminalFrontier = none

/-- What the host does to a row: nothing to its analysis, or a new epoch. -/
def Controlled (row row' : PluginSessionRecord) : Prop :=
  (row'.analysisEpoch = row.analysisEpoch ∧ row'.analysisState = row.analysisState ∧
      row'.terminalFrontier = row.terminalFrontier) ∨
    (row.analysisEpoch < row'.analysisEpoch ∧ StartsEpoch row')

theorem Controlled.refl (row : PluginSessionRecord) : Controlled row row := Or.inl ⟨rfl, rfl, rfl⟩

theorem Controlled.starts {row row' : PluginSessionRecord} (hstarts : StartsEpoch row)
    (h : Controlled row row') : StartsEpoch row' := by
  rcases h with ⟨-, hstate, hfrontier⟩ | ⟨-, hnew⟩
  · rw [StartsEpoch, hstate, hfrontier]
    exact hstarts
  · exact hnew

theorem Controlled.trans {a b c : PluginSessionRecord} (h : Controlled a b) (h' : Controlled b c) :
    Controlled a c := by
  rcases h' with ⟨hepoch', hstate', hfrontier'⟩ | ⟨hlt', hstarts'⟩
  · rcases h with ⟨hepoch, hstate, hfrontier⟩ | ⟨hlt, hstarts⟩
    · exact Or.inl ⟨hepoch'.trans hepoch, hstate'.trans hstate, hfrontier'.trans hfrontier⟩
    · refine Or.inr ⟨hepoch' ▸ hlt, ?_⟩
      rw [StartsEpoch, hstate', hfrontier']
      exact hstarts
  · refine Or.inr ⟨?_, hstarts'⟩
    rcases h with ⟨hepoch, -, -⟩ | ⟨hlt, -⟩
    · exact hepoch ▸ hlt'
    · exact Nat.lt_trans hlt hlt'

/-- What the host does to the control rows of the sessions. -/
def SessionsControlled (sessions sessions' : Table PluginSessionRecord) : Prop :=
  sessions.Evolves Controlled StartsEpoch sessions'

namespace SessionsControlled

theorem refl (sessions : Table PluginSessionRecord) : SessionsControlled sessions sessions :=
  Table.Evolves.refl Controlled.refl sessions

theorem trans {a b c : Table PluginSessionRecord} (h : SessionsControlled a b)
    (h' : SessionsControlled b c) : SessionsControlled a c :=
  Table.Evolves.trans Controlled.trans Controlled.starts h h'

theorem of_set {sessions : Table PluginSessionRecord} {row row' : PluginSessionRecord}
    (hrow : sessions.get row.legacySessionId = some row)
    (hid : row'.legacySessionId = row.legacySessionId)
    (hmedia : row'.mediaSessionId = row.mediaSessionId)
    (hepoch : row.analysisEpoch < row'.analysisEpoch) (hstarts : StartsEpoch row') :
    SessionsControlled sessions (sessions.set row') := by
  rw [← hid] at hrow
  exact Table.Evolves.of_set Controlled.refl hrow ⟨hid.symm, Or.inr (congrArg some hmedia)⟩
    (Or.inr ⟨hepoch, hstarts⟩)

end SessionsControlled

section Control

variable {db db' : MeetingDb} {sessionId : SessionId}

theorem ensureSession_controlled {mediaSessionId : MediaSessionId} {pluginVersion : String}
    {row : PluginSessionRecord}
    (h : db.ensureSession sessionId mediaSessionId pluginVersion = .ok (row, db')) :
    SessionsControlled db.sessions db'.sessions ∧
      db'.sessions.get row.legacySessionId = some row := by
  simp only [MeetingDb.ensureSession, bind_eq_ok] at h
  obtain ⟨_, -, h⟩ := h
  cases hold : db.sessions.get sessionId with
  | some old =>
    simp only [hold, bind_eq_ok, pure_eq_ok, Prod.mk.injEq] at h
    obtain ⟨_, -, rfl, rfl⟩ := h
    have hid : old.legacySessionId = sessionId := Table.key_of_get hold
    exact ⟨.refl _, hid ▸ hold⟩
  | none =>
    simp only [hold, bind_eq_ok, require_eq_ok, pure_eq_ok, Prod.mk.injEq] at h
    obtain ⟨sessions, hinsert, rfl, rfl⟩ := h
    exact ⟨.of_insert Controlled.refl hinsert (Or.inl rfl), (Table.Writes.of_insert hinsert).1⟩

theorem stopAnalysis_controlled (sessionId : SessionId) :
    SessionsControlled db.sessions (db.stopAnalysis sessionId).sessions := by
  unfold MeetingDb.stopAnalysis
  cases hrow : db.sessions.get sessionId with
  | none => exact .refl _
  | some row =>
    obtain rfl : row.legacySessionId = sessionId := Table.key_of_get hrow
    exact .of_set hrow rfl rfl (Nat.lt_succ_self _) (Or.inl rfl)

theorem activateAnalysis_controlled {row : PluginSessionRecord}
    (hrow : db.sessions.get row.legacySessionId = some row) :
    SessionsControlled db.sessions (db.activateAnalysis row).sessions := by
  unfold MeetingDb.activateAnalysis
  split_ifs
  · exact .refl _
  · exact .of_set hrow rfl rfl (Nat.lt_succ_self _) (Or.inr ⟨rfl, rfl⟩)

theorem revokeAuthority_controlled (sessionId : SessionId) (now : Instant) :
    SessionsControlled db.sessions (db.revokeAuthority sessionId now).sessions := by
  unfold MeetingDb.revokeAuthority
  cases hrow : db.sessions.get sessionId with
  | none => exact .refl _
  | some row =>
    obtain rfl : row.legacySessionId = sessionId := Table.key_of_get hrow
    exact .of_set hrow rfl rfl (Nat.lt_succ_self _) (Or.inl rfl)

theorem revokeAll_controlled (rows : List PluginSessionRecord) (now : Instant) (db : MeetingDb) :
    SessionsControlled db.sessions
      (rows.foldl (fun db row => db.revokeAuthority row.legacySessionId now) db).sessions := by
  induction rows generalizing db with
  | nil => exact .refl _
  | cons first rest ih =>
    exact (revokeAuthority_controlled first.legacySessionId now).trans (ih _)

theorem disablePlugin_controlled (now : Instant) :
    SessionsControlled db.sessions (db.disablePlugin now).sessions :=
  revokeAll_controlled _ now db

theorem activate_controlled {cfg : PolicyConfig} {db db' : ProjectionDb}
    {mediaSessionId : MediaSessionId} {pluginVersion actorId : String}
    (h : db.activate cfg sessionId mediaSessionId pluginVersion actorId = .ok db') :
    ∃ meeting, db' = { db with meeting } ∧
      SessionsControlled db.meeting.sessions meeting.sessions := by
  simp only [ProjectionDb.activate, bind_eq_ok, pure_eq_ok, Prod.exists] at h
  obtain ⟨_, -, legacy, -, _, -, row, meeting, hensure, rfl⟩ := h
  obtain ⟨hcontrolled, hrow⟩ := ensureSession_controlled hensure
  exact ⟨_, rfl, hcontrolled.trans (activateAnalysis_controlled hrow)⟩

end Control

/-- How the control row of a session moves on: an epoch that has ended stays so, and a frontier
that is frozen stays until the next epoch. -/
structure Turned (row row' : PluginSessionRecord) : Prop where
  epoch : row.analysisEpoch ≤ row'.analysisEpoch
  ended : row'.analysisEpoch = row.analysisEpoch → ¬ Running row → ¬ Running row'
  frozen : row'.analysisEpoch = row.analysisEpoch → row.analysisState ≠ .active →
    row'.analysisState ≠ .active ∧ row'.terminalFrontier = row.terminalFrontier

theorem Turned.refl (row : PluginSessionRecord) : Turned row row :=
  ⟨Nat.le_refl _, fun _ h => h, fun _ h => ⟨h, rfl⟩⟩

theorem Turned.trans {a b c : PluginSessionRecord} (h : Turned a b) (h' : Turned b c) :
    Turned a c := by
  have hbetween : c.analysisEpoch = a.analysisEpoch →
      b.analysisEpoch = a.analysisEpoch ∧ c.analysisEpoch = b.analysisEpoch := fun heq => by
    have := h.epoch
    have := h'.epoch
    omega
  refine ⟨Nat.le_trans h.epoch h'.epoch, fun heq hended => ?_, fun heq hfrozen => ?_⟩
  · obtain ⟨hfirst, hsecond⟩ := hbetween heq
    exact h'.ended hsecond (h.ended hfirst hended)
  · obtain ⟨hfirst, hsecond⟩ := hbetween heq
    obtain ⟨hstate, hfrontier⟩ := h.frozen hfirst hfrozen
    obtain ⟨hstate', hfrontier'⟩ := h'.frozen hsecond hstate
    exact ⟨hstate', hfrontier'.trans hfrontier⟩

theorem Controlled.turned {row row' : PluginSessionRecord} (h : Controlled row row') :
    Turned row row' := by
  rcases h with ⟨hepoch, hstate, hfrontier⟩ | ⟨hlt, -⟩
  · refine ⟨Nat.le_of_eq hepoch.symm, fun _ hended => ?_, fun _ hfrozen => ?_⟩
    · rw [Running, hstate]
      exact hended
    · rw [hstate]
      exact ⟨hfrozen, hfrontier⟩
  · exact ⟨Nat.le_of_lt hlt, fun heq => by omega, fun heq => by omega⟩

/-- What every step makes of the tables. -/
structure Grows (db db' : ProjectionDb) : Prop where
  sessions : ∀ k row, db.meeting.sessions.get k = some row →
    ∃ row', db'.meeting.sessions.get k = some row' ∧ Turned row row'
  segments : ∀ k r, db.segments.get k = some r →
    ∃ r', db'.segments.get k = some r' ∧ r.revision ≤ r'.revision
  offsets : ∀ s g r, db.processed s g = some r → ∃ r', db'.processed s g = some r' ∧ r ≤ r'
  heads : ∀ s, db.liveVersion s ≤ db'.liveVersion s ∧
    (db'.liveVersion s = db.liveVersion s → db'.liveState s = db.liveState s)

namespace Grows

variable {db db' db'' : ProjectionDb}

theorem refl (db : ProjectionDb) : Grows db db :=
  ⟨fun _ row h => ⟨row, h, .refl row⟩, fun _ r h => ⟨r, h, Nat.le_refl _⟩,
    fun _ _ r h => ⟨r, h, Nat.le_refl r⟩, fun _ => ⟨Nat.le_refl _, fun _ => rfl⟩⟩

theorem trans (h : Grows db db') (h' : Grows db' db'') : Grows db db'' := by
  refine ⟨fun k row hrow => ?_, fun k r hr => ?_, fun s g r hr => ?_, fun s => ⟨?_, fun heq => ?_⟩⟩
  · obtain ⟨row', hrow', hturned⟩ := h.sessions k row hrow
    obtain ⟨row'', hrow'', hturned'⟩ := h'.sessions k row' hrow'
    exact ⟨row'', hrow'', hturned.trans hturned'⟩
  · obtain ⟨r', hr', hle⟩ := h.segments k r hr
    obtain ⟨r'', hr'', hle'⟩ := h'.segments k r' hr'
    exact ⟨r'', hr'', Nat.le_trans hle hle'⟩
  · obtain ⟨r', hr', hle⟩ := h.offsets s g r hr
    obtain ⟨r'', hr'', hle'⟩ := h'.offsets s g r' hr'
    exact ⟨r'', hr'', Nat.le_trans hle hle'⟩
  · exact Nat.le_trans (h.heads s).1 (h'.heads s).1
  · have hfirst := (h.heads s).1
    have hsecond := (h'.heads s).1
    exact ((h'.heads s).2 (by omega)).trans ((h.heads s).2 (by omega))

theorem of_control {meeting : MeetingDb} {legacySessions : Table SessionRecord}
    {runtimeReady : String → Bool}
    (h : ∀ k row, db.meeting.sessions.get k = some row →
      ∃ row', meeting.sessions.get k = some row' ∧ Turned row row') :
    Grows db { db with meeting, legacySessions, runtimeReady } :=
  ⟨h, (refl db).segments, (refl db).offsets, (refl db).heads⟩

theorem of_set {row row' : PluginSessionRecord}
    (hrow : db.meeting.sessions.get row.legacySessionId = some row)
    (hid : row'.legacySessionId = row.legacySessionId)
    (hmedia : row'.mediaSessionId = row.mediaSessionId) (hturned : Turned row row') :
    Grows db (db.setSession row') := by
  rw [← hid] at hrow
  have hevolves : db.meeting.sessions.Evolves Turned (fun _ => True)
      (db.meeting.sessions.set row') :=
    .of_set Turned.refl hrow ⟨hid.symm, Or.inr (congrArg some hmedia)⟩ hturned
  exact of_control hevolves.kept

end Grows

/-- What a step of a task does to the tables. -/
inductive TaskEffect (cfg : ProjectorConfig) (db : ProjectionDb) : Task → ProjectionDb → Prop
  | nothing (task : Task) : TaskEffect cfg db task db
  | skipped {projector : ProjectorId} {sessionId : SessionId} {epoch : ℕ}
      {snapshots : List ProjectionSegment} {invalid : List SegmentRecord} {db' : ProjectionDb}
      (h : Skipped cfg sessionId epoch invalid db db') :
      TaskEffect cfg db (.scanned projector sessionId epoch snapshots invalid) db'
  | committed {projector : ProjectorId} {sessionId : SessionId} {epoch : ℕ}
      {batch : List ProjectionSegment} {current : MeetingState} {expectedVersion : ℕ}
      {answers : List MeetingStateDelta} {delta : MeetingStateDelta} {db' : ProjectionDb}
      (hdelta : batchDelta cfg sessionId batch answers = some delta)
      (h : Committed cfg ⟨current, expectedVersion, delta, batch⟩ epoch db db') :
      TaskEffect cfg db
        (.batch projector sessionId epoch (.extracting batch current expectedVersion answers)) db'
  | recorded {projector : ProjectorId} {sessionId : SessionId} {epoch : ℕ} {fault : Fault}
      {db' : ProjectionDb} (h : FailureRecorded sessionId epoch db db') :
      TaskEffect cfg db (.batch projector sessionId epoch (.failed fault)) db'
  | froze {sessionId : SessionId} {epoch : ℕ} {frontier : List (SegmentId × ℕ)}
      {row : PluginSessionRecord} (hrow : db.meeting.sessions.get sessionId = some row)
      (hepoch : row.analysisEpoch = epoch) (hactive : row.analysisState = .active) :
      TaskEffect cfg db (.freezing sessionId epoch frontier)
        (db.setSession { row with analysisState := .draining, terminalFrontier := some frontier })
  | finished {sessionId : SessionId} {epoch : ℕ} {row : PluginSessionRecord}
      (hrow : db.meeting.sessions.get sessionId = some row) (hepoch : row.analysisEpoch = epoch)
      (hruns : Running row) :
      TaskEffect cfg db (.finishing sessionId epoch)
        (db.setSession { row with analysisState := .completed })

/-- What a step does to the tables: what the host or a caption does, or the effect of the task
it is a step of. -/
inductive Effect (cfg : ProjectorConfig) (w : World) : Option TaskId → ProjectionDb → Prop
  | control {meeting : MeetingDb} {legacySessions : Table SessionRecord}
      {runtimeReady : String → Bool}
      (h : SessionsControlled w.db.meeting.sessions meeting.sessions) :
      Effect cfg w none { w.db with meeting, legacySessions, runtimeReady }
  | caption (caption : SegmentRecord) : Effect cfg w none (upsertFinal caption w.db)
  | task {id : TaskId} {task : Task} {db' : ProjectionDb} (h : w.tasks id = some task)
      (heffect : TaskEffect cfg w.db task db') : Effect cfg w (some id) db'

/-- A task that a step leaves and that was not there before. -/
inductive NewTask (cfg : ProjectorConfig) (w : World) : Task → Prop
  | scanned (projector : ProjectorId) (sessionId : SessionId) (epoch : ℕ)
      (snapshots : List ProjectionSegment) {invalid : List SegmentRecord}
      (h : ∀ r ∈ invalid, r ∈ w.db.finals sessionId) :
      NewTask cfg w (.scanned projector sessionId epoch snapshots invalid)
  | selected (projector : ProjectorId) (sessionId : SessionId) (epoch : ℕ)
      (batch : List ProjectionSegment) :
      NewTask cfg w (.batch projector sessionId epoch (.selected batch))
  | read (projector : ProjectorId) (sessionId : SessionId) (epoch : ℕ)
      (batch : List ProjectionSegment) :
      NewTask cfg w (.batch projector sessionId epoch
        (.extracting batch (w.db.liveState sessionId) (w.db.liveVersion sessionId) []))
  | extracted {id : TaskId} {projector : ProjectorId} {sessionId : SessionId} {epoch : ℕ}
      {batch : List ProjectionSegment} {current : MeetingState} {expectedVersion : ℕ}
      {answers : List MeetingStateDelta} {payload : DeltaPayload} {delta : MeetingStateDelta}
      (hold : w.tasks id = some (.batch projector sessionId epoch
        (.extracting batch current expectedVersion answers)))
      (hdelta : parseMeetingStateDelta sessionId batch payload = .ok delta) :
      NewTask cfg w (.batch projector sessionId epoch
        (.extracting batch current expectedVersion (answers ++ [delta])))
  | failed (projector : ProjectorId) (sessionId : SessionId) (epoch : ℕ) (fault : Fault) :
      NewTask cfg w (.batch projector sessionId epoch (.failed fault))
  | freezing (sessionId : SessionId) (epoch : ℕ) (frontier : List (SegmentId × ℕ)) :
      NewTask cfg w (.freezing sessionId epoch frontier)
  | finishing {sessionId : SessionId} {epoch : ℕ}
    (h : w.db.FinishReady cfg.policy sessionId epoch) :
      NewTask cfg w (.finishing sessionId epoch)

/-- What a step leads to: an effect on the tables, and tasks that were there or are new. -/
structure Stepped (cfg : ProjectorConfig) (w : World) (id? : Option TaskId) (w' : World) :
    Prop where
  effect : Effect cfg w id? w'.db
  tasks : ∀ id task, w'.tasks id = some task → w.tasks id = some task ∨ NewTask cfg w task

section Steps

variable {cfg : ProjectorConfig} {w w' : World} {a : Action}

theorem finish_ok {db db' : ProjectionDb} {policy : PolicyConfig} {sessionId : SessionId}
    {epoch : ℕ} (h : db.finish policy sessionId epoch = .ok db') :
    ∃ row, db.meeting.sessions.get sessionId = some row ∧ row.analysisEpoch = epoch ∧
      Running row ∧ db' = db.setSession { row with analysisState := .completed } := by
  simp only [ProjectionDb.finish, bind_eq_ok] at h
  obtain ⟨admission, hfence, h⟩ := h
  obtain ⟨row, hrow, rfl, hruns, -⟩ := ProjectionDb.fence_ok hfence
  simp only [hrow, if_true, pure_eq_ok] at h
  exact ⟨row, hrow, rfl, hruns, h.symm⟩

theorem freezeFrontier_eq (db : ProjectionDb) (sessionId : SessionId) (epoch : ℕ)
    (frontier : List (SegmentId × ℕ)) :
    db.freezeFrontier sessionId epoch frontier = db ∨
      ∃ row, db.meeting.sessions.get sessionId = some row ∧ row.analysisEpoch = epoch ∧
        row.analysisState = .active ∧ db.freezeFrontier sessionId epoch frontier =
          db.setSession { row with
            analysisState := .draining
            terminalFrontier := some frontier } := by
  unfold ProjectionDb.freezeFrontier
  cases hrow : db.meeting.sessions.get sessionId with
  | none => exact Or.inl rfl
  | some row =>
    by_cases hactive : row.analysisEpoch = epoch ∧ row.analysisState = .active
    · exact Or.inr ⟨row, rfl, hactive.1, hactive.2, if_pos hactive⟩
    · exact Or.inl (if_neg hactive)

theorem Stepped.of_update {id? : Option TaskId} {id : TaskId} {new : Option Task}
    (heffect : Effect cfg w id? w'.db) (htasks : w'.tasks = Function.update w.tasks id new)
    (hnew : ∀ task, new = some task → NewTask cfg w task) : Stepped cfg w id? w' := by
  refine ⟨heffect, fun other task htask => ?_⟩
  rw [htasks] at htask
  by_cases hid : other = id
  · subst hid
    rw [Function.update_self] at htask
    exact Or.inr (hnew task htask)
  · rw [Function.update_of_ne hid] at htask
    exact Or.inl htask

theorem Stepped.of_end {id? : Option TaskId} {id : TaskId} (heffect : Effect cfg w id? w'.db)
    (htasks : w'.tasks = Function.update w.tasks id none) : Stepped cfg w id? w' :=
  .of_update heffect htasks fun _ hnone => by cases hnone

theorem Effect.refl (cfg : ProjectorConfig) (w : World) : Effect cfg w none w.db :=
  .control (.refl _)

theorem Effect.idle {id : TaskId} {task : Task} (h : w.tasks id = some task) :
    Effect cfg w (some id) w.db :=
  .task h (.nothing task)

section OfTask

variable {projector : ProjectorId} {sessionId : SessionId} {epoch : ℕ} {id : TaskId} {task : Task}

theorem discard_stepped (h : w.tasks id = some task) :
    Stepped cfg w (some id) (w.discard projector sessionId epoch id) :=
  .of_end (.idle h) rfl

theorem raise_stepped {fault : Fault} (h : w.tasks id = some task) :
    Stepped cfg w (some id) (w.raise cfg projector sessionId epoch id fault) := by
  unfold World.raise
  split
  · exact discard_stepped h
  · split_ifs
    · refine .of_update (.idle h) rfl fun task htask => ?_
      cases htask
      exact .failed projector sessionId epoch fault
    · exact discard_stepped h

theorem batchStep_stepped {phase : BatchPhase}
    (htask : w.tasks id = some (.batch projector sessionId epoch phase))
    (h : w.batchStep cfg projector sessionId epoch id phase a = some w') :
    Stepped cfg w (some id) w' := by
  unfold World.batchStep at h
  split at h
  · -- The batch reads the live state.
    cases h
    refine .of_update (.idle htask) rfl fun task hnew => ?_
    cases hnew
    exact .read projector sessionId epoch _
  · -- The model answers.
    split_ifs at h
    · split at h
      · rename_i delta hdelta
        cases h
        refine .of_update (.idle htask) rfl fun task hnew => ?_
        cases hnew
        exact .extracted htask hdelta
      · cases h
        exact raise_stepped htask
    · cases h
      exact discard_stepped htask
  · -- The batch is committed.
    obtain ⟨delta, hdelta, h⟩ := Option.map_eq_some_iff.mp h
    split at h
    · rename_i db hcommit
      cases h
      exact .of_end (.task htask (.committed hdelta (commitProjection_ok hcommit))) rfl
    · rw [← h]
      exact raise_stepped htask
  · cases h
    exact raise_stepped htask
  · -- The failure is recorded.
    split_ifs at h
    · split at h
      · rename_i db hrecord
        cases h
        exact .of_end (.task htask (.recorded (recordFailure_ok hrecord))) rfl
      · cases h
        exact .of_end (.idle htask) rfl
    · cases h
      exact .of_end (.idle htask) rfl
  · cases h

theorem taskStep_stepped (htask : w.tasks id = some task)
    (h : w.taskStep cfg id task a = some w') : Stepped cfg w (some id) w' := by
  unfold World.taskStep at h
  split at h
  · -- Captions are skipped.
    rename_i projector sessionId epoch snapshots invalid _ now
    have hscanned : ∀ {db' : ProjectionDb}, Effect cfg w (some id) db' →
        Stepped cfg w (some id) ({ w with db := db' }.setTask id
          (some (.scanned projector sessionId epoch snapshots []))) := by
      intro db' heffect
      refine .of_update heffect rfl fun task hnew => ?_
      cases hnew
      exact .scanned projector sessionId epoch snapshots fun r hr => absurd hr List.not_mem_nil
    split at h
    · rename_i db hskip
      cases h
      exact hscanned (.task htask (.skipped (skipInvalid_ok hskip)))
    · cases h
      exact hscanned (.idle htask)
    · cases h
      exact .of_end (.idle htask) rfl
  · -- Captions are buffered.
    cases h
    exact .of_end (.idle htask) rfl
  · exact batchStep_stepped htask h
  · -- A frontier is frozen.
    rename_i sessionId epoch frontier _
    cases h
    have heffect : Effect cfg w (some id) (w.db.freezeFrontier sessionId epoch frontier) := by
      rcases freezeFrontier_eq w.db sessionId epoch frontier with hsame | ⟨row, hrow, hepoch,
        hactive, hfroze⟩
      · rw [hsame]
        exact .idle htask
      · rw [hfroze]
        exact .task htask (.froze hrow hepoch hactive)
    exact .of_end heffect rfl
  · -- An analysis is finished.
    split at h
    · rename_i db hfinish
      cases h
      obtain ⟨row, hrow, hepoch, hruns, rfl⟩ := finish_ok hfinish
      exact .of_end (.task htask (.finished hrow hepoch hruns)) rfl
    · cases h
      exact .of_end (.idle htask) rfl
  · cases h

end OfTask

theorem start_stepped {w₁ : World} {id : TaskId} {task : Task} (hdb : w₁.db = w.db)
    (htasks : w₁.tasks = w.tasks) (hnew : NewTask cfg w task) (h : w₁.start id task = some w') :
    Stepped cfg w none w' := by
  unfold World.start at h
  split_ifs at h
  cases h
  have hset : (w₁.setTask id (some task)).tasks = Function.update w.tasks id (some task) := by
    rw [← htasks]
    rfl
  refine .of_update ?_ hset fun _ hsome => ?_
  · rw [show (w₁.setTask id (some task)).db = w.db from hdb]
    exact .refl cfg w
  · cases hsome
    exact hnew

theorem Stepped.of_same (hdb : w'.db = w.db) (htasks : w'.tasks = w.tasks) :
    Stepped cfg w none w' := by
  refine ⟨?_, fun id task htask => Or.inl ?_⟩
  · rw [hdb]
    exact .refl cfg w
  · rw [← htasks]
    exact htask

theorem scanSession_stepped {projector : ProjectorId} {sessionId : SessionId}
    {seen : SegmentId → Bool} {id : TaskId}
    (h : w.scanSession cfg projector sessionId seen id = some w') : Stepped cfg w none w' := by
  simp only [World.scanSession] at h
  split at h
  · cases h
  · split_ifs at h
    refine start_stepped rfl rfl (.scanned _ _ _ _ fun r hr => ?_) h
    have hpending := (List.mem_filter.mp (List.mem_filter.mp hr).1).1
    exact (List.mem_filter.mp hpending).1

theorem takeBatch_stepped {projector : ProjectorId} {sessionId : SessionId} {id : TaskId}
    (h : w.takeBatch cfg projector sessionId id = some w') : Stepped cfg w none w' := by
  unfold World.takeBatch at h
  split at h
  · cases h
  · split_ifs at h
    split at h
    · cases h
      exact .of_same rfl rfl
    · split_ifs at h
      · exact start_stepped (rfl : (w.setInflight projector sessionId true).db = w.db) rfl
          (.selected _ _ _ _) h
      · cases h
        exact .of_same rfl rfl

theorem drop_stepped {id : TaskId} (h : w.next cfg (.drop id) = some w') :
    Stepped cfg w none w' := by
  simp only [World.next] at h
  split at h
  all_goals
    cases h
    exact .of_end (.refl cfg w) rfl

theorem Stepped.of_control {db : ProjectionDb} (heffect : Effect cfg w none db) :
    Stepped cfg w none { w with db } :=
  ⟨heffect, fun _ _ htask => Or.inl htask⟩

theorem next_task {id : TaskId} (ha : a.task? = some id) (h : World.Steps cfg w a w') :
    ∃ task, w.tasks id = some task ∧ w.taskStep cfg id task a = some w' := by
  unfold World.Steps at h
  cases a with
  | skip i now | buffer i | read i | extract i payload | fail i fault | commit i now
  | record i errorCode now | freeze i | finish i =>
    cases ha
    obtain ⟨task, htask, hstep⟩ := Option.bind_eq_some_iff.mp h
    exact ⟨task, htask, hstep⟩
  | _ => cases ha

theorem next_stepped (h : World.Steps cfg w a w') : Stepped cfg w a.task? w' := by
  unfold World.Steps at h
  cases a with
  | ensureSession sessionId mediaSessionId pluginVersion =>
    obtain ⟨made, hmade, rfl⟩ := Option.map_eq_some_iff.mp h
    exact .of_control (.control (ensureSession_controlled (toOption_eq_some.mp hmade)).1)
  | activate sessionId mediaSessionId pluginVersion actorId =>
    obtain ⟨db, hactivate, rfl⟩ := Option.map_eq_some_iff.mp h
    obtain ⟨meeting, rfl, hcontrolled⟩ := activate_controlled (toOption_eq_some.mp hactivate)
    exact .of_control (.control hcontrolled)
  | confirmActivation sessionId =>
    obtain ⟨row, hrow, rfl⟩ := Option.map_eq_some_iff.mp h
    obtain rfl : row.legacySessionId = sessionId := Table.key_of_get hrow
    exact .of_control (.control (activateAnalysis_controlled hrow))
  | deactivate sessionId =>
    cases h
    exact .of_control (.control (stopAnalysis_controlled sessionId))
  | revoke sessionId now =>
    cases h
    exact .of_control (.control (revokeAuthority_controlled sessionId now))
  | disable now =>
    cases h
    exact .of_control (.control (disablePlugin_controlled now))
  | host host runtimeReady =>
    cases h
    exact .of_control (.control (.refl _))
  | session record =>
    obtain ⟨legacySessions, -, rfl⟩ := Option.map_eq_some_iff.mp h
    exact .of_control (.control (.refl _))
  | caption caption =>
    cases h
    exact .of_control (.caption caption)
  | scan projector sessionId seen id => exact scanSession_stepped h
  | adopt projector sessionId =>
    simp only [World.next] at h
    split_ifs at h
    cases h
    exact .of_same rfl rfl
  | take projector sessionId id => exact takeBatch_stepped h
  | drop id => exact drop_stepped h
  | clear projector =>
    cases h
    exact .of_same rfl rfl
  | readFrontier sessionId id =>
    obtain ⟨row, -, h⟩ := Option.bind_eq_some_iff.mp h
    split_ifs at h
    exact start_stepped rfl rfl (.freezing _ _ _) h
  | checkDrained sessionId epoch id =>
    simp only [World.next] at h
    split_ifs at h with hready
    exact start_stepped rfl rfl (.finishing hready) h
  | skip id now | buffer id | read id | extract id payload | fail id fault | commit id now
  | record id errorCode now | freeze id | finish id =>
    obtain ⟨task, htask, hstep⟩ := next_task rfl h
    exact taskStep_stepped htask hstep

end Steps

end Meeting
end Matinier
