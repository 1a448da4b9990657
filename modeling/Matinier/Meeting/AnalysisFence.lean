import Matinier.Meeting.ProjectorInvariant

/-!
# The analysis is fenced

Offsets, heads and candidates are written by batches only, each under the epoch of its session
as that is in the same transaction, and for captions within the frontier that is frozen there.
An epoch that has been stopped, or that another one has superseded, stays so; hence nothing is
written for it any more, however its batches and those that follow are interleaved.
-/

namespace Matinier
namespace Meeting

open Assistant

/-- The epoch has been stopped, or another one has taken its place. -/
def Ended (db : ProjectionDb) (sessionId : SessionId) (epoch : ℕ) : Prop :=
  ∃ row, db.meeting.sessions.get sessionId = some row ∧
    (epoch < row.analysisEpoch ∨ epoch = row.analysisEpoch ∧ ¬ Running row)

/-- The action stops the analysis of the session. -/
def Action.Stops : Action → PluginSessionRecord → Prop
  | .deactivate sessionId, row | .revoke sessionId _, row => row.legacySessionId = sessionId
  | .disable _, row => row.pluginId = meetingPluginId
  | _, _ => False

def Task.sessionId : Task → SessionId
  | .scanned _ sessionId _ _ _ | .batch _ sessionId _ _ | .freezing sessionId _ _
  | .finishing sessionId _ => sessionId

def Task.epoch : Task → ℕ
  | .scanned _ _ epoch _ _ | .batch _ _ epoch _ | .freezing _ epoch _ | .finishing _ epoch => epoch

def Task.projects : Task → List (SegmentId × ℕ)
  | .batch _ _ _ (.extracting segments _ _ _) => batchRevisions segments
  | _ => []

/-- No offset, head or candidate is written. -/
structure Unwritten (db db' : ProjectionDb) : Prop where
  offsets : db'.offsets = db.offsets
  heads : db'.heads = db.heads
  candidates : db'.candidates = db.candidates

/-- Whatever a task writes is of its session and, of captions, within a frontier: the offsets,
the captions of the batch whose state and candidates are written, and what new items cite. -/
structure WritesWithin (task : Task) (frontier : Option (List (SegmentId × ℕ)))
    (db db' : ProjectionDb) : Prop where
  others : ∀ s, s ≠ task.sessionId → db'.heads.get s = db.heads.get s
  offsets : ∀ s g, db'.processed s g ≠ db.processed s g →
    s = task.sessionId ∧ ∃ r, db'.processed s g = some r ∧ WithinFrontier frontier g r
  batch : (db'.liveState task.sessionId ≠ db.liveState task.sessionId ∨
      db'.liveVersion task.sessionId ≠ db.liveVersion task.sessionId ∨
      db'.candidates ≠ db.candidates) →
    ∀ entry ∈ task.projects, WithinFrontier frontier entry.1 entry.2
  items : ∀ item ∈ (db'.liveState task.sessionId).items,
    item ∉ (db.liveState task.sessionId).items → ∀ g ∈ item.sourceSegmentIds,
      ∃ r, item.revision? g = some r ∧ WithinFrontier frontier g r

section Fence

variable {cfg : ProjectorConfig} {db db' : ProjectionDb} {w w' : World} {a : Action}
  {row : PluginSessionRecord}

theorem Unwritten.refl (db : ProjectionDb) : Unwritten db db := ⟨rfl, rfl, rfl⟩

theorem Ended.grows {sessionId : SessionId} {epoch : ℕ} (h : Ended db sessionId epoch)
    (hgrows : Grows db db') : Ended db' sessionId epoch := by
  obtain ⟨row, hrow, hended⟩ := h
  obtain ⟨row', hrow', hturned⟩ := hgrows.sessions sessionId row hrow
  refine ⟨row', hrow', ?_⟩
  rcases hended with hlt | ⟨rfl, hstopped⟩
  · exact Or.inl (Nat.lt_of_lt_of_le hlt hturned.epoch)
  · rcases Nat.lt_or_eq_of_le hturned.epoch with hlt | heq
    · exact Or.inl hlt
    · exact Or.inr ⟨heq, hturned.ended heq.symm hstopped⟩

theorem stopAnalysis_raises {db : MeetingDb}
    (hrow : db.sessions.get row.legacySessionId = some row) :
    ∃ row', (db.stopAnalysis row.legacySessionId).sessions.get row.legacySessionId = some row' ∧
      row.analysisEpoch < row'.analysisEpoch := by
  let stopped : PluginSessionRecord :=
    { row with analysisState := .inactive, analysisEpoch := row.analysisEpoch + 1 }
  refine ⟨stopped, ?_, Nat.lt_succ_self _⟩
  simp only [MeetingDb.stopAnalysis, hrow]
  exact Table.get_set_self (r := stopped) hrow ⟨rfl, Or.inr rfl⟩

theorem revokeAuthority_raises {db : MeetingDb} (now : Instant)
    (hrow : db.sessions.get row.legacySessionId = some row) :
    ∃ row', (db.revokeAuthority row.legacySessionId now).sessions.get row.legacySessionId =
      some row' ∧ row.analysisEpoch < row'.analysisEpoch := by
  let revoked : PluginSessionRecord :=
    { row with
      analysisState := .inactive
      analysisEpoch := row.analysisEpoch + 1
      authorityEpoch := row.authorityEpoch + 1 }
  refine ⟨revoked, ?_, Nat.lt_succ_self _⟩
  simp only [MeetingDb.revokeAuthority, hrow]
  exact Table.get_set_self (r := revoked) hrow ⟨rfl, Or.inr rfl⟩

/-- The epoch of a session is raised where the authority of each of several is revoked. -/
theorem revokeAll_raises (rows : List PluginSessionRecord) (now : Instant) (db : MeetingDb)
    (hmem : row.legacySessionId ∈ rows.map PluginSessionRecord.legacySessionId)
    (hrow : db.sessions.get row.legacySessionId = some row) :
    ∃ row', (rows.foldl (fun db row => db.revokeAuthority row.legacySessionId now)
      db).sessions.get row.legacySessionId = some row' ∧
        row.analysisEpoch < row'.analysisEpoch := by
  induction rows generalizing db row with
  | nil => exact absurd hmem List.not_mem_nil
  | cons first rest ih =>
    rw [List.foldl_cons]
    by_cases hfirst : row.legacySessionId = first.legacySessionId
    · rw [← hfirst]
      obtain ⟨mid, hmid, hraised⟩ := revokeAuthority_raises now hrow
      obtain ⟨row', hrow', hkept⟩ := (revokeAll_controlled rest now _).kept _ mid hmid
      exact ⟨row', hrow', Nat.lt_of_lt_of_le hraised hkept.turned.epoch⟩
    · obtain ⟨mid, hmid, hkept⟩ :=
        (revokeAuthority_controlled first.legacySessionId now).kept _ row hrow
      have hid : mid.legacySessionId = row.legacySessionId := Table.key_of_get hmid
      rw [← hid] at hmid ⊢
      have hrest : mid.legacySessionId ∈ rest.map PluginSessionRecord.legacySessionId := by
        rw [hid]
        exact (List.mem_cons.mp hmem).resolve_left hfirst
      obtain ⟨row', hrow', hraised⟩ := ih _ hrest hmid
      exact ⟨row', hrow', Nat.lt_of_le_of_lt hkept.turned.epoch hraised⟩

theorem Action.Stops.ends (hstops : a.Stops row)
    (hrow : w.db.meeting.sessions.get row.legacySessionId = some row)
    (h : World.Steps cfg w a w') : Ended w'.db row.legacySessionId row.analysisEpoch := by
  cases a with
  | deactivate sessionId =>
    cases h
    obtain rfl : row.legacySessionId = sessionId := hstops
    obtain ⟨row', hrow', hraised⟩ := stopAnalysis_raises hrow
    exact ⟨row', hrow', Or.inl hraised⟩
  | revoke sessionId now =>
    cases h
    obtain rfl : row.legacySessionId = sessionId := hstops
    obtain ⟨row', hrow', hraised⟩ := revokeAuthority_raises now hrow
    exact ⟨row', hrow', Or.inl hraised⟩
  | disable now =>
    cases h
    have hmem : row ∈ w.db.meeting.sessions.select fun row => row.pluginId = meetingPluginId :=
      Table.mem_select.mpr ⟨Table.mem_of_get hrow, decide_eq_true hstops⟩
    obtain ⟨row', hrow', hraised⟩ := revokeAll_raises _ now _ (List.mem_map_of_mem hmem) hrow
    exact ⟨row', hrow', Or.inl hraised⟩
  | _ => exact absurd hstops id

theorem FailureRecorded.fenced {projector : ProjectorId} {sessionId : SessionId} {epoch : ℕ}
    {fault : Fault} (h : FailureRecorded sessionId epoch db db') :
    ∃ row, db.meeting.sessions.get sessionId = some row ∧ row.analysisEpoch = epoch ∧
      Running row ∧
      WritesWithin (.batch projector sessionId epoch (.failed fault)) row.terminalFrontier db
        db' := by
  obtain ⟨row, hrow, hepoch, hruns, -⟩ := h.runs
  refine ⟨row, hrow, hepoch, hruns, h.others, fun s g hne => ?_,
    fun _ entry hentry => absurd hentry List.not_mem_nil, fun item hitem hnew => ?_⟩
  · rw [h.rest] at hne
    exact absurd rfl hne
  · rw [h.states] at hitem
    exact absurd hitem hnew

theorem Skipped.fenced {projector : ProjectorId} {sessionId : SessionId} {epoch : ℕ}
    {snapshots : List ProjectionSegment} {invalid : List SegmentRecord}
    (h : Skipped cfg sessionId epoch invalid db db') :
    ∃ row, db.meeting.sessions.get sessionId = some row ∧ row.analysisEpoch = epoch ∧
      Running row ∧
      WritesWithin (.scanned projector sessionId epoch snapshots invalid) row.terminalFrontier db
        db' := by
  obtain ⟨⟨admission, hfence, hadvanced⟩, hrest⟩ := h
  obtain ⟨row, hrow, hepoch, hruns, hfrontier⟩ := ProjectionDb.fence_ok hfence
  refine ⟨row, hrow, hepoch, hruns, fun s _ => ?_, fun s g hne => ?_,
    fun _ entry hentry => absurd hentry List.not_mem_nil, fun item hitem hnew => ?_⟩
  · rw [hrest]
  · obtain ⟨rfl, r, hr, hentry⟩ := hadvanced.changed hne
    refine ⟨rfl, r, hr, ?_⟩
    obtain ⟨record, hrecord, heq⟩ := List.mem_map.mp hentry
    obtain ⟨rfl, rfl⟩ := Prod.mk.inj heq
    rw [← hfrontier]
    exact (of_decide_eq_true (List.mem_filter.mp hrecord).2).2.2
  · rw [hrest] at hitem
    exact absurd hitem hnew

theorem Committed.fenced {projector : ProjectorId} {sessionId : SessionId} {epoch : ℕ}
    {batch : List ProjectionSegment} {current : MeetingState} {expectedVersion : ℕ}
    {answers : List MeetingStateDelta} {delta : MeetingStateDelta}
    (h : Committed cfg ⟨current, expectedVersion, delta, batch⟩ epoch db db')
    (htask : TaskOk db
      (.batch projector sessionId epoch (.extracting batch current expectedVersion answers))) :
    ∃ row, db.meeting.sessions.get sessionId = some row ∧ row.analysisEpoch = epoch ∧
      Running row ∧
      WritesWithin
        (.batch projector sessionId epoch (.extracting batch current expectedVersion answers))
        row.terminalFrontier db db' := by
  obtain ⟨rfl, hcurrent⟩ := h.current_live htask
  obtain ⟨row, hrow, hepoch, hruns, hwithin⟩ := h.runs
  refine ⟨row, hrow, hepoch, hruns, h.heads, fun s g hne => ?_, fun _ => hwithin,
    fun item hitem hnew g hg => ?_⟩
  · obtain ⟨rfl, r, hr, hentry⟩ := h.offsets.changed hne
    exact ⟨rfl, r, hr, hwithin (g, r) hentry⟩
  · obtain ⟨shown, next, hmerge, hlive⟩ := h.merged
    obtain ⟨-, -, hitems⟩ := mergeMeetingState_items hmerge
    have hlive : db'.liveState current.sessionId = next := hlive
    have hitem : item ∈ (db'.liveState current.sessionId).items := hitem
    have hold : item ∉ current.items := by
      rw [← hcurrent]
      exact hnew
    rw [hlive] at hitem
    rcases hitems item hitem with hconcern | ⟨hkept, -⟩ | hcites
    · exact absurd (by simp [hconcern]) hold
    · exact absurd hkept hold
    · obtain ⟨r, hr, hrevision⟩ := hcites g hg
      exact ⟨r, hrevision, hwithin (g, r) (mem_of_revisionIn hr)⟩

/-- What the effect of a task writes, it writes under the present epoch of its session, whose
analysis runs, and within the frontier of its row. -/
theorem TaskEffect.fenced {task : Task} (h : TaskEffect cfg db task db') (htask : TaskOk db task) :
    Unwritten db db' ∨ ∃ row, db.meeting.sessions.get task.sessionId = some row ∧
      row.analysisEpoch = task.epoch ∧ Running row ∧
      WritesWithin task row.terminalFrontier db db' := by
  cases h with
  | nothing => exact Or.inl (.refl db)
  | froze => exact Or.inl ⟨rfl, rfl, rfl⟩
  | finished => exact Or.inl ⟨rfl, rfl, rfl⟩
  | recorded h => exact Or.inr h.fenced
  | skipped h => exact Or.inr h.fenced
  | committed _ h => exact Or.inr (h.fenced htask)

/-- Nothing but a step of a task writes an offset, a head or a candidate. -/
theorem Effect.fenced {id? : Option TaskId} (h : Effect cfg w id? db') (hw : w.Sound) :
    Unwritten w.db db' ∨ ∃ id task row, id? = some id ∧ w.tasks id = some task ∧
      w.db.meeting.sessions.get task.sessionId = some row ∧ row.analysisEpoch = task.epoch ∧
      Running row ∧ WritesWithin task row.terminalFrontier w.db db' := by
  cases h with
  | control => exact Or.inl ⟨rfl, rfl, rfl⟩
  | caption caption =>
    obtain ⟨segments, heq, -⟩ := upsertFinal_segments caption w.db
    rw [heq]
    exact Or.inl ⟨rfl, rfl, rfl⟩
  | @task id task _ htask heffect =>
    rcases heffect.fenced (hw.tasks id task htask) with hunwritten |
      ⟨row, hrow, hepoch, hruns, hwithin⟩
    · exact Or.inl hunwritten
    · exact Or.inr ⟨id, task, row, rfl, htask, hrow, hepoch, hruns, hwithin⟩

theorem Ended.unwritten {id : TaskId} {task : Task} (hw : w.Sound) (htask : w.tasks id = some task)
    (hended : Ended w.db task.sessionId task.epoch) (ha : a.task? = some id)
    (h : World.Steps cfg w a w') : Unwritten w.db w'.db := by
  rcases (next_stepped h).effect.fenced hw with hunwritten |
    ⟨id', task', row, hid, htask', hrow, hepoch, hruns, -⟩
  · exact hunwritten
  · obtain rfl : id = id' := Option.some.inj (ha.symm.trans hid)
    obtain rfl := Option.some.inj (htask.symm.trans htask')
    obtain ⟨row', hrow', hended⟩ := hended
    obtain rfl := Option.some.inj (hrow.symm.trans hrow')
    rcases hended with hlt | ⟨-, hstopped⟩
    · omega
    · exact absurd hruns hstopped

/-- In every run: stopping an analysis ends its epoch; no step of a task of an epoch that has ended
writes an offset, a head or a candidate; what is written of them is within the frontier frozen in
the present epoch; and an analysis is complete only with a frontier it has drained. -/
theorem analysis_fenced {as : List Action} (hfresh : w.Fresh)
    (hrun : Run (World.Steps cfg) w as w') :
    (∀ a w'' row, World.Steps cfg w' a w'' → a.Stops row →
      w'.db.meeting.sessions.get row.legacySessionId = some row →
        Ended w''.db row.legacySessionId row.analysisEpoch) ∧
    (∀ s epoch bs w₁ a w₂ id task, Ended w'.db s epoch → Run (World.Steps cfg) w' bs w₁ →
      World.Steps cfg w₁ a w₂ → a.task? = some id → w₁.tasks id = some task →
        task.sessionId = s → task.epoch = epoch → Unwritten w₁.db w₂.db) ∧
    (∀ a w'', World.Steps cfg w' a w'' → Unwritten w'.db w''.db ∨
      ∃ id task row, a.task? = some id ∧ w'.tasks id = some task ∧
        w'.db.meeting.sessions.get task.sessionId = some row ∧
        row.analysisEpoch = task.epoch ∧ Running row ∧
        WritesWithin task row.terminalFrontier w'.db w''.db) ∧
    (∀ s row, w'.db.meeting.sessions.get s = some row → row.analysisState = .completed →
      ∃ frontier, row.terminalFrontier = some frontier ∧ w'.db.Drained s frontier) := by
  have hsound := hfresh.reaches hrun
  refine ⟨fun a w'' row hstep hstops hrow => hstops.ends hrow hstep, ?_, ?_, ?_⟩
  · rintro s epoch bs w₁ a w₂ id task hended hlater hstep ha htask rfl rfl
    have hsound₁ := hfresh.reaches (hrun.append hlater)
    exact (hended.grows (run_grows hlater)).unwritten hsound₁ htask ha hstep
  · exact fun a w'' hstep => (next_stepped hstep).effect.fenced hsound
  · intro s row hrow hcompleted
    obtain rfl : row.legacySessionId = s := Table.key_of_get hrow
    exact (hsound.sessions _ row hrow).completed hcompleted

/-- In every run nothing that was projected is undone: offsets and versions never go back, the
state of a version is never another, and the frontier of an analysis that was completed stays
drained, and its own until the session's next epoch. -/
theorem projection_never_undone {u : World} {as bs : List Action} (hfresh : w.Fresh)
    (hrun : Run (World.Steps cfg) w as u) (hlater : Run (World.Steps cfg) u bs w') :
    (∀ s g r, u.db.processed s g = some r → ∃ r', w'.db.processed s g = some r' ∧ r ≤ r') ∧
    (∀ s, u.db.liveVersion s ≤ w'.db.liveVersion s ∧
      (w'.db.liveVersion s = u.db.liveVersion s → w'.db.liveState s = u.db.liveState s)) ∧
    ∀ s row, u.db.meeting.sessions.get s = some row → row.analysisState = .completed →
      ∃ row' frontier, w'.db.meeting.sessions.get s = some row' ∧ w'.db.Drained s frontier ∧
        row.analysisEpoch ≤ row'.analysisEpoch ∧ (row'.analysisEpoch = row.analysisEpoch →
          row'.analysisState ≠ .active ∧ row'.terminalFrontier = some frontier) := by
  have hgrows := run_grows hlater
  refine ⟨hgrows.offsets, hgrows.heads, fun s row hrow hcompleted => ?_⟩
  obtain rfl : row.legacySessionId = s := Table.key_of_get hrow
  obtain ⟨frontier, hfrontier, hdrained⟩ :=
    ((hfresh.reaches hrun).sessions _ row hrow).completed hcompleted
  obtain ⟨row', hrow', hturned⟩ := hgrows.sessions _ row hrow
  refine ⟨row', frontier, hrow', hgrows.drained hdrained, hturned.epoch, fun hsame => ?_⟩
  obtain ⟨hinactive, hkept⟩ := hturned.frozen hsame (by simp [hcompleted])
  exact ⟨hinactive, hkept.trans hfrontier⟩

end Fence

def plainProjector : ProjectorConfig where
  merge := ⟨fun _ _ sources => sources.headD 0, id⟩
  applyOperations := fun _ _ _ _ candidates => .ok ([], candidates)

def analysingHost : Host where
  permissions := fun _ _ => ["meeting.state.query"]

def quietWorld : World where
  db := { meeting := { host := analysingHost } }

theorem quietWorld_fresh : quietWorld.Fresh := ⟨rfl, rfl, rfl, fun _ => rfl⟩

def spokenCaption : SegmentRecord where
  sessionId := 1
  segmentId := 1
  trackId := "mic"
  revision := 1
  language := "en"
  rawText := "we ship on friday"
  displayText := "We ship on Friday."

theorem shipping_sources : [1] ≠ [] := List.cons_ne_nil _ _

def shippingTopic : StateItemProposal where
  text := "shipping"
  sourceSegmentIds := [1]
  text_normal := by decide
  text_ne := by decide
  sources_ne := shipping_sources
  sources_nodup := by decide

def extractedTrace : List Action :=
  [.session ⟨1, .active⟩, .ensureSession 1 1 "1.0.0", .confirmActivation 1,
    .caption spokenCaption, .scan 0 1 (fun _ => true) 0, .buffer 0, .take 0 1 0, .read 0,
    .extract 0 { topics := [shippingTopic] }]

def stoppedMeeting : World :=
  (follow (fun w => w.next plainProjector) (extractedTrace ++ [.deactivate 1]) quietWorld).get
    (by decide)

theorem stoppedMeeting_run :
    Run (World.Steps plainProjector) quietWorld (extractedTrace ++ [.deactivate 1])
      stoppedMeeting :=
  run_to_get _ _ _ _

def lateMeeting : World := (stoppedMeeting.next plainProjector (.commit 0 5)).get (by decide)

theorem lateMeeting_kept : stoppedMeeting.db.liveVersion 1 ≤ lateMeeting.db.liveVersion 1 :=
  ((projection_never_undone quietWorld_fresh stoppedMeeting_run
    (.single (Option.some_get _).symm)).2.1 1).1

theorem stoppedMeeting_fenced : Unwritten stoppedMeeting.db lateMeeting.db := by
  have hrow : (stoppedMeeting.db.meeting.sessions.get 1).isSome = true := by decide
  have htask : (stoppedMeeting.tasks 0).isSome = true := by decide
  have hended : Ended stoppedMeeting.db 1 1 :=
    ⟨_, (Option.some_get hrow).symm, Or.inl (by decide +revert)⟩
  exact (analysis_fenced quietWorld_fresh stoppedMeeting_run).2.1 1 1 [] stoppedMeeting
    (.commit 0 5) lateMeeting 0 _ hended (.done _) (Option.some_get _).symm rfl
    (Option.some_get htask).symm rfl rfl

end Meeting
end Matinier
