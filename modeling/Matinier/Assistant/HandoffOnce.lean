import Matinier.Foundation.Machine
import Matinier.Assistant.Handoff

/-!
# One handoff for each source

Any number of requests hand fast turns off while others change the executions and the
process crashes and starts again. A source has one handoff and one target at most, it is
handed off exactly where its handoff exists, and all who are answered have the same answer.
-/

namespace Matinier
namespace Assistant

/-- What a request is at: reads before its first write, the transaction, the enqueueing of
the target, or its end. -/
inductive HandoffPhase where
  | reading (rest : Reader Db (Except Fault (HandoffCommit ⊕ HandoffPlan)))
  | writing (plan : HandoffPlan)
  | enqueueing (commit : HandoffCommit)
  | returned (commit : HandoffCommit)
  | raised (e : Fault)

structure HandoffCall where
  request : HandoffRequest
  phase : HandoffPhase

structure HandoffWorld where
  db : Db := {}
  calls : List HandoffCall := []

inductive HandoffAction where
  | request (request : HandoffRequest)
  | read (call : ℕ)
  | write (call : ℕ) (ids : HandoffIds) (now : Instant)
  | enqueued (call : ℕ)
  | raise (call : ℕ) (e : Fault)
  | crash
  | create (sessionId : SessionId) (profile : ExecutionProfile) (goal : String)
      (clientRequestId : Option String) (snapshotId : Option SnapshotId)
      (grantId : Option GrantId) (id : ExecutionId) (now : Instant)
  | transition (id : ExecutionId) (request : TransitionRequest)
  | appendStep (id : ExecutionId) (kind : StepKind) (output : Option PlannerOutcome)
      (summary : Option String) (stepId : StepId)
  | other (db : Db)

/-- The steps of the requests themselves. -/
def HandoffAction.OfHandoff : HandoffAction → Prop
  | .create .. | .transition .. | .appendStep .. | .other _ => False
  | _ => True

/-- The request has returned or raised. -/
def HandoffPhase.Ended : HandoffPhase → Prop
  | .returned _ | .raised _ => True
  | _ => False

instance : DecidablePred HandoffPhase.Ended
  | .returned _ | .raised _ => isTrue trivial
  | .reading _ | .writing _ | .enqueueing _ => isFalse id

/-- One read of a request; with the last one it goes on to its answer or its transaction. -/
def HandoffPhase.read (db : Db) : HandoffPhase → Option HandoffPhase
  | .reading (.read next) => some (.reading (next db))
  | .reading (.pure (.ok (.inl commit))) => some (.enqueueing commit)
  | .reading (.pure (.ok (.inr plan))) => some (.writing plan)
  | .reading (.pure (.error e)) => some (.raised e)
  | _ => none

namespace HandoffWorld

def setPhase (w : HandoffWorld) (i : ℕ) (call : HandoffCall) (phase : HandoffPhase) :
    HandoffWorld :=
  { w with calls := w.calls.set i { call with phase } }

/-- One step. A transaction that fails leaves the database as it was; what others do to
executions is made of the last four steps. -/
def next (w : HandoffWorld) : HandoffAction → Option HandoffWorld
  | .request request =>
    some { w with calls := w.calls ++ [{ request, phase := .reading (readHandoff request) }] }
  | .read i => do
    let call ← w.calls[i]?
    let phase ← call.phase.read w.db
    return w.setPhase i call phase
  | .write i ids now => do
    let call ← w.calls[i]?
    match call.phase with
    | .writing plan =>
      match commitHandoff plan ids now w.db with
      | .ok (commit, db) => return { w with db }.setPhase i call (.enqueueing commit)
      | .error e => return w.setPhase i call (.raised e)
    | _ => none
  | .enqueued i => do
    let call ← w.calls[i]?
    match call.phase with
    | .enqueueing commit => return w.setPhase i call (.returned commit)
    | _ => none
  | .raise i e => do
    let call ← w.calls[i]?
    if call.phase.Ended then none else return w.setPhase i call (.raised e)
  | .crash => some { w with calls := w.calls.filter fun call => call.phase.Ended }
  | .create sessionId profile goal clientRequestId snapshotId grantId id now =>
    match w.db.createExecution sessionId profile goal clientRequestId none snapshotId grantId id
        now with
    | .ok (_, db) => some { w with db }
    | .error _ => some w
  | .transition id request =>
    if request.targetStatus = .handedOff then none
    else
      match w.db.transitionExecution id request with
      | .ok (_, db) => some { w with db }
      | .error _ => some w
  | .appendStep id kind output summary stepId =>
    match w.db.appendStep id kind output summary stepId with
    | .ok (_, db) => some { w with db }
    | .error _ => some w
  | .other db =>
    some { w with db := { db with executions := w.db.executions, handoffs := w.db.handoffs } }

abbrev Steps : HandoffWorld → HandoffAction → HandoffWorld → Prop :=
  fun w a w' => next w a = some w'

end HandoffWorld

/-- The answer that a handoff has, with the root its target has. -/
def HandoffRecord.Answers (h : HandoffRecord) (db : Db) (commit : HandoffCommit) : Prop :=
  ∃ target, db.getExecution h.targetExecutionId = some target ∧
    commit = {
      handoffId := h.id
      sourceExecutionId := h.sourceExecutionId
      targetExecutionId := h.targetExecutionId
      rootExecutionId := target.rootExecutionId
      grantId := h.grantId
      snapshotId := h.snapshotId }

/-- Each handoff has its source and its target, each execution that is handed off has its
handoff, and each child is the target of one. -/
structure HandedOffOnce (db : Db) : Prop where
  source : ∀ h ∈ db.handoffs.rows, ∃ s, db.getExecution h.sourceExecutionId = some s ∧
    s.status = .handedOff
  target : ∀ h ∈ db.handoffs.rows, ∃ t, db.getExecution h.targetExecutionId = some t ∧
    t.profile = .actionRun ∧ t.parentExecutionId = some h.sourceExecutionId
  recorded : ∀ id e, db.getExecution id = some e → e.status = .handedOff →
    ∃ h ∈ db.handoffs.rows, h.sourceExecutionId = id
  children : ∀ id e, db.getExecution id = some e → ∀ p, e.parentExecutionId = some p →
    ∃ h ∈ db.handoffs.rows, h.sourceExecutionId = p ∧ h.targetExecutionId = id

/-- The two rows are of one execution, handed off in both or in neither. -/
structure SameLineage (e e' : ExecutionRecord) : Prop where
  profile : e'.profile = e.profile
  parent : e'.parentExecutionId = e.parentExecutionId
  root : e'.rootExecutionId = e.rootExecutionId
  handedOff : e'.status = .handedOff ↔ e.status = .handedOff

theorem SameLineage.refl (e : ExecutionRecord) : SameLineage e e := ⟨rfl, rfl, rfl, Iff.rfl⟩

theorem SameLineage.trans {e e' e'' : ExecutionRecord} (h : SameLineage e e')
    (h' : SameLineage e' e'') : SameLineage e e'' :=
  ⟨h'.profile.trans h.profile, h'.parent.trans h.parent, h'.root.trans h.root,
    h'.handedOff.trans h.handedOff⟩

/-- What every step but the transaction of a handoff does: it keeps the handoffs and the
lineage of each execution, and a new execution is no child and not handed off. -/
structure KeepsLineage (db db' : Db) : Prop where
  handoffs : db'.handoffs = db.handoffs
  kept : ∀ id e, db.getExecution id = some e →
    ∃ e', db'.getExecution id = some e' ∧ SameLineage e e'
  fresh : ∀ id e', db'.getExecution id = some e' → db.getExecution id = none →
    e'.parentExecutionId = none ∧ e'.status ≠ .handedOff

namespace KeepsLineage

variable {db db' db'' : Db}

theorem of_eq (hexecutions : db'.executions = db.executions)
    (hhandoffs : db'.handoffs = db.handoffs) :
    KeepsLineage db db' := by
  have hget : ∀ id, db'.getExecution id = db.getExecution id := fun id => by
    rw [Db.getExecution, Db.getExecution, hexecutions]
  refine ⟨hhandoffs, fun id e he => ⟨e, (hget id).trans he, .refl e⟩, fun id e' he' hnone => ?_⟩
  rw [hget, hnone] at he'
  cases he'

theorem trans (h : KeepsLineage db db') (h' : KeepsLineage db' db'') : KeepsLineage db db'' := by
  refine ⟨h'.handoffs.trans h.handoffs, fun id e he => ?_, fun id e'' he'' hnone => ?_⟩
  · obtain ⟨e', he', hsame⟩ := h.kept id e he
    obtain ⟨e'', he'', hsame'⟩ := h'.kept id e' he'
    exact ⟨e'', he'', hsame.trans hsame'⟩
  · cases he' : db'.getExecution id with
    | none => exact h'.fresh id e'' he'' he'
    | some e' =>
      obtain ⟨f, hf, hsame⟩ := h'.kept id e' he'
      obtain rfl : e'' = f := Option.some.inj (he''.symm.trans hf)
      obtain ⟨hparent, hstatus⟩ := h.fresh id e' he' hnone
      exact ⟨hsame.parent.trans hparent, fun hhanded => hstatus (hsame.handedOff.mp hhanded)⟩

theorem of_set (row updated : ExecutionRecord) (hrow : db.getExecution updated.id = some row)
    (hfit : Table.Replaces updated row) (hsame : SameLineage row updated)
    (hexecutions : db'.executions = db.executions.set updated)
    (hhandoffs : db'.handoffs = db.handoffs) : KeepsLineage db db' := by
  have hget : ∀ id, db'.getExecution id =
      if id = updated.id then some updated else db.getExecution id := fun id => by
    rw [Db.getExecution, hexecutions]
    exact Table.get_set hrow hfit id
  refine ⟨hhandoffs, fun id e he => ?_, fun id e' he' hnone => ?_⟩
  · by_cases hid : id = updated.id
    · subst hid
      obtain rfl : row = e := Option.some.inj (hrow.symm.trans he)
      exact ⟨updated, by rw [hget, if_pos rfl], hsame⟩
    · exact ⟨e, by rw [hget, if_neg hid, he], .refl e⟩
  · by_cases hid : id = updated.id
    · rw [hid, hrow] at hnone
      cases hnone
    · rw [hget, if_neg hid, hnone] at he'
      cases he'

theorem of_insert {row : ExecutionRecord} {executions : Table ExecutionRecord}
    (hinsert : db.executions.insert row = some executions)
    (hrow : row.parentExecutionId = none ∧ row.status ≠ .handedOff)
    (hexecutions : db'.executions = executions) (hhandoffs : db'.handoffs = db.handoffs) :
    KeepsLineage db db' := by
  have hget : ∀ id, db'.getExecution id =
      if id = row.id then some row else db.getExecution id := fun id => by
    rw [Db.getExecution, hexecutions]
    exact Table.get_insert hinsert id
  have hfree : db.getExecution row.id = none := Table.get_none_of_insert hinsert
  refine ⟨hhandoffs, fun id e he => ⟨e, ?_, .refl e⟩, fun id e' he' _ => ?_⟩
  · have hne : id ≠ row.id := by
      rintro rfl
      rw [hfree] at he
      cases he
    rw [hget, if_neg hne, he]
  · by_cases hid : id = row.id
    · rw [hget, if_pos hid] at he'
      cases he'
      exact hrow
    · rw [hget, if_neg hid] at he'
      simp_all

end KeepsLineage

theorem createExecution_new {db db' : Db} {sessionId : SessionId} {profile : ExecutionProfile}
    {goal : String} {parent : Option ExecutionId} {snapshotId : Option SnapshotId}
    {grantId : Option GrantId} {id : ExecutionId} {createdAt : Instant} {record : ExecutionRecord}
    (h : db.createExecution sessionId profile goal none parent snapshotId grantId id createdAt =
      .ok (record, db')) :
    (∀ p, parent = some p → ∃ row, db.getExecution p = some row) ∧ record.id = id ∧
      record.profile = profile ∧ record.parentExecutionId = parent ∧
      record.status = initialExecutionStatus profile ∧
      ∃ executions, db.executions.insert record = some executions ∧
        db'.executions = executions ∧ db'.handoffs = db.handoffs := by
  simp only [Db.createExecution, Option.bind_none, bind_eq_ok, ensure_eq_ok, require_eq_ok,
    pure_eq_ok, Prod.mk.injEq] at h
  obtain ⟨-, -, root, hroot, executions, hinsert, rfl, rfl⟩ := h
  refine ⟨fun p hp => ?_, rfl, rfl, rfl, rfl, executions, hinsert, rfl, rfl⟩
  subst hp
  simp only [Db.rootExecution, Db.getExecutionRequired, bind_eq_ok, require_eq_ok] at hroot
  obtain ⟨row, hrow, -⟩ := hroot
  exact ⟨row, hrow⟩

theorem initialExecutionStatus_ne_handedOff (profile : ExecutionProfile) :
    initialExecutionStatus profile ≠ .handedOff := by
  cases profile <;> decide

theorem createExecution_keepsLineage {db db' : Db} {sessionId : SessionId}
    {profile : ExecutionProfile} {goal : String} {clientRequestId : Option String}
    {snapshotId : Option SnapshotId} {grantId : Option GrantId} {id : ExecutionId}
    {createdAt : Instant} {record : ExecutionRecord}
    (h : db.createExecution sessionId profile goal clientRequestId none snapshotId grantId id
      createdAt = .ok (record, db')) : KeepsLineage db db' := by
  unfold Db.createExecution at h
  simp only [bind_eq_ok] at h
  obtain ⟨_, -, h⟩ := h
  split at h
  · cases h
    exact .of_eq rfl rfl
  · simp only [bind_eq_ok, require_eq_ok, pure_eq_ok, Prod.mk.injEq] at h
    obtain ⟨root, -, executions, hinsert, -, rfl⟩ := h
    exact .of_insert hinsert ⟨rfl, initialExecutionStatus_ne_handedOff profile⟩ rfl rfl

theorem handedOff_no_edges (profile : ExecutionProfile) :
    executionEdges profile .handedOff = [] := by
  cases profile <;> rfl

theorem transitionExecution_keepsLineage {db db' : Db} {id : ExecutionId}
    {updated : ExecutionRecord} {request : TransitionRequest}
    (htarget : request.targetStatus ≠ .handedOff)
    (h : db.transitionExecution id request = .ok (updated, db')) : KeepsLineage db db' := by
  obtain ⟨row, hrow, -, hedge, hdecl, rfl, rfl⟩ := Db.transitionExecution_eq_ok.mp h
  have hid : row.id = id := Table.key_of_get hrow
  refine .of_set row (row.moved row request ⟨request.targetStatus, hdecl⟩)
    (by rw [Db.moved_id, hid]; exact hrow) Db.moved_replaces
    ⟨rfl, rfl, rfl, ⟨fun hnew => absurd hnew htarget, fun hold => ?_⟩⟩ rfl rfl
  rw [hold, handedOff_no_edges] at hedge
  exact absurd (hedge.resolve_right List.not_mem_nil).symm htarget

theorem appendStep_keepsLineage {db db' : Db} {id : ExecutionId} {kind : StepKind}
    {output : Option PlannerOutcome} {summary : Option String} {stepId : StepId}
    {record : StepRecord} (h : db.appendStep id kind output summary stepId = .ok (record, db')) :
    KeepsLineage db db' := by
  obtain ⟨row, hrow, -, steps, -, rfl⟩ := Db.appendStep_eq_ok.mp h
  obtain rfl : row.id = id := Table.key_of_get hrow
  exact .of_set row { row with stepCount := row.stepCount + 1 } hrow ⟨rfl, Or.inr rfl⟩
    ⟨rfl, rfl, rfl, Iff.rfl⟩ rfl rfl

theorem appendStepFrom_keepsLineage {db db' : Db} {source source' : ExecutionRecord}
    {step : HandoffCompletedStep} (h : db.appendStepFrom source step = .ok (source', db')) :
    source'.id = source.id ∧ KeepsLineage db db' := by
  simp only [Db.appendStepFrom, Db.getExecutionRequired, bind_eq_ok, require_eq_ok, pure_eq_ok,
    Prod.mk.injEq] at h
  obtain ⟨row, hrow, steps, -, rfl, rfl⟩ := h
  have hid : row.id = source.id := Table.key_of_get hrow
  rw [← hid] at hrow
  exact ⟨rfl, .of_set row { row with stepCount := source.stepCount + 1 } hrow
    ⟨rfl, Or.inr rfl⟩ ⟨rfl, rfl, rfl, Iff.rfl⟩ rfl rfl⟩

theorem appendProgress_keepsLineage {db db' : Db} {plan : HandoffPlan} {source : ExecutionRecord}
    (h : appendProgress plan db = .ok (source, db')) :
    source.id = plan.source.id ∧ KeepsLineage db db' := by
  simp only [appendProgress, bind_eq_ok, pure_eq_ok, Prod.mk.injEq] at h
  obtain ⟨⟨source', db1⟩, hsteps, db2, hobservations, rfl, rfl⟩ := h
  have hsteps' := foldlM_invariant
    (I := fun state : ExecutionRecord × Db => state.1.id = plan.source.id ∧ KeepsLineage db state.2)
    (fun state step state' _ hstate hstep => by
      obtain ⟨hid, hkeeps⟩ := appendStepFrom_keepsLineage hstep
      exact ⟨hid.trans hstate.1, hstate.2.trans hkeeps⟩)
    ⟨rfl, .of_eq rfl rfl⟩ hsteps
  refine ⟨hsteps'.1, foldlM_invariant (I := KeepsLineage db)
    (fun b o b' _ hb hround => ?_) hsteps'.2 hobservations⟩
  obtain ⟨⟨record, db⟩, happend, rfl⟩ := map_eq_ok.mp hround
  obtain ⟨-, -, observations, -, rfl⟩ := Db.appendObservation_eq_ok.mp happend
  exact hb.trans (.of_eq rfl rfl)

theorem freezeSnapshot_frame {db db' : Db} {plan : HandoffPlan}
    (h : freezeSnapshot plan db = .ok db') :
    db'.executions = db.executions ∧ db'.handoffs = db.handoffs := by
  unfold freezeSnapshot at h
  split_ifs at h
  · cases h
    exact ⟨rfl, rfl⟩
  · simp only [bind_eq_ok, require_eq_ok, pure_eq_ok] at h
    obtain ⟨snapshots, -, rfl⟩ := h
    exact ⟨rfl, rfl⟩

theorem resolveGrant_frame {db db' : Db} {plan : HandoffPlan} {id : GrantId}
    {grantId : Option GrantId} (h : resolveGrant plan id db = .ok (grantId, db')) :
    db'.executions = db.executions ∧ db'.handoffs = db.handoffs := by
  unfold resolveGrant at h
  split at h
  · cases h
    exact ⟨rfl, rfl⟩
  · cases h
    exact ⟨rfl, rfl⟩
  · simp only [Db.createGrant, bind_eq_ok, require_eq_ok, pure_eq_ok, Prod.mk.injEq] at h
    obtain ⟨⟨record, db1⟩, ⟨grants, -, -, rfl⟩, -, rfl⟩ := h
    exact ⟨rfl, rfl⟩

/-- The handoff of a source: one it has, to the same target, or a new one. -/
theorem createHandoff_cases {db db' : Db} {envelope : HandoffEnvelope} {record : HandoffRecord}
    (h : db.createHandoff envelope = .ok (record, db')) :
    (∃ existing ∈ db.handoffs.rows, existing.targetExecutionId = envelope.targetExecutionId) ∨
    (record.id = envelope.handoffId ∧ record.sourceExecutionId = envelope.parentExecutionId ∧
      record.targetExecutionId = envelope.targetExecutionId ∧
      record.snapshotId = envelope.contextSnapshotId ∧ record.grantId = envelope.grantId ∧
      ∃ handoffs, db.handoffs.insert record = some handoffs ∧ db' = { db with handoffs }) := by
  unfold Db.createHandoff at h
  split at h
  · rename_i existing hexisting
    simp only [bind_eq_ok, ensure_eq_ok, pure_eq_ok] at h
    obtain ⟨-, htarget, -⟩ := h
    exact Or.inl ⟨existing, (Table.getUnique_eq_some.mp hexisting).1, htarget⟩
  · simp only [bind_eq_ok, ensure_eq_ok, require_eq_ok, pure_eq_ok, Prod.mk.injEq] at h
    obtain ⟨-, -, handoffs, hinsert, rfl, rfl⟩ := h
    exact Or.inr ⟨rfl, rfl, rfl, rfl, rfl, handoffs, hinsert, rfl⟩

section Kept

variable {db db' : Db}

theorem KeepsLineage.origin (hk : KeepsLineage db db') {id : ExecutionId} {e' : ExecutionRecord}
    (he' : db'.getExecution id = some e') :
    (∃ e, db.getExecution id = some e ∧ SameLineage e e') ∨
      db.getExecution id = none ∧ e'.parentExecutionId = none ∧ e'.status ≠ .handedOff := by
  cases he : db.getExecution id with
  | none => exact Or.inr ⟨rfl, hk.fresh id e' he' he⟩
  | some e =>
    obtain ⟨f, hf, hsame⟩ := hk.kept id e he
    obtain rfl : e' = f := Option.some.inj (he'.symm.trans hf)
    exact Or.inl ⟨e, rfl, hsame⟩

theorem HandedOffOnce.keeps (h : HandedOffOnce db) (hk : KeepsLineage db db') :
    HandedOffOnce db' := by
  refine ⟨fun r hr => ?_, fun r hr => ?_, fun id e' he' hstatus => ?_, fun id e' he' p hp => ?_⟩
  · rw [hk.handoffs] at hr
    obtain ⟨s, hs, hstatus⟩ := h.source r hr
    obtain ⟨s', hs', hsame⟩ := hk.kept _ s hs
    exact ⟨s', hs', hsame.handedOff.mpr hstatus⟩
  · rw [hk.handoffs] at hr
    obtain ⟨t, ht, hprofile, hparent⟩ := h.target r hr
    obtain ⟨t', ht', hsame⟩ := hk.kept _ t ht
    exact ⟨t', ht', hsame.profile.trans hprofile, hsame.parent.trans hparent⟩
  · rw [hk.handoffs]
    rcases hk.origin he' with ⟨e, he, hsame⟩ | ⟨-, -, hnot⟩
    · exact h.recorded id e he (hsame.handedOff.mp hstatus)
    · exact absurd hstatus hnot
  · rw [hk.handoffs]
    rcases hk.origin he' with ⟨e, he, hsame⟩ | ⟨-, hnone, -⟩
    · exact h.children id e he p (hsame.parent.symm.trans hp)
    · rw [hp] at hnone
      cases hnone

theorem HandoffRecord.Answers.keeps {r : HandoffRecord} {commit : HandoffCommit}
    (h : r.Answers db commit) (hk : KeepsLineage db db') : r.Answers db' commit := by
  obtain ⟨t, ht, rfl⟩ := h
  obtain ⟨t', ht', hsame⟩ := hk.kept _ t ht
  exact ⟨t', ht', by rw [hsame.root]⟩

theorem HandoffRecord.Answers.unique {r : HandoffRecord} {commit commit' : HandoffCommit}
    (h : r.Answers db commit) (h' : r.Answers db commit') : commit = commit' := by
  obtain ⟨t, ht, rfl⟩ := h
  obtain ⟨t', ht', rfl⟩ := h'
  obtain rfl : t = t' := Option.some.inj (ht.symm.trans ht')
  rfl

/-- What the transaction of a handoff does to executions: it creates the target as a child,
moves the source, and keeps the lineage of every other one. -/
structure HandsOff (db db' : Db) (source target : ExecutionId) : Prop where
  was : (db.getExecution source).isSome = true
  free : db.getExecution target = none
  created : ∃ t, db'.getExecution target = some t ∧ t.profile = .actionRun ∧
    t.parentExecutionId = some source ∧ t.status ≠ .handedOff
  moved : ∀ e, db'.getExecution source = some e → e.status = .handedOff
  lineage : ∀ id e, db.getExecution id = some e → ∃ e', db'.getExecution id = some e' ∧
    e'.profile = e.profile ∧ e'.parentExecutionId = e.parentExecutionId ∧
    e'.rootExecutionId = e.rootExecutionId ∧
    (id ≠ source → (e'.status = .handedOff ↔ e.status = .handedOff))
  fresh : ∀ id, id ≠ target → ∀ e', db'.getExecution id = some e' → db.getExecution id = none →
    e'.parentExecutionId = none ∧ e'.status ≠ .handedOff

theorem HandedOffOnce.handsOff {source target : ExecutionId} {record : HandoffRecord}
    (h : HandedOffOnce db) (hh : HandsOff db db' source target)
    (hinsert : db.handoffs.insert record = some db'.handoffs)
    (hsource : record.sourceExecutionId = source) (htarget : record.targetExecutionId = target) :
    HandedOffOnce db' := by
  have hnew : record ∈ db'.handoffs.rows := (Table.mem_insert hinsert).mpr (Or.inr rfl)
  have hold : ∀ r ∈ db.handoffs.rows, r ∈ db'.handoffs.rows := fun r hr =>
    (Table.mem_insert hinsert).mpr (Or.inl hr)
  refine ⟨fun r hr => ?_, fun r hr => ?_, fun id e' he' hstatus => ?_, fun id e' he' p hp => ?_⟩
  · have hexists : ∃ s, db.getExecution r.sourceExecutionId = some s ∧
        (r.sourceExecutionId ≠ source → s.status = .handedOff) := by
      rcases (Table.mem_insert hinsert).mp hr with hr | rfl
      · obtain ⟨s, hs, hstatus⟩ := h.source r hr
        exact ⟨s, hs, fun _ => hstatus⟩
      · obtain ⟨s, hs⟩ := Option.isSome_iff_exists.mp hh.was
        exact ⟨s, by rw [hsource, hs], fun hne => absurd hsource hne⟩
    obtain ⟨s, hs, hstatus⟩ := hexists
    obtain ⟨s', hs', -, -, -, hsame⟩ := hh.lineage _ s hs
    refine ⟨s', hs', ?_⟩
    by_cases hid : r.sourceExecutionId = source
    · exact hh.moved s' (by rw [← hid, hs'])
    · exact (hsame hid).mpr (hstatus hid)
  · rcases (Table.mem_insert hinsert).mp hr with hr | rfl
    · obtain ⟨t, ht, hprofile, hparent⟩ := h.target r hr
      obtain ⟨t', ht', hprofile', hparent', -, -⟩ := hh.lineage _ t ht
      exact ⟨t', ht', hprofile'.trans hprofile, hparent'.trans hparent⟩
    · obtain ⟨t, ht, hprofile, hparent, -⟩ := hh.created
      exact ⟨t, by rw [htarget, ht], hprofile, by rw [hparent, hsource]⟩
  · by_cases hid : id = source
    · exact ⟨record, hnew, hsource.trans hid.symm⟩
    · cases he : db.getExecution id with
      | some e =>
        obtain ⟨f, hf, -, -, -, hsame⟩ := hh.lineage id e he
        obtain rfl : e' = f := Option.some.inj (he'.symm.trans hf)
        obtain ⟨r, hr, hid'⟩ := h.recorded id e he ((hsame hid).mp hstatus)
        exact ⟨r, hold r hr, hid'⟩
      | none =>
        by_cases hid' : id = target
        · obtain ⟨t, ht, -, -, hnot⟩ := hh.created
          rw [hid', ht] at he'
          cases he'
          exact absurd hstatus hnot
        · exact absurd hstatus (hh.fresh id hid' e' he' he).2
  · by_cases hid : id = target
    · obtain ⟨t, ht, -, hparent, -⟩ := hh.created
      rw [hid, ht] at he'
      cases he'
      rw [hparent] at hp
      cases hp
      exact ⟨record, hnew, hsource, htarget.trans hid.symm⟩
    · cases he : db.getExecution id with
      | some e =>
        obtain ⟨f, hf, -, hparent, -, -⟩ := hh.lineage id e he
        obtain rfl : e' = f := Option.some.inj (he'.symm.trans hf)
        obtain ⟨r, hr, hends⟩ := h.children id e he p (hparent.symm.trans hp)
        exact ⟨r, hold r hr, hends⟩
      | none =>
        have hnone := (hh.fresh id hid e' he' he).1
        rw [hp] at hnone
        cases hnone

theorem HandoffRecord.Answers.handsOff {source target : ExecutionId} {r : HandoffRecord}
    {commit : HandoffCommit} (h : r.Answers db commit) (hh : HandsOff db db' source target) :
    r.Answers db' commit := by
  obtain ⟨t, ht, rfl⟩ := h
  obtain ⟨t', ht', -, -, hroot, -⟩ := hh.lineage _ t ht
  exact ⟨t', ht', by rw [hroot]⟩

end Kept

/-- The new target, then steps that keep the lineage, then the move of the source. -/
theorem handsOff_of_stages {db db3 db4 db' : Db} {source : ExecutionId}
    {target row moved : ExecutionRecord} (hwas : (db.getExecution source).isSome = true)
    (hfree : db.getExecution target.id = none)
    (hcreated : ∀ k, db3.getExecution k = if k = target.id then some target else db.getExecution k)
    (htarget : target.profile = .actionRun ∧ target.parentExecutionId = some source ∧
      target.status ≠ .handedOff)
    (hkeeps : KeepsLineage db3 db4) (hrow : db4.getExecution source = some row)
    (hmoved : moved.profile = row.profile ∧ moved.parentExecutionId = row.parentExecutionId ∧
      moved.rootExecutionId = row.rootExecutionId ∧ moved.status = .handedOff)
    (hget : ∀ k, db'.getExecution k = if k = source then some moved else db4.getExecution k) :
    HandsOff db db' source target.id ∧ ∃ t, db'.getExecution target.id = some t ∧
      t.rootExecutionId = target.rootExecutionId := by
  have hne : target.id ≠ source := by
    intro heq
    rw [← heq, hfree] at hwas
    cases hwas
  obtain ⟨t, ht, hsame⟩ := hkeeps.kept target.id target (by rw [hcreated, if_pos rfl])
  have ht' : db'.getExecution target.id = some t := by rw [hget, if_neg hne, ht]
  refine ⟨⟨hwas, hfree, ⟨t, ht', hsame.profile.trans htarget.1, hsame.parent.trans htarget.2.1,
    fun hstatus => htarget.2.2 (hsame.handedOff.mp hstatus)⟩, fun e he => ?_, fun id e he => ?_,
    fun id hid e' he' hnone => ?_⟩, t, ht', hsame.root⟩
  · rw [hget, if_pos rfl] at he
    cases he
    exact hmoved.2.2.2
  · have hid : id ≠ target.id := by
      rintro rfl
      rw [hfree] at he
      cases he
    obtain ⟨e4, he4, hsame⟩ := hkeeps.kept id e (by rw [hcreated, if_neg hid, he])
    by_cases hsource : id = source
    · rw [hsource, hrow] at he4
      cases he4
      exact ⟨moved, by rw [hget, if_pos hsource], hmoved.1.trans hsame.profile,
        hmoved.2.1.trans hsame.parent, hmoved.2.2.1.trans hsame.root,
        fun hnot => absurd hsource hnot⟩
    · exact ⟨e4, by rw [hget, if_neg hsource, he4], hsame.profile, hsame.parent, hsame.root,
        fun _ => hsame.handedOff⟩
  · have hsource : id ≠ source := by
      rintro rfl
      rw [hnone] at hwas
      cases hwas
    rw [hget, if_neg hsource] at he'
    exact hkeeps.fresh id e' he' (by rw [hcreated, if_neg hid, hnone])

/-- The transaction of a handoff creates it with its answer, where the invariant holds. -/
theorem commitHandoff_handsOff {db db' : Db} {plan : HandoffPlan} {ids : HandoffIds}
    {now : Instant} {commit : HandoffCommit} (hinv : HandedOffOnce db)
    (h : commitHandoff plan ids now db = .ok (commit, db')) :
    ∃ record, HandsOff db db' plan.source.id ids.target ∧
      db.handoffs.insert record = some db'.handoffs ∧
      record.sourceExecutionId = plan.source.id ∧ record.targetExecutionId = ids.target ∧
      record.Answers db' commit := by
  simp only [commitHandoff, bind_eq_ok, pure_eq_ok, Prod.mk.injEq, Prod.exists] at h
  obtain ⟨db1, hfreeze, grantId, db2, hgrant, target, db3, hcreate, source, db4, hprogress,
    -, -, handoff, db5, hhandoff, moved, db6, htransition, rfl, hend⟩ := h
  obtain ⟨hexecutions1, hhandoffs1⟩ := freezeSnapshot_frame hfreeze
  obtain ⟨hexecutions2, hhandoffs2⟩ := resolveGrant_frame hgrant
  obtain ⟨hparent, hid, hprofile, htparent, htstatus, executions, hinsert, hexecutions3,
    hhandoffs3⟩ := createExecution_new hcreate
  obtain ⟨hsource, hkeeps⟩ := appendProgress_keepsLineage hprogress
  have hget2 : ∀ k, db2.getExecution k = db.getExecution k := fun k => by
    rw [Db.getExecution, Db.getExecution, hexecutions2, hexecutions1]
  have hcreated : ∀ k, db3.getExecution k =
      if k = target.id then some target else db.getExecution k := fun k => by
    rw [← hget2, Db.getExecution, hexecutions3]
    exact Table.get_insert hinsert k
  have hfree : db.getExecution target.id = none := by
    rw [← hget2]
    exact Table.get_none_of_insert hinsert
  have hwas : (db.getExecution plan.source.id).isSome = true := by
    obtain ⟨s, hs⟩ := hparent _ rfl
    rw [← hget2, hs]
    rfl
  have hhandoffs4 : db4.handoffs = db.handoffs := by
    rw [hkeeps.handoffs, hhandoffs3, hhandoffs2, hhandoffs1]
  rcases createHandoff_cases hhandoff with ⟨existing, hmem, htarget⟩ |
    ⟨hhandoffId, hsource', htarget', hsnapshot, hgrantId, handoffs, hins, rfl⟩
  · -- A handoff with the new target has been there before the target, which is impossible.
    rw [hhandoffs4] at hmem
    obtain ⟨t, ht, -⟩ := hinv.target existing hmem
    rw [htarget, show (handoffEnvelope plan ids grantId).targetExecutionId = target.id from
      hid.symm] at ht
    cases hfree.symm.trans ht
  · obtain ⟨⟨row, hrow, hsame⟩, hstatus, hhandoffs6, hget⟩ :=
      Db.getExecution_transitionFrom htransition
    rw [hsource] at hrow hget
    have hget' : ∀ k, db'.getExecution k =
        if k = plan.source.id then some moved else db4.getExecution k := fun k => by
      rw [← hend]
      exact hget k
    obtain ⟨hoff, t, ht, hroot⟩ := handsOff_of_stages hwas hfree hcreated
      ⟨hprofile, htparent, by rw [htstatus]; decide⟩ hkeeps hrow
      ⟨hsame.1, hsame.2.1, hsame.2.2, hstatus⟩ hget'
    refine ⟨handoff, hid ▸ hoff, ?_, hsource', htarget', t, ?_, ?_⟩
    · rw [← hend, ← hhandoffs4, hins, hhandoffs6]
    · rw [htarget', ← ht, hid]
      rfl
    · rw [hhandoffId, hsource', htarget', hsnapshot, hgrantId, hroot, hid]
      rfl

/-- The answer is that of the handoff of the source. -/
def Answered (db : Db) (source : ExecutionId) (commit : HandoffCommit) : Prop :=
  ∃ r ∈ db.handoffs.rows, r.sourceExecutionId = source ∧ r.Answers db commit

def HandoffsGrow (db db' : Db) : Prop := ∀ r ∈ db.handoffs.rows, r ∈ db'.handoffs.rows

/-- What the reads of a request return: the answer of its source, or a plan for it. -/
def ReadsFor (source : ExecutionId) (result : Except Fault (HandoffCommit ⊕ HandoffPlan))
    (db : Db) : Prop :=
  match result with
  | .ok (.inl commit) => Answered db source commit
  | .ok (.inr plan) => plan.source.id = source
  | .error _ => True

theorem andThen_ensures {α : Type} {R : Db → Db → Prop} {source : ExecutionId} {x : Except Fault α}
    {next : α → Reader Db (Except Fault (HandoffCommit ⊕ HandoffPlan))} {db : Db}
    (h : ∀ a, x = .ok a → (next a).Ensures R (ReadsFor source) db) :
    (andThen x next).Ensures R (ReadsFor source) db := by
  cases x with
  | ok a => exact h a rfl
  | error e => trivial

theorem replayHandoff_answered {db : Db} {source : ExecutionId} {existing : HandoffRecord}
    {commit : HandoffCommit} (hmem : existing ∈ db.handoffs.rows)
    (hsource : existing.sourceExecutionId = source)
    (h : replayHandoff db source existing = .ok commit) : Answered db source commit := by
  simp only [replayHandoff, Db.getExecutionRequired, bind_eq_ok, require_eq_ok, ensure_eq_ok,
    pure_eq_ok] at h
  obtain ⟨target, htarget, -, -, rfl⟩ := h
  have hid : target.id = existing.targetExecutionId := Table.key_of_get htarget
  exact ⟨existing, hmem, hsource, target, htarget, by rw [hid, hsource]⟩

theorem readHandoff_ensures (request : HandoffRequest) (db : Db) :
    (readHandoff request).Ensures HandoffsGrow (ReadsFor request.sourceExecutionId) db := by
  refine andThen_ensures fun goal _ => ?_
  refine Reader.ensures_bind (P := fun found db => ∀ r, found = some r →
    r ∈ db.handoffs.rows ∧ r.sourceExecutionId = request.sourceExecutionId)
    (Reader.ensures_select fun db _ r hr => ?_) fun found db hfound => ?_
  · obtain ⟨hmem, hsource⟩ := Table.getUnique_eq_some.mp hr
    exact ⟨hmem, Option.some.inj hsource⟩
  · cases found with
    | some existing =>
      refine Reader.ensures_select fun db' hgrow => ?_
      obtain ⟨hmem, hsource⟩ := hfound existing rfl
      cases hreplay : replayHandoff db' request.sourceExecutionId existing with
      | error e => trivial
      | ok commit => exact replayHandoff_answered (hgrow existing hmem) hsource hreplay
    | none =>
      refine Reader.ensures_bind (P := fun source _ => ∀ s, source = .ok s →
        s.id = request.sourceExecutionId) (Reader.ensures_select fun db _ s hs => ?_)
        fun source db hsource => ?_
      · simp only [checkSource, Db.getExecutionRequired, bind_eq_ok, require_eq_ok, ensure_eq_ok,
          pure_eq_ok] at hs
        obtain ⟨row, hrow, -, -, -, -, -, -, -, -, rfl⟩ := hs
        exact Table.key_of_get hrow
      · refine andThen_ensures fun s hs => ?_
        refine Reader.ensures_bind (Reader.ensures_true _ db) fun stored db _ => ?_
        refine andThen_ensures fun snapshotStored _ => ?_
        refine Reader.ensures_bind (Reader.ensures_true _ db) fun granted db _ => ?_
        exact andThen_ensures fun _ _ => hsource s hs

/-- What holds of a request, by what it is at. -/
def HandoffPhase.Sound (db : Db) (source : ExecutionId) : HandoffPhase → Prop
  | .reading rest => rest.Ensures HandoffsGrow (ReadsFor source) db
  | .writing plan => plan.source.id = source
  | .enqueueing commit | .returned commit => Answered db source commit
  | .raised _ => True

def KeepsAnswers (db db' : Db) : Prop :=
  HandoffsGrow db db' ∧ ∀ source commit, Answered db source commit → Answered db' source commit

theorem KeepsAnswers.refl (db : Db) : KeepsAnswers db db := ⟨fun _ h => h, fun _ _ h => h⟩

theorem KeepsLineage.keepsAnswers {db db' : Db} (h : KeepsLineage db db') :
    KeepsAnswers db db' := by
  refine ⟨fun r hr => by rwa [h.handoffs], fun source commit ⟨r, hr, hsource, hanswers⟩ => ?_⟩
  exact ⟨r, by rwa [h.handoffs], hsource, hanswers.keeps h⟩

theorem HandsOff.keepsAnswers {db db' : Db} {source target : ExecutionId} {record : HandoffRecord}
    (h : HandsOff db db' source target) (hinsert : db.handoffs.insert record = some db'.handoffs) :
    KeepsAnswers db db' := by
  have hgrow : HandoffsGrow db db' := fun r hr => (Table.mem_insert hinsert).mpr (Or.inl hr)
  exact ⟨hgrow, fun source commit ⟨r, hr, hsource, hanswers⟩ =>
    ⟨r, hgrow r hr, hsource, hanswers.handsOff h⟩⟩

theorem HandoffPhase.Sound.keeps {db db' : Db} {source : ExecutionId} {phase : HandoffPhase}
    (h : phase.Sound db source) (hk : KeepsAnswers db db') : phase.Sound db' source := by
  cases phase with
  | reading rest =>
    refine Reader.Ensures.of_rely h hk.1 (fun hab hbc r hr => hbc r (hab r hr))
      fun result hres => ?_
    match result with
    | .ok (.inl commit) => exact hk.2 source commit hres
    | .ok (.inr plan) => exact hres
    | .error e => trivial
  | writing plan => exact h
  | enqueueing commit => exact hk.2 source commit h
  | returned commit => exact hk.2 source commit h
  | raised e => trivial

theorem HandoffPhase.Sound.read {db : Db} {source : ExecutionId} {phase phase' : HandoffPhase}
    (h : phase.Sound db source) (hread : phase.read db = some phase') : phase'.Sound db source := by
  unfold HandoffPhase.read at hread
  split at hread
  · cases hread
    exact h db fun r hr => hr
  · cases hread
    exact h
  · cases hread
    exact h
  · cases hread
    trivial
  · cases hread

namespace HandoffWorld

/-- What holds of the database and of every request. -/
structure Sound (w : HandoffWorld) : Prop where
  db : HandedOffOnce w.db
  calls : ∀ call ∈ w.calls, call.phase.Sound w.db call.request.sourceExecutionId

variable {w w' : HandoffWorld} {a : HandoffAction}

theorem Sound.setPhase (h : w.Sound) {i : ℕ} {call : HandoffCall} {phase : HandoffPhase}
    (hphase : phase.Sound w.db call.request.sourceExecutionId) :
    (w.setPhase i call phase).Sound := by
  refine ⟨h.db, fun c hc => ?_⟩
  rcases List.mem_or_eq_of_mem_set hc with hc | rfl
  · exact h.calls c hc
  · exact hphase

theorem Sound.keeps (h : w.Sound) {db : Db} (hk : KeepsLineage w.db db) :
    Sound { w with db } :=
  ⟨h.db.keeps hk, fun call hc => (h.calls call hc).keeps hk.keepsAnswers⟩

/-- What a step does, by what it is. -/
inductive Stepped (w : HandoffWorld) : HandoffAction → HandoffWorld → Prop
  | requested (request : HandoffRequest) :
      Stepped w (.request request)
        { w with calls := w.calls ++ [{ request, phase := .reading (readHandoff request) }] }
  | moved {a : HandoffAction} (i : ℕ) (call : HandoffCall) (phase : HandoffPhase)
      (hcall : w.calls[i]? = some call)
      (hphase : call.phase.read w.db = some phase ∨ (∃ e, phase = .raised e) ∨
        ∃ commit, call.phase = .enqueueing commit ∧ phase = .returned commit) :
      Stepped w a (w.setPhase i call phase)
  | written (i : ℕ) (ids : HandoffIds) (now : Instant) (call : HandoffCall) (plan : HandoffPlan)
      (commit : HandoffCommit) (db : Db) (hcall : w.calls[i]? = some call)
      (hphase : call.phase = .writing plan)
      (hcommit : commitHandoff plan ids now w.db = .ok (commit, db)) :
      Stepped w (.write i ids now) ({ w with db }.setPhase i call (.enqueueing commit))
  | crashed : Stepped w .crash { w with calls := w.calls.filter fun call => call.phase.Ended }
  | others {a : HandoffAction} (db : Db) (hkeeps : KeepsLineage w.db db)
      (hown : ¬ a.OfHandoff) : Stepped w a { w with db }

theorem stepped_of_next (h : w.next a = some w') : w.Stepped a w' := by
  cases a with
  | request request =>
    cases h
    exact .requested request
  | read i =>
    simp only [next, Option.bind_eq_bind, Option.bind_eq_some_iff, Option.pure_def,
      Option.some.injEq] at h
    obtain ⟨call, hcall, phase, hphase, rfl⟩ := h
    exact .moved i call phase hcall (Or.inl hphase)
  | write i ids now =>
    simp only [next, Option.bind_eq_bind, Option.bind_eq_some_iff] at h
    obtain ⟨call, hcall, h⟩ := h
    split at h
    · rename_i plan hphase
      split at h
      · rename_i commit db hcommit
        cases h
        exact .written i ids now call plan commit db hcall hphase hcommit
      · cases h
        exact .moved i call _ hcall (Or.inr (Or.inl ⟨_, rfl⟩))
    · cases h
  | enqueued i =>
    simp only [next, Option.bind_eq_bind, Option.bind_eq_some_iff] at h
    obtain ⟨call, hcall, h⟩ := h
    split at h
    · rename_i commit hphase
      cases h
      exact .moved i call _ hcall (Or.inr (Or.inr ⟨commit, hphase, rfl⟩))
    · cases h
  | raise i e =>
    simp only [next, Option.bind_eq_bind, Option.bind_eq_some_iff] at h
    obtain ⟨call, hcall, h⟩ := h
    split_ifs at h
    cases h
    exact .moved i call _ hcall (Or.inr (Or.inl ⟨e, rfl⟩))
  | crash =>
    cases h
    exact .crashed
  | create =>
    simp only [next] at h
    split at h
    · rename_i record db hcreate
      cases h
      exact .others db (createExecution_keepsLineage hcreate) id
    · cases h
      exact .others w.db (.of_eq rfl rfl) id
  | transition k request =>
    simp only [next] at h
    split_ifs at h with htarget
    split at h
    · rename_i record db htransition
      cases h
      exact .others db (transitionExecution_keepsLineage htarget htransition) id
    · cases h
      exact .others w.db (.of_eq rfl rfl) id
  | appendStep =>
    simp only [next] at h
    split at h
    · rename_i record db happend
      cases h
      exact .others db (appendStep_keepsLineage happend) id
    · cases h
      exact .others w.db (.of_eq rfl rfl) id
  | other db =>
    cases h
    exact .others _ (.of_eq rfl rfl) id

theorem Sound.step (h : w.Sound) (hstep : w.Stepped a w') : w'.Sound := by
  cases hstep with
  | requested request =>
    refine ⟨h.db, fun call hc => ?_⟩
    rcases List.mem_append.mp hc with hc | hc
    · exact h.calls call hc
    · rw [List.mem_singleton.mp hc]
      exact readHandoff_ensures request w.db
  | moved i call phase hcall hphase =>
    refine h.setPhase ?_
    have hsound := h.calls call (List.mem_of_getElem? hcall)
    rcases hphase with hread | ⟨e, rfl⟩ | ⟨commit, hnow, rfl⟩
    · exact hsound.read hread
    · trivial
    · rw [hnow] at hsound
      exact hsound
  | written i ids now call plan commit db hcall hphase hcommit =>
    obtain ⟨record, hoff, hinsert, hsource, htarget, hanswers⟩ :=
      commitHandoff_handsOff h.db hcommit
    have hsound := h.calls call (List.mem_of_getElem? hcall)
    rw [hphase] at hsound
    have hnew : Sound { w with db } :=
      ⟨h.db.handsOff hoff hinsert hsource htarget,
        fun c hc => (h.calls c hc).keeps (hoff.keepsAnswers hinsert)⟩
    refine hnew.setPhase ⟨record, (Table.mem_insert hinsert).mpr (Or.inr rfl), ?_, hanswers⟩
    exact hsource.trans hsound
  | crashed => exact ⟨h.db, fun call hc => h.calls call (List.mem_filter.mp hc).1⟩
  | others db hkeeps => exact h.keeps hkeeps

theorem sound_start : Sound {} := by
  refine ⟨⟨?_, ?_, ?_, ?_⟩, ?_⟩
  · exact fun r hr => absurd hr List.not_mem_nil
  · exact fun r hr => absurd hr List.not_mem_nil
  · exact fun id e he => absurd (Table.mem_of_get he) List.not_mem_nil
  · exact fun id e he => absurd (Table.mem_of_get he) List.not_mem_nil
  · exact fun call hc => absurd hc List.not_mem_nil

theorem run_sound {ls : List HandoffAction} (h : Run Steps {} ls w) : w.Sound :=
  h.invariant (I := Sound) (fun _ _ _ hw hstep => hw.step (stepped_of_next hstep)) sound_start

end HandoffWorld

/-- A step of a request changes the database only where it commits the handoff. -/
theorem HandoffWorld.db_of_handoff {w w' : HandoffWorld} {a : HandoffAction} (hw : w.Sound)
    (h : w.Stepped a w') (hown : a.OfHandoff) :
    w'.db = w.db ∨ ∃ (i : ℕ) (call : HandoffCall) (commit : HandoffCommit),
      w.calls[i]? = some call ∧ ¬ call.phase.Ended ∧
      w'.calls[i]? = some { call with phase := .enqueueing commit } ∧
      Answered w'.db call.request.sourceExecutionId commit := by
  have hw' := hw.step h
  cases h with
  | requested request => exact Or.inl rfl
  | moved i call phase hcall hphase => exact Or.inl rfl
  | crashed => exact Or.inl rfl
  | others db hkeeps hnot => exact absurd hown hnot
  | written i ids now call plan commit db hcall hphase hcommit =>
    obtain ⟨hlt, -⟩ := List.getElem?_eq_some_iff.mp hcall
    have hnow : (setPhase { w with db } i call (.enqueueing commit)).calls[i]? =
        some { call with phase := .enqueueing commit } := by simp [setPhase, hlt]
    exact Or.inr ⟨i, call, commit, hcall, by simp [hphase, HandoffPhase.Ended], hnow,
      hw'.calls _ (List.mem_of_getElem? hnow)⟩

def HandoffPhase.committed : HandoffPhase → Option HandoffCommit
  | .enqueueing commit | .returned commit => some commit
  | _ => none

theorem HandoffPhase.Sound.answered {db : Db} {source : ExecutionId} {phase : HandoffPhase}
    {commit : HandoffCommit} (h : phase.Sound db source) (hcommit : phase.committed = some commit) :
    Answered db source commit := by
  cases phase with
  | enqueueing c =>
    cases hcommit
    exact h
  | returned c =>
    cases hcommit
    exact h
  | _ => cases hcommit

theorem Answered.unique {db : Db} {source : ExecutionId} {commit commit' : HandoffCommit}
    (h : Answered db source commit) (h' : Answered db source commit') : commit = commit' := by
  obtain ⟨r, hr, hsource, hanswers⟩ := h
  obtain ⟨r', hr', hsource', hanswers'⟩ := h'
  obtain rfl : r = r' :=
    Table.eq_of_unique hr hr' rfl (by rw [← hsource] at hsource'; exact congrArg some hsource')
  exact hanswers.unique hanswers'

/-- In every run a source has one handoff and one target at most, every request that commits or is
answered has the answer of that handoff, a source is handed off exactly where its handoff exists,
and a request that fails before its commit leaves the database as it was. -/
theorem handoff_once {ls : List HandoffAction} {w : HandoffWorld}
    (h : Run HandoffWorld.Steps {} ls w) :
    (∀ source, (w.db.handoffs.select fun r => r.sourceExecutionId = source).length ≤ 1 ∧
      (w.db.executions.select fun e =>
        e.profile = .actionRun ∧ e.parentExecutionId = some source).length ≤ 1) ∧
    (∀ call ∈ w.calls, ∀ commit, call.phase.committed = some commit →
      Answered w.db call.request.sourceExecutionId commit ∧
        ∀ call' ∈ w.calls, ∀ commit', call'.phase.committed = some commit' →
          call'.request.sourceExecutionId = call.request.sourceExecutionId → commit' = commit) ∧
    (∀ id e, w.db.getExecution id = some e →
      (e.status = .handedOff ↔ ∃ r ∈ w.db.handoffs.rows, r.sourceExecutionId = id)) ∧
    ∀ a w', w.Steps a w' → a.OfHandoff → w'.db = w.db ∨
      ∃ (i : ℕ) (call : HandoffCall) (commit : HandoffCommit), w.calls[i]? = some call ∧
        ¬ call.phase.Ended ∧ w'.calls[i]? = some { call with phase := .enqueueing commit } ∧
        Answered w'.db call.request.sourceExecutionId commit := by
  have hw := HandoffWorld.run_sound h
  refine ⟨fun source => ⟨?_, ?_⟩, fun call hcall commit hcommit => ⟨?_, ?_⟩, fun id e he => ?_,
    fun a w' hstep hown => HandoffWorld.db_of_handoff hw (HandoffWorld.stepped_of_next hstep) hown⟩
  · refine Table.length_select_le_one fun r hr r' hr' => ?_
    simp only [Table.mem_select, decide_eq_true_eq] at hr hr'
    exact Table.eq_of_unique hr.1 hr'.1 rfl (congrArg some (hr'.2.trans hr.2.symm))
  · refine Table.length_select_le_one fun e he e' he' => ?_
    simp only [Table.mem_select, decide_eq_true_eq] at he he'
    obtain ⟨r, hr, hsource, htarget⟩ := hw.db.children e.id e (Table.mem_iff_get.mp he.1) _ he.2.2
    obtain ⟨r', hr', hsource', htarget'⟩ :=
      hw.db.children e'.id e' (Table.mem_iff_get.mp he'.1) _ he'.2.2
    obtain rfl : r = r' :=
      Table.eq_of_unique hr hr' rfl (congrArg some (hsource'.trans hsource.symm))
    exact Table.eq_of_key he.1 he'.1 (htarget.symm.trans htarget')
  · exact (hw.calls call hcall).answered hcommit
  · intro call' hcall' commit' hcommit' hsame
    have hanswered := (hw.calls call' hcall').answered hcommit'
    rw [hsame] at hanswered
    exact hanswered.unique ((hw.calls call hcall).answered hcommit)
  · constructor
    · exact hw.db.recorded id e he
    · rintro ⟨r, hr, rfl⟩
      obtain ⟨s, hs, hstatus⟩ := hw.db.source r hr
      obtain rfl : e = s := Option.some.inj (he.symm.trans hs)
      exact hstatus

def turnHandoff : HandoffRequest where
  sourceExecutionId := 1
  expectedStateVersion := 3
  snapshot := { id := 1, sessionId := 1, evidenceRefs := [], evidenceMessages := [] }
  handoffGoal := "compare the commitments"
  reason := { text := "the comparison takes several steps", evidenceRefs := [] }

def turnMove (expectedVersion : ℕ) (targetStatus : ExecutionStatus) : HandoffAction :=
  .transition 1 { expectedVersion, targetStatus, changedAt := 1 }

/-- A fast turn as it is created. -/
def createdFastTurn : ExecutionRecord where
  id := 1
  sessionId := 1
  profile := .fastTurn
  rootExecutionId := 1
  goal := stripped "what did we commit to"
  status := .received
  createdAt := 0
  statusDeclared := by decide

def turnReceived : HandoffWorld where
  db := {
    executions := (Table.empty.insert createdFastTurn).getD .empty
    events := [{
      executionId := 1
      stateVersion := 1
      eventType := "execution.created"
      phase := .received
      status := .received }] }

theorem turnReceived_run : Run HandoffWorld.Steps {}
    [.create 1 .fastTurn "what did we commit to" none none none 1 0] turnReceived := by
  refine .single ?_
  have hgoal : stripped "what did we commit to" ≠ "" := stripped_ne_empty (by decide)
  simp only [HandoffWorld.Steps, HandoffWorld.next, Db.createExecution_of_goal hgoal]
  rfl

def turnDeciding : HandoffWorld :=
  (follow HandoffWorld.next [turnMove 1 .contextualizing, turnMove 2 .deciding] turnReceived).get
    (by decide)

theorem turnDeciding_run : Run HandoffWorld.Steps {}
    [.create 1 .fastTurn "what did we commit to" none none none 1 0,
      turnMove 1 .contextualizing, turnMove 2 .deciding] turnDeciding :=
  turnReceived_run.append (run_to_get HandoffWorld.next _ turnReceived (by decide))

/-- The steps of a request up to its transaction. -/
def plannedSteps : List HandoffAction :=
  [.request turnHandoff, .read 0, .read 0, .read 0, .read 0, .read 0]

def turnPlanned : HandoffWorld :=
  (follow HandoffWorld.next plannedSteps turnDeciding).get (by decide)

theorem turnPlanned_write : ∃ w commit,
    HandoffWorld.next turnPlanned (.write 0 ⟨1, 2, 1⟩ 5) = some w ∧
      w.calls = [{ request := turnHandoff, phase := .enqueueing commit }] ∧
      w.db.handoffs.rows.length = 1 := by
  have hgoal : stripped (joinedWords turnHandoff.handoffGoal) ≠ "" :=
    stripped_ne_empty (by decide)
  have hcommit : ∃ plan commit db, turnPlanned.calls = [⟨turnHandoff, .writing plan⟩] ∧
      commitHandoff plan ⟨1, 2, 1⟩ 5 turnPlanned.db = .ok (commit, db) ∧
      db.handoffs.rows.length = 1 := by
    refine ⟨{
      request := turnHandoff
      goal := joinedWords turnHandoff.handoffGoal
      source := (turnDeciding.db.getExecution 1).get (by decide)
      snapshotStored := false }, ?_⟩
    simp only [commitHandoff, Db.createExecution_of_goal hgoal]
    refine ⟨_, _, rfl, rfl, ?_⟩
    rfl
  obtain ⟨plan, commit, db, hcalls, hcommit, hrows⟩ := hcommit
  refine ⟨{ db, calls := [⟨turnHandoff, .enqueueing commit⟩] }, commit, ?_, rfl, hrows⟩
  simp [HandoffWorld.next, hcalls, hcommit, HandoffWorld.setPhase]

/-- The handed off turn has one handoff, and its request the answer of it. -/
theorem turnHandoff_answered : ∃ (w : HandoffWorld) (commit : HandoffCommit),
    w.db.handoffs.rows.length = 1 ∧
    w.calls = [{ request := turnHandoff, phase := .enqueueing commit }] ∧
    Answered w.db 1 commit := by
  obtain ⟨w, commit, hwrite, hcalls, hrows⟩ := turnPlanned_write
  have hrun : Run HandoffWorld.Steps {} _ w :=
    (turnDeciding_run.append (run_to_get HandoffWorld.next plannedSteps _ (by decide))).append
      (.single hwrite)
  have hanswered := (handoff_once hrun).2.1 { request := turnHandoff, phase := .enqueueing commit }
    (by simp [hcalls]) commit rfl
  exact ⟨w, commit, hrows, hcalls, hanswered.1⟩

/-- A request whose enqueueing raises has failed, and has committed its handoff. -/
theorem turnHandoff_raised : ∃ ls w ls' w', Run HandoffWorld.Steps {} ls w ∧
    Run HandoffWorld.Steps w ls' w' ∧ (∀ a ∈ ls', a.OfHandoff) ∧ w.calls = [] ∧
    (∃ call e, w'.calls = [call] ∧ call.phase = .raised e) ∧
    w.db.handoffs.rows.length = 0 ∧ w'.db.handoffs.rows.length = 1 := by
  obtain ⟨w, commit, hwrite, hcalls, hrows⟩ := turnPlanned_write
  have hraise : HandoffWorld.next w
      (.raise 0 (.runtime "Action Run scheduler is not accepting work")) =
      some { w with calls := [⟨turnHandoff,
        .raised (.runtime "Action Run scheduler is not accepting work")⟩] } := by
    simp [HandoffWorld.next, hcalls, HandoffWorld.setPhase, HandoffPhase.Ended]
  refine ⟨_, turnDeciding, _, _, turnDeciding_run,
    (run_to_get HandoffWorld.next plannedSteps _ (by decide)).append
      (.more hwrite (.single hraise)), ?_, rfl, ⟨_, _, rfl, rfl⟩, rfl, hrows⟩
  intro a ha
  simp only [plannedSteps, List.cons_append, List.nil_append, List.mem_cons, List.not_mem_nil,
    or_false] at ha
  rcases ha with rfl | rfl | rfl | rfl | rfl | rfl | rfl | rfl <;> trivial

end Assistant
end Matinier
