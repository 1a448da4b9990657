import Matinier.Assistant.HandoffOnce

/-!
# Writes to executions

Whoever writes to the database: an execution stays the one it is, and what it has ended with stays.
The result of an execution that is handed off names the target of its handoff.
-/

namespace Matinier
namespace Assistant

/-- No edge leaves the status. -/
def ExecutionRecord.Ended (e : ExecutionRecord) : Prop :=
  isTerminalExecutionStatus e.profile e.status = true

instance : DecidablePred ExecutionRecord.Ended := fun _ => inferInstanceAs (Decidable (_ = true))

/-- What no write changes of an execution. -/
structure SameExecution (e e' : ExecutionRecord) : Prop where
  id : e'.id = e.id
  sessionId : e'.sessionId = e.sessionId
  profile : e'.profile = e.profile
  clientRequestId : e'.clientRequestId = e.clientRequestId

/-- What no write changes of an execution that has ended. -/
structure SameOutcome (e e' : ExecutionRecord) : Prop where
  status : e'.status = e.status
  result : e'.result = e.result
  snapshotId : e'.snapshotId = e.snapshotId
  errorCode : e'.errorCode = e.errorCode

def KeepsOutcome (e e' : ExecutionRecord) : Prop :=
  SameExecution e e' ∧ (e.Ended → SameOutcome e e')

theorem KeepsOutcome.refl (e : ExecutionRecord) : KeepsOutcome e e :=
  ⟨⟨rfl, rfl, rfl, rfl⟩, fun _ => ⟨rfl, rfl, rfl, rfl⟩⟩

theorem KeepsOutcome.ended {e e' : ExecutionRecord} (h : KeepsOutcome e e') (he : e.Ended) :
    e'.Ended := by
  unfold ExecutionRecord.Ended
  rw [h.1.profile, (h.2 he).status]
  exact he

theorem KeepsOutcome.trans {e e' e'' : ExecutionRecord} (h : KeepsOutcome e e')
    (h' : KeepsOutcome e' e'') : KeepsOutcome e e'' := by
  refine ⟨⟨h'.1.id.trans h.1.id, h'.1.sessionId.trans h.1.sessionId,
    h'.1.profile.trans h.1.profile, h'.1.clientRequestId.trans h.1.clientRequestId⟩, fun he => ?_⟩
  have hfirst := h.2 he
  have hsecond := h'.2 (h.ended he)
  exact ⟨hsecond.status.trans hfirst.status, hsecond.result.trans hfirst.result,
    hsecond.snapshotId.trans hfirst.snapshotId, hsecond.errorCode.trans hfirst.errorCode⟩

/-- Every execution stays, and so does what it has ended with. -/
def KeepsOutcomes (db db' : Db) : Prop :=
  Table.Evolves KeepsOutcome (fun _ => True) db.executions db'.executions

namespace KeepsOutcomes

variable {db db' db'' : Db}

theorem of_eq (h : db'.executions = db.executions) : KeepsOutcomes db db' := by
  unfold KeepsOutcomes
  rw [h]
  exact .refl KeepsOutcome.refl _

theorem of_set {row : ExecutionRecord} (updated : ExecutionRecord)
    (hrow : db.getExecution updated.id = some row)
    (hfit : Table.Replaces updated row) (hkeeps : KeepsOutcome row updated)
    (hexecutions : db'.executions = db.executions.set updated) : KeepsOutcomes db db' := by
  unfold KeepsOutcomes
  rw [hexecutions]
  exact .of_set KeepsOutcome.refl hrow hfit hkeeps

theorem trans (h : KeepsOutcomes db db') (h' : KeepsOutcomes db' db'') : KeepsOutcomes db db'' :=
  Table.Evolves.trans KeepsOutcome.trans (fun _ _ => trivial) h h'

theorem kept (h : KeepsOutcomes db db') {id : ExecutionId} {e : ExecutionRecord}
    (he : db.getExecution id = some e) :
    ∃ e', db'.getExecution id = some e' ∧ KeepsOutcome e e' := Table.Evolves.kept h id e he

end KeepsOutcomes

variable {db db' : Db} {id : ExecutionId}

theorem createExecution_keepsOutcomes {sessionId : SessionId} {profile : ExecutionProfile}
    {goal : String} {clientRequestId : Option String} {parent : Option ExecutionId}
    {snapshotId : Option SnapshotId} {grantId : Option GrantId} {now : Instant}
    {record : ExecutionRecord}
    (h : db.createExecution sessionId profile goal clientRequestId parent snapshotId
      grantId id now =
      .ok (record, db')) : KeepsOutcomes db db' := by
  unfold Db.createExecution at h
  simp only [bind_eq_ok] at h
  obtain ⟨_, -, h⟩ := h
  split at h
  · cases h
    exact .of_eq rfl
  · simp only [bind_eq_ok, require_eq_ok, pure_eq_ok, Prod.mk.injEq] at h
    obtain ⟨root, -, executions, hinsert, -, rfl⟩ := h
    exact Table.Evolves.of_insert KeepsOutcome.refl hinsert trivial

theorem transitionFrom_keepsOutcomes {record updated : ExecutionRecord}
    {request : TransitionRequest}
    (hopen : ∀ e, db.getExecution record.id = some e → ¬ e.Ended)
    (h : db.transitionExecutionFrom record request = .ok (updated, db')) :
    KeepsOutcomes db db' := by
  obtain ⟨row, hrow, -, -, -, -, -, hdecl, rfl, rfl⟩ := Db.transitionExecutionFrom_eq_ok.mp h
  have hid : row.id = record.id := Table.key_of_get hrow
  have hnot := hopen row hrow
  rw [← hid] at hrow
  exact .of_set (row.moved record request ⟨request.targetStatus, hdecl⟩) hrow Db.moved_replaces
    ⟨⟨rfl, rfl, rfl, rfl⟩, fun he => absurd he hnot⟩ rfl

theorem transition_keepsOutcomes {updated : ExecutionRecord} {request : TransitionRequest}
    (hopen : ∀ e, db.getExecution id = some e → ¬ e.Ended)
    (h : db.transitionExecution id request = .ok (updated, db')) : KeepsOutcomes db db' := by
  unfold Db.transitionExecution Db.getExecutionRequired at h
  simp only [bind_eq_ok, require_eq_ok] at h
  obtain ⟨record, hrecord, h⟩ := h
  have hid : record.id = id := Table.key_of_get hrecord
  rw [← hid] at hopen
  exact transitionFrom_keepsOutcomes hopen h

theorem appendStep_keepsOutcomes {kind : StepKind} {output : Option PlannerOutcome}
    {summary : Option String} {stepId : StepId} {record : StepRecord}
    (h : db.appendStep id kind output summary stepId = .ok (record, db')) :
      KeepsOutcomes db db' := by
  obtain ⟨row, hrow, -, steps, -, rfl⟩ := Db.appendStep_eq_ok.mp h
  obtain rfl : row.id = id := Table.key_of_get hrow
  exact .of_set { row with stepCount := row.stepCount + 1 } hrow ⟨rfl, Or.inr rfl⟩
    ⟨⟨rfl, rfl, rfl, rfl⟩, fun _ => ⟨rfl, rfl, rfl, rfl⟩⟩ rfl

theorem appendStepFrom_keepsOutcomes {source source' : ExecutionRecord}
    {step : HandoffCompletedStep} (h : db.appendStepFrom source step = .ok (source', db')) :
    KeepsOutcomes db db' ∧ source'.id = source.id ∧ source'.result = source.result ∧
      source'.status = source.status := by
  simp only [Db.appendStepFrom, Db.getExecutionRequired, bind_eq_ok, require_eq_ok, pure_eq_ok,
    Prod.mk.injEq] at h
  obtain ⟨row, hrow, steps, -, rfl, rfl⟩ := h
  have hid : row.id = source.id := Table.key_of_get hrow
  rw [← hid] at hrow
  exact ⟨.of_set { row with stepCount := source.stepCount + 1 } hrow ⟨rfl, Or.inr rfl⟩
    ⟨⟨rfl, rfl, rfl, rfl⟩, fun _ => ⟨rfl, rfl, rfl, rfl⟩⟩ rfl, rfl, rfl, rfl⟩

theorem appendProgress_keepsOutcomes {plan : HandoffPlan} {source : ExecutionRecord}
    (h : appendProgress plan db = .ok (source, db')) :
    KeepsOutcomes db db' ∧ source.id = plan.source.id := by
  simp only [appendProgress, bind_eq_ok, pure_eq_ok, Prod.mk.injEq] at h
  obtain ⟨⟨source', db1⟩, hsteps, db2, hobservations, rfl, rfl⟩ := h
  have hsteps' := foldlM_invariant
    (I := fun state : ExecutionRecord × Db => KeepsOutcomes db state.2 ∧
      state.1.id = plan.source.id)
    (fun state step state' _ hstate hstep => by
      obtain ⟨hkeeps, hid, -⟩ := appendStepFrom_keepsOutcomes hstep
      exact ⟨hstate.1.trans hkeeps, hid.trans hstate.2⟩)
    ⟨.of_eq rfl, rfl⟩ hsteps
  refine ⟨foldlM_invariant (I := KeepsOutcomes db) (fun b o b' _ hb hround => ?_) hsteps'.1
    hobservations, hsteps'.2⟩
  obtain ⟨⟨record, db⟩, happend, rfl⟩ := map_eq_ok.mp hround
  obtain ⟨-, -, observations, -, rfl⟩ := Db.appendObservation_eq_ok.mp happend
  exact hb.trans (.of_eq rfl)

/-- The result of a source names the target of its handoff. -/
def Named (db : Db) : Prop :=
  ∀ r ∈ db.handoffs.rows, ∀ e, db.getExecution r.sourceExecutionId = some e →
    e.result.bind ExecutionResult.handoffExecutionId = some r.targetExecutionId

structure Db.Good (db : Db) : Prop where
  once : HandedOffOnce db
  named : Named db

theorem HandedOffOnce.ended (h : HandedOffOnce db) {r : HandoffRecord} (hr : r ∈ db.handoffs.rows)
    {e : ExecutionRecord} (he : db.getExecution r.sourceExecutionId = some e) :
    e.status = .handedOff ∧ e.Ended := by
  obtain ⟨s, hs, hstatus⟩ := h.source r hr
  obtain rfl : e = s := Option.some.inj (he.symm.trans hs)
  refine ⟨hstatus, ?_⟩
  unfold ExecutionRecord.Ended
  rw [hstatus]
  cases e.profile <;> rfl

theorem Named.keeps (h : Named db) (honce : HandedOffOnce db) (hkeeps : KeepsOutcomes db db')
    (hhandoffs : db'.handoffs = db.handoffs) : Named db' := by
  intro r hr e' he'
  rw [hhandoffs] at hr
  obtain ⟨e, he, -⟩ := honce.source r hr
  obtain ⟨f, hf, hsame⟩ := hkeeps.kept he
  obtain rfl : e' = f := Option.some.inj (he'.symm.trans hf)
  rw [(hsame.2 (honce.ended hr he).2).result]
  exact h r hr e he

theorem Db.Good.keeps (h : db.Good) (hlineage : KeepsLineage db db')
    (hkeeps : KeepsOutcomes db db') : db'.Good :=
  ⟨h.once.keeps hlineage, h.named.keeps h.once hkeeps hlineage.handoffs⟩

theorem createHandoff_executions {envelope : HandoffEnvelope} {record : HandoffRecord}
    (h : db.createHandoff envelope = .ok (record, db')) : db'.executions = db.executions := by
  unfold Db.createHandoff at h
  split at h
  · simp only [bind_eq_ok, pure_eq_ok, Prod.mk.injEq] at h
    obtain ⟨-, -, -, rfl⟩ := h
    rfl
  · simp only [bind_eq_ok, pure_eq_ok, Prod.mk.injEq] at h
    obtain ⟨-, -, handoffs, -, -, rfl⟩ := h
    rfl

theorem HandedOffOnce.not_handedOff (honce : HandedOffOnce db) {r : HandoffRecord}
    {handoffs : Table HandoffRecord} (hinsert : db.handoffs.insert r = some handoffs)
    {e : ExecutionRecord} (he : db.getExecution r.sourceExecutionId = some e) :
    e.status ≠ .handedOff := by
  intro hstatus
  obtain ⟨r', hr', hsource⟩ := honce.recorded _ e he hstatus
  have hold : r' ∈ handoffs.rows := (Table.mem_insert hinsert).mpr (Or.inl hr')
  have hnew : r ∈ handoffs.rows := (Table.mem_insert hinsert).mpr (Or.inr rfl)
  obtain rfl : r' = r := Table.eq_of_unique hold hnew rfl (congrArg some hsource.symm)
  have hfree := Table.get_none_of_insert hinsert
  rw [Table.get_of_mem hr'] at hfree
  cases hfree

/-- The transaction of a handoff moves its source, which has not ended, and names the target. -/
theorem commitHandoff_keepsOutcomes {plan : HandoffPlan} {ids : HandoffIds} {now : Instant}
    {commit : HandoffCommit} (honce : HandedOffOnce db)
    (h : commitHandoff plan ids now db = .ok (commit, db')) :
    KeepsOutcomes db db' ∧ ∃ e, db'.getExecution plan.source.id = some e ∧
      e.result.bind ExecutionResult.handoffExecutionId = some ids.target := by
  obtain ⟨r, hoff, hinsert, hsource, -⟩ := commitHandoff_handsOff honce h
  simp only [commitHandoff, bind_eq_ok, pure_eq_ok, Prod.mk.injEq, Prod.exists] at h
  obtain ⟨db1, hfreeze, grantId, db2, hgrant, target, db3, hcreate, source, db4, hprogress,
    -, -, handoff, db5, hhandoff, moved, db6, htransition, -, rfl⟩ := h
  have hexecutions : db2.executions = db.executions :=
    (resolveGrant_frame hgrant).1.trans (freezeSnapshot_frame hfreeze).1
  obtain ⟨hprogressed, hid⟩ := appendProgress_keepsOutcomes hprogress
  have hfour : KeepsOutcomes db db4 :=
    ((KeepsOutcomes.of_eq hexecutions).trans (createExecution_keepsOutcomes hcreate)).trans
      hprogressed
  have hfive : db5.executions = db4.executions := createHandoff_executions hhandoff
  -- The source was not handed off before, and is not until the last step.
  have hopen : ∀ e, db5.getExecution source.id = some e → e.status ≠ .handedOff := by
    intro e he
    obtain ⟨first, hfirst⟩ := Option.isSome_iff_exists.mp hoff.was
    have hnot : first.status ≠ .handedOff := honce.not_handedOff hinsert (by rw [hsource, hfirst])
    obtain ⟨-, -, -, -, -, executions, hcreated, hthree, -⟩ := createExecution_new hcreate
    have hne : plan.source.id ≠ Row.key target := by
      intro heq
      have hfree := Table.get_none_of_insert hcreated
      rw [Db.getExecution, ← hexecutions, heq] at hfirst
      exact absurd (hfree.symm.trans hfirst) (by simp)
    have hcreatedRow : db3.getExecution plan.source.id = some first := by
      rw [Db.getExecution, hthree, Table.get_insert hcreated, if_neg hne, hexecutions]
      exact hfirst
    obtain ⟨row, hrow, hsame⟩ := (appendProgress_keepsLineage hprogress).2.kept _ _ hcreatedRow
    rw [Db.getExecution, hfive, hid] at he
    obtain rfl : e = row := Option.some.inj (he.symm.trans hrow)
    exact fun hstatus => hnot (hsame.handedOff.mp hstatus)
  obtain ⟨row, hrow, -, -, -, -, hedge, hdecl, rfl, -⟩ :=
    Db.transitionExecutionFrom_eq_ok.mp htransition
  have hended : ∀ e, db5.getExecution source.id = some e → ¬ e.Ended := by
    intro e he hended
    obtain rfl : e = row := Option.some.inj (he.symm.trans hrow)
    rcases hedge with hsame | hmem
    · exact hopen e he hsame
    · rw [ExecutionRecord.Ended, isTerminalExecutionStatus, List.isEmpty_iff] at hended
      rw [hended] at hmem
      cases hmem
  have hmoved : KeepsOutcomes db5 db6 := transitionFrom_keepsOutcomes hended htransition
  refine ⟨((hfour.trans (.of_eq hfive)).trans hmoved).trans (.of_eq rfl),
    row.moved source (handoffTransition plan ids now) ⟨.handedOff, hdecl⟩, ?_, rfl⟩
  obtain ⟨-, -, -, hget⟩ := Db.getExecution_transitionFrom htransition
  have hself := hget source.id
  rw [if_pos rfl, hid] at hself
  exact hself

theorem Db.Good.commitHandoff {plan : HandoffPlan} {ids : HandoffIds} {now : Instant}
    {commit : HandoffCommit} (hdb : db.Good)
    (h : commitHandoff plan ids now db = .ok (commit, db')) :
    db'.Good ∧ KeepsOutcomes db db' ∧ KeepsAnswers db db' ∧
      Answered db' plan.source.id commit := by
  obtain ⟨r, hoff, hinsert, hsource, htarget, hanswers⟩ := commitHandoff_handsOff hdb.once h
  obtain ⟨hkeeps, moved, hmoved, hnamed⟩ := commitHandoff_keepsOutcomes hdb.once h
  refine ⟨⟨hdb.once.handsOff hoff hinsert hsource htarget, fun r' hr' e' he' => ?_⟩, hkeeps,
    hoff.keepsAnswers hinsert, r, (Table.mem_insert hinsert).mpr (Or.inr rfl), hsource, hanswers⟩
  rcases (Table.mem_insert hinsert).mp hr' with hr' | rfl
  · obtain ⟨e, he, -⟩ := hdb.once.source r' hr'
    obtain ⟨f, hf, hsame⟩ := hkeeps.kept he
    obtain rfl : e' = f := Option.some.inj (he'.symm.trans hf)
    rw [(hsame.2 (hdb.once.ended hr' he).2).result]
    exact hdb.named r' hr' e he
  · rw [hsource] at he'
    obtain rfl : e' = moved := Option.some.inj (he'.symm.trans hmoved)
    rw [hnamed, htarget]

/-- What anyone writes: executions are created, moved unless they have ended, given steps and
handed off, and other tables are written. -/
inductive Written : Db → Db → Prop
  | create {db db' : Db} {sessionId : SessionId} {profile : ExecutionProfile} {goal : String}
      {clientRequestId : Option String} {snapshotId : Option SnapshotId}
      {grantId : Option GrantId} {id : ExecutionId} {now : Instant} {record : ExecutionRecord}
      (h : db.createExecution sessionId profile goal clientRequestId none snapshotId grantId id
        now = .ok (record, db')) : Written db db'
  | transition {db db' : Db} {id : ExecutionId} {request : TransitionRequest}
      {updated : ExecutionRecord} (hopen : ∀ e, db.getExecution id = some e → ¬ e.Ended)
      (htarget : request.targetStatus ≠ .handedOff)
      (h : db.transitionExecution id request = .ok (updated, db')) : Written db db'
  | appendStep {db db' : Db} {id : ExecutionId} {kind : StepKind}
      {output : Option PlannerOutcome} {summary : Option String} {stepId : StepId}
      {record : StepRecord}
      (h : db.appendStep id kind output summary stepId = .ok (record, db')) : Written db db'
  | handoff {db db' : Db} {plan : HandoffPlan} {ids : HandoffIds} {now : Instant}
      {commit : HandoffCommit} (h : commitHandoff plan ids now db = .ok (commit, db')) :
      Written db db'
  | other {db db' : Db} (hexecutions : db'.executions = db.executions)
      (hhandoffs : db'.handoffs = db.handoffs) : Written db db'

/-- What a write to a good database leaves. -/
structure Db.Follows (db db' : Db) : Prop where
  good : db'.Good
  outcomes : KeepsOutcomes db db'
  answers : KeepsAnswers db db'

theorem Db.Good.refl (h : db.Good) : db.Follows db := ⟨h, .of_eq rfl, .refl db⟩

theorem Db.Follows.trans {db'' : Db} (h : db.Follows db') (h' : db'.Follows db'') :
    db.Follows db'' :=
  ⟨h'.good, h.outcomes.trans h'.outcomes, fun r hr => h'.answers.1 r (h.answers.1 r hr),
    fun source commit hanswered => h'.answers.2 source commit (h.answers.2 source commit hanswered)⟩

theorem Db.Good.follows (h : db.Good) (hlineage : KeepsLineage db db')
    (hkeeps : KeepsOutcomes db db') : db.Follows db' :=
  ⟨h.keeps hlineage hkeeps, hkeeps, hlineage.keepsAnswers⟩

theorem Written.follows (h : Written db db') (hdb : db.Good) : db.Follows db' := by
  cases h with
  | create h => exact hdb.follows (createExecution_keepsLineage h) (createExecution_keepsOutcomes h)
  | transition hopen htarget h =>
    exact hdb.follows (transitionExecution_keepsLineage htarget h)
      (transition_keepsOutcomes hopen h)
  | appendStep h => exact hdb.follows (appendStep_keepsLineage h) (appendStep_keepsOutcomes h)
  | handoff h =>
    obtain ⟨hgood, hkeeps, hanswers, -⟩ := hdb.commitHandoff h
    exact ⟨hgood, hkeeps, hanswers⟩
  | other hexecutions hhandoffs =>
    exact hdb.follows (.of_eq hexecutions hhandoffs) (.of_eq hexecutions)

theorem Db.good_empty : Db.Good {} := by
  refine ⟨⟨?_, ?_, ?_, ?_⟩, ?_⟩
  · exact fun r hr => absurd hr List.not_mem_nil
  · exact fun r hr => absurd hr List.not_mem_nil
  · exact fun id e he => absurd (Table.mem_of_get he) List.not_mem_nil
  · exact fun id e he => absurd (Table.mem_of_get he) List.not_mem_nil
  · exact fun r hr => absurd hr List.not_mem_nil

end Assistant
end Matinier
