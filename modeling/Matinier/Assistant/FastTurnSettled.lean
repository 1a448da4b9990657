import Mathlib.Logic.Relation
import Matinier.Assistant.FastTurn

/-!
# What fast turns leave

A turn that is over has left an execution that has ended, and what it returns is what its row says,
if and only if nothing was raised past the handler that fails executions.
-/

namespace Matinier
namespace Assistant

variable {db db' : Db} {id : ExecutionId} {now : Instant} {budget : FastTurnBudget}
  {request : FastTurnRequest} {w w' : TurnWorld} {label : TurnLabel}

theorem not_ended_of_transition {move : TransitionRequest} {updated e : ExecutionRecord}
    (h : db.transitionExecution id move = .ok (updated, db')) (he : db.getExecution id = some e)
    (hne : e.status ≠ move.targetStatus) : ¬ e.Ended := by
  intro hended
  obtain ⟨row, hrow, -, hedge, -⟩ := Db.transitionExecution_eq_ok.mp h
  obtain rfl : e = row := Option.some.inj (he.symm.trans hrow)
  rw [ExecutionRecord.Ended, isTerminalExecutionStatus, List.isEmpty_iff] at hended
  rw [hended] at hedge
  exact hedge.elim hne List.not_mem_nil

theorem Db.Good.transition {move : TransitionRequest} {updated : ExecutionRecord} (hdb : db.Good)
    (hne : ∀ e, db.getExecution id = some e → ¬ e.Ended) (htarget : move.targetStatus ≠ .handedOff)
    (h : db.transitionExecution id move = .ok (updated, db')) :
    db.Follows db' ∧ updated.id = id ∧ updated.status = move.targetStatus ∧
      db'.getExecution id = some updated := by
  have hfollows := (Written.transition hne htarget h).follows hdb
  have hget := Db.getExecution_transition h id
  rw [if_pos rfl] at hget
  obtain ⟨row, hrow, -, -, _, rfl, -⟩ := Db.transitionExecution_eq_ok.mp h
  exact ⟨hfollows, Table.key_of_get hrow, rfl, hget⟩

theorem Db.Good.moveTurnFrom {source target : ExecutionStatus} {eventType : String}
    {snapshotId : Option SnapshotId} (hdb : db.Good) (hne : source ≠ target)
    (htarget : target ≠ .handedOff)
    (h : moveTurnFrom source target eventType snapshotId id now db = .ok db') :
    db.Follows db' := by
  unfold Assistant.moveTurnFrom Db.getExecutionRequired at h
  simp only [bind_eq_ok, require_eq_ok] at h
  obtain ⟨execution, hexecution, h⟩ := h
  have hid : execution.id = id := Table.key_of_get hexecution
  split_ifs at h with hstatus
  · simp only [bind_eq_ok, pure_eq_ok, Prod.exists] at h
    obtain ⟨updated, db1, htransition, rfl⟩ := h
    rw [hid] at htransition
    refine (hdb.transition (fun e he => ?_) htarget htransition).1
    apply not_ended_of_transition htransition he
    obtain rfl : e = execution := Option.some.inj (he.symm.trans hexecution)
    rw [hstatus]
    exact hne
  · cases h
    exact hdb.refl

theorem Db.Good.freezeContext {snapshot : ContextSnapshot} (hdb : db.Good)
    (h : freezeContext snapshot id now db = .ok db') : db.Follows db' := by
  unfold Assistant.freezeContext at h
  simp only [bind_eq_ok, require_eq_ok] at h
  obtain ⟨snapshots, -, h⟩ := h
  have hwritten : Written db { db with snapshots } := .other rfl rfl
  have hstored := hwritten.follows hdb
  exact hstored.trans (hstored.good.moveTurnFrom (by decide) (by decide) h)

theorem Db.Good.failExecution {errorCode : String} {record : ExecutionRecord} (hdb : db.Good)
    (h : failExecution errorCode id now db = .ok (record, db')) :
    db.Follows db' ∧ db'.getExecution id = some record ∧ record.Ended := by
  unfold Assistant.failExecution Db.getExecutionRequired at h
  simp only [bind_eq_ok, require_eq_ok] at h
  obtain ⟨execution, hexecution, h⟩ := h
  have hid : execution.id = id := Table.key_of_get hexecution
  have hended : ∀ e : ExecutionRecord,
      e.status ∈ [ExecutionStatus.completed, .handedOff, .failed, .cancelled] → e.Ended := by
    intro e hmem
    unfold ExecutionRecord.Ended
    generalize e.status = status at hmem
    cases e.profile <;> revert status <;> decide
  split_ifs at h with hstatus
  · cases h
    exact ⟨hdb.refl, hexecution, hended record hstatus⟩
  · rw [hid] at h
    have hopen : ∀ e, db.getExecution id = some e → ¬ e.Ended := by
      intro e he
      apply not_ended_of_transition h he
      obtain rfl : e = execution := Option.some.inj (he.symm.trans hexecution)
      intro hfailed
      have hfailed : e.status = .failed := hfailed
      rw [hfailed] at hstatus
      exact hstatus (by decide)
    obtain ⟨hfollows, -, hfailed, hget⟩ :=
      hdb.transition hopen (show ExecutionStatus.failed ≠ .handedOff by decide) h
    have hfailed : record.status = .failed := hfailed
    exact ⟨hfollows, hget, hended record (by rw [hfailed]; decide)⟩

theorem Db.Good.completeResponse {progress : RunProgress} {claims : List EvidenceClaim}
    {record : ExecutionRecord} (hdb : db.Good)
    (h : completeResponse progress claims id now db = .ok (record, db')) :
    db.Follows db' ∧ db'.getExecution id = some record ∧ record.Ended := by
  unfold Assistant.completeResponse Db.getExecutionRequired at h
  simp only [bind_eq_ok, require_eq_ok, Prod.exists] at h
  obtain ⟨execution, hexecution, db1, hsteps, db2, hobservations, responding, db3, hresponding,
    hcompleted⟩ := h
  have hid : execution.id = id := Table.key_of_get hexecution
  have hone : db.Follows db1 := by
    refine foldlM_invariant (I := db.Follows) (fun b step b' _ hb hround => ?_) hdb.refl hsteps
    obtain ⟨⟨row, db⟩, happend, rfl⟩ := map_eq_ok.mp hround
    exact hb.trans ((Written.appendStep happend).follows hb.good)
  have htwo : db.Follows db2 := by
    refine foldlM_invariant (I := db.Follows) (fun b o b' _ hb hround => ?_) hone hobservations
    obtain ⟨⟨row, db⟩, happend, rfl⟩ := map_eq_ok.mp hround
    obtain ⟨-, -, observations, -, rfl⟩ := Db.appendObservation_eq_ok.mp happend
    have hwritten : Written b { b with observations } := .other rfl rfl
    exact hb.trans (hwritten.follows hb.good)
  -- An execution that responds has not ended, whatever its profile.
  have hrespondingOpen : ∀ e : ExecutionRecord, e.status = .responding → ¬ e.Ended := by
    intro e hstatus
    have hdeclared := e.statusDeclared
    unfold ExecutionRecord.Ended
    rw [hstatus] at hdeclared ⊢
    revert hdeclared
    cases e.profile <;> decide
  have hopen : ∀ e, db2.getExecution execution.id = some e → ¬ e.Ended := by
    intro e he
    by_cases hstatus : e.status = .responding
    · exact hrespondingOpen e hstatus
    · exact not_ended_of_transition hresponding he hstatus
  obtain ⟨hthree, hrespondingId, hrespondingStatus, hrow⟩ :=
    htwo.good.transition hopen (show ExecutionStatus.responding ≠ .handedOff by decide) hresponding
  rw [hrespondingId] at hcompleted
  have hopenStill : ∀ e, db3.getExecution execution.id = some e → ¬ e.Ended := by
    intro e he
    obtain rfl : e = responding := Option.some.inj (he.symm.trans hrow)
    exact hrespondingOpen e hrespondingStatus
  obtain ⟨hfour, -, hstatus, hget⟩ := hthree.good.transition hopenStill
    (show ExecutionStatus.completed ≠ .handedOff by decide) hcompleted
  rw [hid] at hget
  have hstatus : record.status = .completed := hstatus
  refine ⟨(htwo.trans hthree).trans hfour, hget, ?_⟩
  unfold ExecutionRecord.Ended
  rw [hstatus]
  cases record.profile <;> rfl

/-- The execution of a turn is that of its request. -/
def ExecutionRecord.OfRequest (e : ExecutionRecord) (request : FastTurnRequest) : Prop :=
  e.sessionId = request.sessionId ∧ e.clientRequestId = request.clientRequestId ∧
    stripped request.goal ≠ ""

/-- What holds of a turn, by what it is at. -/
def FastTurnStage.Sound (db : Db) (id : Option ExecutionId) : FastTurnStage → Prop
  | .creating => id = none
  | .handingOff phase => ∃ source, id = some source ∧ phase.Sound db source
  | .ended result => ∀ r ∈ result, ∀ execution, id = some execution →
    ∃ e, db.getExecution execution = some e ∧ e.Ended ∧ r = e.turnResult
  | _ => id.isSome = true

structure TurnWorld.Sound (request : FastTurnRequest) (w : TurnWorld) : Prop where
  good : w.db.Good
  execution : ∀ id, w.executionId = some id →
    ∃ e, w.db.getExecution id = some e ∧ e.OfRequest request
  stage : w.stage.Sound w.db w.executionId

namespace TurnWorld.Sound

theorem goOn (h : w.Sound request) (hdb : w.db.Follows db) (stage : FastTurnStage)
    (hstage : stage.Sound db w.executionId) (hid : w'.executionId = w.executionId)
    (hw : w'.db = db) (hs : w'.stage = stage) : w'.Sound request where
  good := hw ▸ hdb.good
  execution id hexecution := by
    obtain ⟨e, he, hsession, hrequest, hgoal⟩ := h.execution id (hid ▸ hexecution)
    obtain ⟨e', he', hsame, -⟩ := hdb.outcomes.kept he
    exact ⟨e', hw ▸ he', hsame.sessionId.trans hsession,
      hsame.clientRequestId.trans hrequest, hgoal⟩
  stage := by rw [hs, hw, hid]; exact hstage

theorem setStage (h : w.Sound request) (stage : FastTurnStage)
    (hstage : stage.Sound w.db w.executionId) (hid : w'.executionId = w.executionId)
    (hw : w'.db = w.db) (hs : w'.stage = stage) : w'.Sound request :=
  h.goOn h.good.refl stage hstage hid hw hs

end TurnWorld.Sound

theorem Db.Good.answered (hdb : db.Good) {source : ExecutionRecord} {commit : HandoffCommit}
    (hsource : db.getExecution id = some source) (h : Answered db id commit) :
    source.Ended ∧
      { source.turnResult with handoffExecutionId := some commit.targetExecutionId } =
        source.turnResult := by
  obtain ⟨r, hr, rfl, target, -, rfl⟩ := h
  refine ⟨(hdb.once.ended hr hsource).2, ?_⟩
  have hnamed := hdb.named r hr source hsource
  simp only [ExecutionRecord.turnResult, hnamed]

theorem TurnWorld.handoffAfterTimeout_sound (h : w.Sound request)
    (hid : w.executionId.isSome = true) : (w.handoffAfterTimeout request).Sound request := by
  unfold TurnWorld.handoffAfterTimeout
  split
  · exact h.setStage (.contextualizing) hid rfl rfl rfl
  · exact h.setStage (.deferring _) hid rfl rfl rfl

theorem TurnWorld.observed_sound {round : ℕ} {observations : List HandoffObservation}
    (h : w.Sound request) (hid : w.executionId.isSome = true) :
    (w.observed budget request round observations).Sound request := by
  unfold TurnWorld.observed
  dsimp only
  split_ifs
  · exact h.setStage (.deciding _) hid rfl rfl rfl
  · exact h.setStage (.deferring _) hid rfl rfl rfl
  · exact h.setStage (.refusing _) hid rfl rfl rfl

theorem TurnWorld.afterDecision_sound {decision : FastDecision} {execution : Option ExecutionId}
    (hid : execution.isSome = true) :
    (TurnWorld.afterDecision request decision).Sound db execution := by
  cases decision with
  | handoff decision =>
    unfold TurnWorld.afterDecision
    split_ifs <;> exact hid
  | respond claims | invokeTools calls | needsInput question refs choices
  | complete claims status => exact hid

theorem TurnWorld.Sound.found (h : w.Sound request) (hgoing : ¬ w.stage.Ended)
    (hcreated : w.stage ≠ .creating) : w.executionId.isSome = true := by
  have hstage := h.stage
  cases hs : w.stage with
  | creating => exact absurd hs hcreated
  | ended r => exact absurd (by rw [hs]; trivial) hgoing
  | handingOff phase =>
    rw [hs] at hstage
    obtain ⟨source, hsource, -⟩ := hstage
    rw [hsource]
    rfl
  | contextualizing | freezing | deciding | executing | responding | refusing | deferring
  | failing =>
    rw [hs] at hstage
    exact hstage

theorem TurnWorld.raised_sound (h : w.Sound request) (hgoing : ¬ w.stage.Ended) :
    w.raised.Sound request := by
  have hended : FastTurnStage.Sound w.db w.executionId (.ended none) := by
    rintro r ⟨⟩
  unfold TurnWorld.raised
  split
  · exact h.setStage (.ended none) hended rfl rfl rfl
  · exact h.setStage (.ended none) hended rfl rfl rfl
  · rename_i hcreating hfailing
    split_ifs
    · exact h.setStage (.ended none) hended rfl rfl rfl
    · exact h.setStage (.failing _) (h.found hgoing hcreating) rfl rfl rfl

theorem createTurn_row {record : ExecutionRecord}
    (h : createTurn request id now db = .ok (record, db')) :
    db'.getExecution record.id = some record ∧ record.OfRequest request := by
  unfold createTurn Db.createExecution at h
  simp only [bind_eq_ok, ensure_eq_ok] at h
  obtain ⟨-, hgoal, h⟩ := h
  split at h
  · rename_i existing hexisting
    cases h
    obtain ⟨clientRequestId, hclient, hfound⟩ := Option.bind_eq_some_iff.mp hexisting
    obtain ⟨hmem, hunique⟩ := Table.getUnique_eq_some.mp hfound
    obtain ⟨clientRequest, hrow, hpair⟩ := Option.map_eq_some_iff.mp hunique
    obtain ⟨hsession, rfl⟩ := Prod.mk.inj hpair
    exact ⟨Table.get_of_mem hmem, hsession, hrow.trans hclient.symm, hgoal⟩
  · simp only [bind_eq_ok, require_eq_ok, pure_eq_ok, Prod.mk.injEq] at h
    obtain ⟨root, -, executions, hinsert, rfl, rfl⟩ := h
    refine ⟨?_, rfl, rfl, hgoal⟩
    rw [Db.getExecution]
    exact Table.get_of_mem ((Table.mem_insert hinsert).mpr (Or.inr rfl))

theorem TurnSteps.sound (h : TurnSteps budget request w label w') (hw : w.Sound request) :
    w'.Sound request ∧ w.db.Follows w'.db := by
  cases h with
  | @others db hgoing hwrite =>
    have hfollows := hwrite.follows hw.good
    refine ⟨hw.goOn hfollows w.stage ?_ rfl rfl rfl, hfollows⟩
    have hstage := hw.stage
    cases hs : w.stage with
    | ended r => exact absurd (by rw [hs]; trivial) hgoing
    | handingOff phase =>
      rw [hs] at hstage
      obtain ⟨source, hsource, hphase⟩ := hstage
      exact ⟨source, hsource, hphase.keeps hfollows.answers⟩
    | creating | contextualizing | freezing | deciding | executing | responding | refusing
    | deferring | failing =>
      rw [hs] at hstage
      exact hstage
  | @created id now record db hstage h =>
    have hfollows : w.db.Follows db := (Written.create h).follows hw.good
    obtain ⟨hrow, hof⟩ := createTurn_row h
    have hnone : w.executionId = none := by
      have hsound := hw.stage
      rw [hstage] at hsound
      exact hsound
    split_ifs
    · refine ⟨⟨hfollows.good, fun id hid => ?_, rfl⟩, hfollows⟩
      obtain rfl : record.id = id := Option.some.inj hid
      exact ⟨record, hrow, hof⟩
    · refine ⟨hw.goOn hfollows (.ended _) ?_ rfl rfl rfl, hfollows⟩
      intro r _ id hid
      rw [hnone] at hid
      cases hid
  | @contextualized id now db hstage hid h =>
    have hfollows := hw.good.moveTurnFrom (by decide) (by decide) h
    exact ⟨hw.goOn hfollows .freezing (by rw [hid]; rfl) rfl rfl rfl, hfollows⟩
  | @frozen id snapshot now db hstage hid h =>
    have hfollows := hw.good.freezeContext h
    have hfound : w.executionId.isSome = true := by rw [hid]; rfl
    refine ⟨?_, ?_⟩
    · unfold TurnWorld.contextBuilt
      dsimp only
      split_ifs
      · have hbuilt : TurnWorld.Sound request { w with
            db, progress := { w.progress with snapshot := some snapshot } } :=
          hw.goOn hfollows w.stage (by rw [hstage]; exact hfound) rfl rfl rfl
        exact TurnWorld.handoffAfterTimeout_sound hbuilt hfound
      · exact hw.goOn hfollows (.deciding 1) hfound rfl rfl rfl
    · unfold TurnWorld.contextBuilt TurnWorld.handoffAfterTimeout
      dsimp only
      split_ifs <;> exact hfollows
  | @decided round decision outcome summary hstage houtcome htools =>
    have hfound := hw.found (by rw [hstage]; exact id) (by rw [hstage]; exact nofun)
    exact ⟨hw.setStage _ (TurnWorld.afterDecision_sound hfound) rfl rfl rfl, hw.good.refl⟩
  | @invoked id round calls outcome now db summary hstage hid houtcome h =>
    have hfollows := hw.good.moveTurnFrom (by decide) (by decide) h
    exact ⟨hw.goOn hfollows (.executing round) (by rw [hid]; rfl) rfl rfl rfl, hfollows⟩
  | @observed round observations hstage =>
    have hfound := hw.found (by rw [hstage]; exact id) (by rw [hstage]; exact nofun)
    refine ⟨TurnWorld.observed_sound hw hfound, ?_⟩
    unfold TurnWorld.observed
    dsimp only
    split_ifs <;> exact hw.good.refl
  | @responded id claims now record db hstage hid h =>
    obtain ⟨hfollows, hrow, hended⟩ := hw.good.completeResponse h
    refine ⟨hw.goOn hfollows (.ended _) ?_ rfl rfl rfl, hfollows⟩
    rintro r ⟨⟩ execution hexecution
    obtain rfl : id = execution := Option.some.inj (hid.symm.trans hexecution)
    exact ⟨record, hrow, hended, rfl⟩
  | @deferred id decision execution snapshot hstage hid hexecution hsnapshot =>
    refine ⟨hw.setStage (.handingOff _) ⟨id, hid, ?_⟩ rfl rfl rfl, hw.good.refl⟩
    have hsource : execution.id = id := Table.key_of_get hexecution
    rw [← hsource]
    exact readHandoff_ensures (w.handoffRequest request execution snapshot decision) w.db
  | @handoffRead phase next hstage hread hnext =>
    have hsound := hw.stage
    rw [hstage] at hsound
    obtain ⟨source, hsource, hphase⟩ := hsound
    exact ⟨hw.setStage (.handingOff next) ⟨source, hsource, hphase.read hread⟩ rfl rfl rfl,
      hw.good.refl⟩
  | @handoffWritten plan ids now commit db hstage h =>
    have hsound := hw.stage
    rw [hstage] at hsound
    obtain ⟨source, hsource, hphase⟩ := hsound
    have hplan : plan.source.id = source := hphase
    obtain ⟨hgood, houtcomes, hkeeps, hanswered⟩ := hw.good.commitHandoff h
    have hfollows : w.db.Follows db := ⟨hgood, houtcomes, hkeeps⟩
    rw [hplan] at hanswered
    exact ⟨hw.goOn hfollows (.handingOff (.enqueueing commit)) ⟨source, hsource, hanswered⟩
      rfl rfl rfl, hfollows⟩
  | @enqueued commit hstage =>
    have hsound := hw.stage
    rw [hstage] at hsound
    exact ⟨hw.setStage (.handingOff (.returned commit)) hsound rfl rfl rfl, hw.good.refl⟩
  | @handedOff id commit source hstage hid hsource =>
    have hsound := hw.stage
    rw [hstage] at hsound
    obtain ⟨source', hsource', hanswered⟩ := hsound
    obtain rfl : id = source' := Option.some.inj (hid.symm.trans hsource')
    obtain ⟨hended, hresult⟩ := hw.good.answered hsource hanswered
    refine ⟨hw.setStage (.ended _) ?_ rfl rfl rfl, hw.good.refl⟩
    rintro r ⟨⟩ execution hexecution
    obtain rfl : id = execution := Option.some.inj (hid.symm.trans hexecution)
    exact ⟨source, hsource, hended, hresult⟩
  | @failed id errorCode now record db hstage hid h =>
    obtain ⟨hfollows, hrow, hended⟩ := hw.good.failExecution h
    refine ⟨hw.goOn hfollows (.ended _) ?_ rfl rfl rfl, hfollows⟩
    rintro r ⟨⟩ execution hexecution
    obtain rfl : id = execution := Option.some.inj (hid.symm.trans hexecution)
    exact ⟨record, hrow, hended, rfl⟩
  | timedOut htimed =>
    have hgoing : ¬ w.stage.Ended := by
      intro hended
      have htime := htimed.2
      cases hs : w.stage <;> simp_all [FastTurnStage.Ended]
    have hcreated : w.stage ≠ .creating := by
      intro hs
      have htime := htimed.2
      rw [hs] at htime
      exact htime
    have hfound := hw.found hgoing hcreated
    split_ifs
    · refine ⟨TurnWorld.handoffAfterTimeout_sound hw hfound, ?_⟩
      unfold TurnWorld.handoffAfterTimeout
      split <;> exact hw.good.refl
    · exact ⟨hw.setStage (.failing _) hfound rfl rfl rfl, hw.good.refl⟩
  | raised hgoing =>
    refine ⟨TurnWorld.raised_sound hw hgoing, ?_⟩
    unfold TurnWorld.raised
    split
    · exact hw.good.refl
    · exact hw.good.refl
    · split_ifs <;> exact hw.good.refl

theorem Db.Good.follows_writes (hdb : db.Good) (h : Relation.ReflTransGen Written db db') :
    db.Follows db' := by
  induction h with
  | refl => exact hdb.refl
  | tail _ hwrite ih => exact ih.trans (hwrite.follows ih.good)

theorem turnWorld_sound_start (request : FastTurnRequest) : TurnWorld.Sound request {} :=
  ⟨Db.good_empty, fun _ hid => (by cases hid), rfl⟩

theorem TurnWorld.sound_of_run {labels : List TurnLabel}
    (h : Run (TurnSteps budget request) w labels w') (hw : w.Sound request) : w'.Sound request :=
  h.invariant (fun _ _ _ hsound hstep => (hstep.sound hsound).1) hw

/-- What is raised ends the turn, and its execution has not ended. -/
def TurnWorld.Escapes (w : TurnWorld) : Prop :=
  (w.late = true ∨ ∃ errorCode, w.stage = .failing errorCode) ∧
    ∃ id e, w.executionId = some id ∧ w.db.getExecution id = some e ∧ ¬ e.Ended

/-- What is raised does not escape. -/
def RaiseHandled (w : TurnWorld) (label : TurnLabel) : Prop := label = .raise → ¬ w.Escapes

/-- Where the turn is over, its execution has ended. -/
def TurnWorld.Over (w : TurnWorld) : Prop :=
  w.stage.Ended → ∀ id e, w.executionId = some id → w.db.getExecution id = some e → e.Ended

theorem not_step_of_ended (hended : w.stage.Ended) : ¬ TurnSteps budget request w label w' := by
  have hnot {stage : FastTurnStage} (hs : w.stage = stage) (hgoing : ¬ stage.Ended) : False :=
    hgoing (hs ▸ hended)
  intro h
  cases h with
  | others hgoing _ => exact hgoing hended
  | created hstage _ | contextualized hstage _ _ | frozen hstage _ _ | decided _ hstage _ _
  | invoked _ hstage _ _ _ | observed _ hstage | responded hstage _ _ | deferred hstage _ _ _
  | handoffRead hstage _ _ | handoffWritten hstage _ | enqueued hstage | handedOff hstage _ _ =>
    exact hnot hstage id
  | failed hstage _ _ => exact hstage.elim (fun hs => hnot hs id) fun hs => hnot hs id
  | timedOut htimed =>
    have htime := htimed.2
    cases hs : w.stage with
    | ended r => rw [hs] at htime; exact htime
    | _ => rw [hs] at hended; exact hended
  | raised hgoing => exact hgoing hended

theorem TurnWorld.handoffAfterTimeout_going (w : TurnWorld) :
    ¬ (w.handoffAfterTimeout request).stage.Ended := by
  unfold TurnWorld.handoffAfterTimeout
  split <;> exact id

theorem TurnWorld.afterDecision_going (decision : FastDecision) :
    ¬ (TurnWorld.afterDecision request decision).Ended := by
  cases decision with
  | handoff decision =>
    unfold TurnWorld.afterDecision
    split_ifs <;> exact id
  | _ => exact id

theorem TurnSteps.raised_of_none (h : TurnSteps budget request w label w')
    (hended : w'.stage = .ended none) : label = .raise ∧ w' = w.raised := by
  have hover : w'.stage.Ended := by rw [hended]; trivial
  cases h with
  | others hgoing _ => exact absurd hover hgoing
  | created hstage h =>
    split_ifs at hended
    · cases hended
  | contextualized hstage _ _ => cases hended
  | frozen hstage _ _ =>
    unfold TurnWorld.contextBuilt at hover
    dsimp only at hover
    split_ifs at hover
    · exact absurd hover (TurnWorld.handoffAfterTimeout_going _)
    · exact hover.elim
  | decided summary hstage _ _ => exact absurd hover (TurnWorld.afterDecision_going _)
  | invoked summary hstage _ _ _ => cases hended
  | observed observations hstage =>
    unfold TurnWorld.observed at hover
    dsimp only at hover
    split_ifs at hover <;> exact hover.elim
  | responded hstage _ _ | deferred hstage _ _ _ | handoffRead hstage _ _
  | handoffWritten hstage _ | enqueued hstage | handedOff hstage _ _ | failed hstage _ _ =>
    cases hended
  | timedOut htimed =>
    split_ifs at hover
    · exact absurd hover (TurnWorld.handoffAfterTimeout_going _)
    · exact hover.elim
  | raised hgoing => exact ⟨rfl, rfl⟩

/-- What is raised ends the turn where it is late, or is failing already. -/
theorem TurnWorld.Sound.raised_ended (hw : w.Sound request) (hended : w.raised.stage = .ended none)
    (hid : w.executionId = some id) :
    w.late = true ∨ ∃ errorCode, w.stage = .failing errorCode := by
  have hstage := hw.stage
  unfold TurnWorld.raised at hended
  split at hended
  · rename_i hcreating
    rw [hcreating] at hstage
    exact absurd (hid.symm.trans hstage) (by simp)
  · rename_i errorCode hfailing
    exact Or.inr ⟨errorCode, hfailing⟩
  · split_ifs at hended with hlate
    · exact Or.inl hlate
    · cases hended

theorem TurnWorld.raised_row (w : TurnWorld) :
    w.raised.db = w.db ∧ w.raised.executionId = w.executionId := by
  unfold TurnWorld.raised
  split
  · exact ⟨rfl, rfl⟩
  · exact ⟨rfl, rfl⟩
  · split_ifs <;> exact ⟨rfl, rfl⟩

theorem TurnSteps.over (h : TurnSteps budget request w label w') (hw : w.Sound request)
    (hhandled : RaiseHandled w label) : w'.Over := by
  intro hstage id e hid he
  have hsound := (h.sound hw).1.stage
  cases hs : w'.stage with
  | ended result =>
    rw [hs] at hsound
    cases result with
    | some r =>
      obtain ⟨row, hrow, hended, -⟩ := hsound r rfl id hid
      obtain rfl : e = row := Option.some.inj (he.symm.trans hrow)
      exact hended
    | none =>
      obtain ⟨rfl, rfl⟩ := h.raised_of_none hs
      rw [w.raised_row.1] at he
      rw [w.raised_row.2] at hid
      by_contra hopen
      exact hhandled rfl ⟨hw.raised_ended hs hid, id, e, hid, he, hopen⟩
  | _ => rw [hs] at hstage; exact hstage.elim

/-- What escapes ends the turn, and leaves an execution that has not ended. -/
theorem TurnWorld.Escapes.not_over (h : w.Escapes) :
    w.raised.stage.Ended ∧ ¬ w.raised.Over := by
  obtain ⟨hreason, id, e, hid, he, hopen⟩ := h
  have hended : w.raised.stage.Ended := by
    unfold TurnWorld.raised
    split
    · trivial
    · trivial
    · rename_i hcreating hfailing
      rcases hreason with hlate | ⟨errorCode, hs⟩
      · rw [if_pos hlate]
        trivial
      · exact absurd hs (hfailing errorCode)
  refine ⟨hended, fun hover => hopen (hover hended id e ?_ ?_)⟩
  · rw [w.raised_row.2]
    exact hid
  · rw [w.raised_row.1]
    exact he

theorem over_of_handled {labels : List TurnLabel}
    (h : Run (Under RaiseHandled (TurnSteps budget request)) w labels w') (hw : w.Sound request)
    (hover : w.Over) : w'.Over := by
  have hboth : w'.Sound request ∧ w'.Over := by
    refine h.invariant (I := fun w => TurnWorld.Sound request w ∧ w.Over) ?_ ⟨hw, hover⟩
    rintro s l t ⟨hs, -⟩ ⟨hhandled, hstep⟩
    exact ⟨(hstep.sound hs).1, hstep.over hs hhandled⟩
  exact hboth.2

theorem handled_of_over {labels : List TurnLabel} (h : Run (TurnSteps budget request) w labels w')
    (hover : w'.Over) : Run (Under RaiseHandled (TurnSteps budget request)) w labels w' := by
  induction h with
  | done w => exact .done w
  | more hstep hrest ih =>
    refine .more ⟨fun hraise hescapes => ?_, hstep⟩ (ih hover)
    subst hraise
    cases hstep with
    | raised hgoing =>
      -- No step is taken behind the end, so that this is the last one.
      cases hrest with
      | done => exact hescapes.not_over.2 hover
      | more hnext _ => exact not_step_of_ended hescapes.not_over.1 hnext

/-- To make the request again answers with what the row says, and asks no planner. -/
def Replays (budget : FastTurnBudget) (request : FastTurnRequest) (db : Db)
    (result : FastTurnResult) : Prop :=
  ∀ w, TurnSteps budget request { db } .create w ↔ w = { db, stage := .ended (some result) }

theorem SameExecution.turnResult {e e' : ExecutionRecord} (h : KeepsOutcome e e') (he : e.Ended) :
    e'.turnResult = e.turnResult := by
  have houtcome := h.2 he
  simp only [ExecutionRecord.turnResult, h.1.id, houtcome.status, houtcome.result,
    houtcome.snapshotId, houtcome.errorCode]

theorem createTurn_again {e : ExecutionRecord} (he : db.getExecution id = some e)
    (hof : e.OfRequest request) (hclient : request.clientRequestId.isSome = true)
    (id' : ExecutionId) (now : Instant) : createTurn request id' now db = .ok (e, db) := by
  obtain ⟨clientRequestId, hclient⟩ := Option.isSome_iff_exists.mp hclient
  obtain ⟨hsession, hrequest, hgoal⟩ := hof
  have hfound : db.executions.getUnique (request.sessionId, clientRequestId) = some e := by
    rw [Table.getUnique_eq_some]
    refine ⟨Table.mem_of_get he, ?_⟩
    show (e.clientRequestId.map fun r => (e.sessionId, r)) = _
    rw [hrequest, hclient, hsession]
    rfl
  have hchecked : ensure (stripped request.goal ≠ "")
      (Fault.value "execution goal is required") = .ok () := ensure_eq_ok.mpr hgoal
  unfold createTurn Db.createExecution
  rw [hchecked, hclient, Option.bind_some, hfound]
  rfl

theorem replays_of_row {e : ExecutionRecord} (he : db.getExecution id = some e)
    (hof : e.OfRequest request) (hclient : request.clientRequestId.isSome = true)
    (hended : e.Ended) : Replays budget request db e.turnResult := by
  have hnew : e.status ≠ .received := by
    intro hstatus
    have hdeclared := e.statusDeclared
    unfold ExecutionRecord.Ended at hended
    rw [hstatus] at hdeclared hended
    revert hdeclared hended
    cases e.profile <;> decide
  have hagain := createTurn_again he hof hclient
  intro w
  constructor
  · intro h
    cases h with
    | @created id' now record db' hstage h =>
      rw [hagain] at h
      cases h
      rw [if_neg hnew]
  · rintro rfl
    have hstep : TurnSteps budget request { db } .create _ := .created rfl (hagain 0 0)
    rw [if_neg hnew] at hstep
    exact hstep

/-- The turn has left an execution that has ended; what it returns is what the row says; it is
handed off where its handoff was committed; and the request has this outcome from then on. -/
def TurnWorld.Settled (budget : FastTurnBudget) (request : FastTurnRequest) (w : TurnWorld)
    (result : Option FastTurnResult) : Prop :=
  ∀ id, w.executionId = some id → ∃ e, w.db.getExecution id = some e ∧ e.Ended ∧
    (∀ r ∈ result, r = e.turnResult) ∧
    (e.status = .handedOff ↔ ∃ r ∈ w.db.handoffs.rows, r.sourceExecutionId = id) ∧
    (request.clientRequestId.isSome = true →
      ∀ db, Relation.ReflTransGen Written w.db db → Replays budget request db e.turnResult)

theorem TurnWorld.Sound.settled_iff {result : Option FastTurnResult} (hw : w.Sound request)
    (hended : w.stage = .ended result) : w.Settled budget request result ↔ w.Over := by
  constructor
  · intro hsettled _ id e hid he
    obtain ⟨row, hrow, hover, -⟩ := hsettled id hid
    obtain rfl : e = row := Option.some.inj (he.symm.trans hrow)
    exact hover
  · intro hover id hid
    obtain ⟨e, he, hof⟩ := hw.execution id hid
    have hend := hover (by rw [hended]; trivial) id e hid he
    refine ⟨e, he, hend, fun r hr => ?_, ⟨hw.good.once.recorded id e he, ?_⟩,
      fun hclient db hwrites => ?_⟩
    · have hstage := hw.stage
      rw [hended] at hstage
      obtain ⟨row, hrow, -, hresult⟩ := hstage r hr id hid
      obtain rfl : e = row := Option.some.inj (he.symm.trans hrow)
      exact hresult
    · rintro ⟨r, hr, rfl⟩
      exact (hw.good.once.ended hr he).1
    · obtain ⟨e', he', hkeeps⟩ := (hw.good.follows_writes hwrites).outcomes.kept he
      rw [← SameExecution.turnResult hkeeps hend]
      exact replays_of_row he' ⟨hkeeps.1.sessionId.trans hof.1,
        hkeeps.1.clientRequestId.trans hof.2.1, hof.2.2⟩ hclient (hkeeps.ended hend)

/-- A turn that is over is settled if and only if nothing that was raised has escaped: neither out
of the handoff that follows when its time is over, nor out of the failing of its execution. -/
theorem fast_turn_settles {labels : List TurnLabel} {result : Option FastTurnResult}
    (h : Run (TurnSteps budget request) {} labels w) (hended : w.stage = .ended result) :
    w.Settled budget request result ↔
      Run (Under RaiseHandled (TurnSteps budget request)) {} labels w := by
  have hsound := TurnWorld.sound_of_run h (turnWorld_sound_start request)
  rw [hsound.settled_iff hended]
  exact ⟨fun hover => handled_of_over h hover,
    fun hrun => over_of_handled hrun (turnWorld_sound_start request) fun hstart => hstart.elim⟩

/-- A goal without blanks, of some length. -/
def plainGoal (n : ℕ) : String := String.ofList (List.replicate n 'a')

theorem joinedWords_plainGoal {n : ℕ} (hn : n ≠ 0) : joinedWords (plainGoal n) = plainGoal n := by
  have hsplit : (List.replicate n 'a').splitOnP isSpace = [List.replicate n 'a'] := by
    apply List.splitOnP_eq_singleton
    intro c hc
    rw [List.eq_of_mem_replicate hc]
    decide
  have hne : List.replicate n 'a' ≠ [] := by simpa using hn
  rw [joinedWords, plainGoal, String.toList_ofList, hsplit]
  simp [hne, List.intercalate]

/-- A request with a plain goal. -/
def plainRequest (n : ℕ) (hn : 1 ≤ n ∧ n ≤ 4000) (allowHandoff : Bool) : FastTurnRequest where
  sessionId := 1
  goal := plainGoal n
  clientRequestId := some "request"
  allowHandoff := allowHandoff
  goal_joined := joinedWords_plainGoal (Nat.one_le_iff_ne_zero.mp hn.1)
  goal_length := by simpa [plainGoal] using hn

theorem plainGoal_ne_empty {n : ℕ} (hn : n ≠ 0) : stripped (plainGoal n) ≠ "" := by
  apply stripped_ne_empty
  obtain ⟨k, rfl⟩ := Nat.exists_eq_succ_of_ne_zero hn
  rw [plainGoal, String.toList_ofList, List.replicate_succ, List.any_cons]
  rfl

theorem plainRequest_deciding {n : ℕ} (hn : 1 ≤ n ∧ n ≤ 4000) (allowHandoff : Bool) :
    ∃ w e, Run (TurnSteps {} (plainRequest n hn allowHandoff)) {} [.create, .advance, .advance] w ∧
      w.stage = .deciding 1 ∧ w.late = false ∧ w.executionId = some 1 ∧
      w.progress.snapshot = some { id := 1, sessionId := 1, evidenceRefs := ["e1"]
                                   evidenceMessages := [] } ∧
      w.db.getExecution 1 = some e ∧ e.profile = .fastTurn ∧ e.status = .deciding ∧
      ∃ failed db, failExecution "fast_turn_timeout" 1 3 w.db = .ok (failed, db) := by
  have hchecked : ensure (stripped (plainRequest n hn allowHandoff).goal ≠ "")
      (Fault.value "execution goal is required") = .ok () :=
    ensure_eq_ok.mpr (plainGoal_ne_empty (Nat.one_le_iff_ne_zero.mp hn.1))
  have hcreate : ∃ record db, createTurn (plainRequest n hn allowHandoff) 1 0 {} = .ok
    (record, db) ∧
      record.status = .received ∧ record.id = 1 ∧
      ∃ db', contextualize 1 1 db = .ok db' ∧
        ∃ db'', freezeContext { id := 1, sessionId := 1, evidenceRefs := ["e1"]
                                evidenceMessages := [] } 1 2 db' = .ok db'' ∧
          ∃ e, db''.getExecution 1 = some e ∧ e.profile = .fastTurn ∧ e.status = .deciding ∧
            ∃ failed db, failExecution "fast_turn_timeout" 1 3 db'' = .ok (failed, db) := by
    unfold createTurn Db.createExecution
    rw [hchecked]
    exact ⟨_, _, rfl, rfl, rfl, _, rfl, _, rfl, _, rfl, rfl, rfl, _, _, rfl⟩
  obtain ⟨record, db, hcreated, hreceived, hid, db', hcontextualized, db'', hfrozen, e, he,
    hprofile, hstatus, hfails⟩ := hcreate
  have hfirst : TurnSteps {} (plainRequest n hn allowHandoff) {} .create _ :=
    .created rfl hcreated
  rw [if_pos hreceived, hid] at hfirst
  exact ⟨_, e, .more hfirst <| .more (.contextualized rfl rfl hcontextualized) <|
    .single (.frozen rfl rfl hfrozen), rfl, rfl, rfl, rfl, he, hprofile, hstatus, hfails⟩

theorem deciding_timed (hstage : w.stage = .deciding 1) (hlate : w.late = false) : w.Timed := by
  refine ⟨hlate, ?_⟩
  rw [hstage]
  trivial

theorem HandoffDecision.ofRequest_long (h : maxHandoffGoalChars < request.goal.length)
    (snapshot : ContextSnapshot) (decisionSummary text : String) :
    HandoffDecision.ofRequest request snapshot decisionSummary text = none := by
  unfold HandoffDecision.ofRequest
  split
  · rfl
  · rw [dif_neg (Nat.not_le.mpr h)]

theorem TurnWorld.handoffAfterTimeout_long {snapshot : ContextSnapshot}
    (h : maxHandoffGoalChars < request.goal.length)
    (hsnapshot : w.progress.snapshot = some snapshot) :
    (w.handoffAfterTimeout request).late = true ∧
      (w.handoffAfterTimeout request).stage = .deferring none ∧
      (w.handoffAfterTimeout request).executionId = w.executionId ∧
      (w.handoffAfterTimeout request).db = w.db := by
  simp only [TurnWorld.handoffAfterTimeout, hsnapshot, HandoffDecision.ofRequest_long h, and_self]

/-- The goal of a request may be longer than that of a handoff: where its time is over, what is
raised escapes. -/
theorem longGoal_escapes :
    ∃ labels w, Run (TurnSteps {} (plainRequest 2001 (by decide) true)) {} labels w ∧
      w.stage = .ended none ∧ ¬ w.Settled {} (plainRequest 2001 (by decide) true) none := by
  obtain ⟨w, e, hrun, hstage, hlate, hid, hsnapshot, he, hprofile, hstatus, -⟩ :=
    plainRequest_deciding (by decide : 1 ≤ 2001 ∧ 2001 ≤ 4000) true
  let late := w.handoffAfterTimeout (plainRequest 2001 (by decide) true)
  have hlong : maxHandoffGoalChars < (plainGoal 2001).length := by
    rw [plainGoal, String.length_ofList, List.length_replicate]
    decide
  obtain ⟨hislate, hdeferring, hexecution, hdb⟩ :=
    TurnWorld.handoffAfterTimeout_long (show maxHandoffGoalChars <
      (plainRequest 2001 (by decide) true).goal.length from hlong) hsnapshot
  have htime : TurnSteps {} (plainRequest 2001 (by decide) true) w .timeout late :=
    .timedOut (deciding_timed hstage hlate)
  have hgoing : ¬ late.stage.Ended := by
    rw [hdeferring]
    exact id
  have hopen : ¬ e.Ended := by
    unfold ExecutionRecord.Ended
    rw [hprofile, hstatus]
    decide
  have hraised : late.raised.stage = .ended none := by
    unfold TurnWorld.raised
    rw [hdeferring]
    exact if_pos hislate ▸ rfl
  refine ⟨_, late.raised, hrun.append (.more htime (.single (.raised hgoing))), hraised, ?_⟩
  intro hsettled
  obtain ⟨row, hrow, hended, -⟩ := hsettled 1 (by rw [late.raised_row.2, hexecution, hid])
  rw [late.raised_row.1, hdb, he] at hrow
  obtain rfl := Option.some.inj hrow
  exact hopen hended

/-- Where the time of a turn is over that may not hand off, its execution fails. -/
theorem plainRequest_settles :
    ∃ labels w result, Run (TurnSteps {} (plainRequest 1 (by decide) false)) {} labels w ∧
      w.stage = .ended result ∧ w.Settled {} (plainRequest 1 (by decide) false) result := by
  obtain ⟨w, e, hrun, hstage, hlate, hid, -, -, -, -, failed, db, hfailed⟩ :=
    plainRequest_deciding (by decide : 1 ≤ 1 ∧ 1 ≤ 4000) false
  have htime : TurnSteps {} (plainRequest 1 (by decide) false) w .timeout
      (w.setStage (.failing "fast_turn_timeout")) := .timedOut (deciding_timed hstage hlate)
  have hlast : TurnSteps {} (plainRequest 1 (by decide) false) _ .advance _ :=
    .failed (w := w.setStage (.failing "fast_turn_timeout")) (Or.inr rfl) hid hfailed
  have hrun := hrun.append (.single htime)
  have hover := hlast.over (TurnWorld.sound_of_run hrun (turnWorld_sound_start _)) (by rintro ⟨⟩)
  have hends := hrun.append (.single hlast)
  exact ⟨_, _, _, hends, rfl, (fast_turn_settles hends rfl).mpr (handled_of_over hends hover)⟩

end Assistant
end Matinier
