import Matinier.Assistant.FastTurnSettled
import Matinier.Assistant.Decisions

/-!
# Handoffs that the service accepts

A decision to hand off is read from an answer of the planner, or built by the turn itself. Where
nobody changes the database meanwhile, the service accepts it exactly where its reason cites
evidence of the snapshot, the grant of the turn covers its goal, and the identifier that the client
gave the turn leaves room for its prefix.
-/

namespace Matinier
namespace Assistant

variable {db : Db} {request : HandoffRequest} {plan : HandoffPlan} {ids : HandoffIds}
  {now : Instant} {execution : ExecutionRecord} {snapshot : ContextSnapshot}

/-- A whole handoff where nobody else writes: the reads of its request, and its transaction. -/
def handoff (request : HandoffRequest) (ids : HandoffIds) (now : Instant) :
    Transaction HandoffCommit := fun db =>
  match (readHandoff request).run db with
  | .ok (.inl commit) => .ok (commit, db)
  | .ok (.inr plan) => commitHandoff plan ids now db
  | .error e => .error e

/-- The source of a handoff as a turn has left it, with its snapshot stored, its steps numbered, and
no handoff yet. -/
structure Undisturbed (db : Db) (execution : ExecutionRecord) (snapshot : ContextSnapshot) :
    Prop where
  good : db.Good
  row : db.getExecution execution.id = some execution
  profile : execution.profile = .fastTurn
  capable : .handedOff ∈ executionEdges .fastTurn execution.status
  session : execution.sessionId = snapshot.sessionId
  bound : execution.snapshotId = some snapshot.id
  stored : db.getContextSnapshot snapshot.id = some snapshot
  steps : ∀ s ∈ db.steps.rows, s.executionId = execution.id → s.sequence ≤ execution.stepCount

structure HandoffIds.New (ids : HandoffIds) (db : Db) : Prop where
  target : db.getExecution ids.target = none
  handoff : db.handoffs.get ids.handoff = none

def GrantCovers (db : Db) (sessionId : SessionId) (goal : String)
    (grantId : Option GrantId) : Prop :=
  ∀ id ∈ grantId, ∃ grant, db.getGrant id = some grant ∧ grant.sessionId = sessionId ∧
    joinedWords grant.goal = joinedWords goal

theorem Undisturbed.unrecorded (h : Undisturbed db execution snapshot) :
    db.getHandoffBySource execution.id = none := by
  apply Table.getUnique_eq_none.mpr
  intro r hr hsource
  have hsource : r.sourceExecutionId = execution.id := Option.some.inj hsource
  obtain ⟨hstatus, -⟩ := h.good.once.ended hr (by rw [hsource]; exact h.row)
  have hedge := h.capable
  rw [hstatus] at hedge
  cases hedge

theorem checkGrant_eq_ok {sessionId : SessionId} {goal : String} {grantId : Option GrantId}
    {u : Unit} :
    checkGrant db sessionId (joinedWords goal) grantId = .ok u ↔
      GrantCovers db sessionId goal grantId := by
  cases grantId with
  | none => simp [checkGrant, GrantCovers]
  | some id =>
    simp only [checkGrant, Db.getGrantRequired, bind_eq_ok, require_eq_ok, ensure_eq_ok,
      GrantCovers, Option.mem_def, Option.some.injEq, forall_eq']
    constructor
    · rintro ⟨grant, hgrant, -, hsession, hgoal⟩
      exact ⟨grant, hgrant, hsession, hgoal⟩
    · rintro ⟨grant, hgrant, hsession, hgoal⟩
      exact ⟨grant, hgrant, u, hsession, hgoal⟩

theorem run_andThen {α β : Type} (x : Except Fault α) (next : α → Reader Db (Except Fault β)) :
    (andThen x next).run db = x >>= fun a => (next a).run db := by
  cases x <;> rfl

/-- What a request needs of the source, where the source is undisturbed. -/
theorem Undisturbed.checkSource (h : Undisturbed db execution snapshot)
    (hsource : request.sourceExecutionId = execution.id)
    (hversion : request.expectedStateVersion = execution.stateVersion)
    (hsnapshot : request.snapshot = snapshot) : checkSource db request = .ok execution := by
  simp only [Assistant.checkSource, Db.getExecutionRequired, bind_eq_ok, require_eq_ok,
    ensure_eq_ok, pure_eq_ok, hsource, hversion, hsnapshot]
  exact ⟨execution, h.row, (), h.profile, (), h.session, (), rfl, (), Or.inr h.bound, rfl⟩

theorem Undisturbed.checkSnapshot (h : Undisturbed db execution snapshot) :
    checkSnapshot db snapshot = .ok true := by
  simp only [Assistant.checkSnapshot, h.stored, bind_eq_ok, ensure_eq_ok, pure_eq_ok]
  exact ⟨(), ⟨trivial, trivial, trivial⟩, trivial⟩

/-- The reads of a request come to a plan where its own checks and the grant's pass. -/
theorem Undisturbed.read (h : Undisturbed db execution snapshot)
    (hsource : request.sourceExecutionId = execution.id)
    (hversion : request.expectedStateVersion = execution.stateVersion)
    (hsnapshot : request.snapshot = snapshot) :
    (readHandoff request).run db = do
      let goal ← checkRequest request
      checkGrant db execution.sessionId goal request.grantId
      return .inr { request, goal, source := execution, snapshotStored := true } := by
  have hnone : db.getHandoffBySource request.sourceExecutionId = none := by
    rw [hsource]
    exact h.unrecorded
  have hstored : Assistant.checkSnapshot db request.snapshot = .ok true := by
    rw [hsnapshot]
    exact h.checkSnapshot
  have hfound := h.checkSource hsource hversion hsnapshot
  unfold readHandoff
  rw [run_andThen]
  congr 1
  funext goal
  rw [Reader.run_bind, Reader.run_select, hnone]
  dsimp only
  rw [Reader.run_bind, Reader.run_select, hfound, run_andThen, ok_bind]
  rw [Reader.run_bind, Reader.run_select, hstored, run_andThen, ok_bind]
  rw [Reader.run_bind, Reader.run_select, run_andThen]
  rfl

/-- The steps of an execution have numbers up to its count. -/
def StepsNumbered (db : Db) (source : ExecutionRecord) : Prop :=
  ∀ s ∈ db.steps.rows, s.executionId = source.id → s.sequence ≤ source.stepCount

theorem lt_newStepId {s : StepRecord} (h : s ∈ db.steps.rows) : s.id < db.newStepId := by
  apply Db.lt_foldr_max
  exact List.mem_map_of_mem h

theorem appendStepFrom_returns {source : ExecutionRecord} (step : HandoffCompletedStep)
    (hsteps : StepsNumbered db source) {row : ExecutionRecord}
    (hrow : db.getExecution source.id = some row) :
    ∃ source' db', db.appendStepFrom source step = .ok (source', db') ∧
      StepsNumbered db' source' := by
  let record : StepRecord :=
    { id := db.newStepId
      executionId := source.id
      sequence := source.stepCount + 1
      kind := step.kind
      output := step.output
      decisionSummary := step.decisionSummary }
  have hfree : db.steps.Free record := by
    intro s hs
    refine ⟨Nat.ne_of_lt (lt_newStepId hs), Or.inr fun hsame => ?_⟩
    obtain ⟨hexecution, hsequence⟩ := Prod.mk.inj (Option.some.inj hsame)
    have hle := hsteps s hs hexecution
    have hsequence : s.sequence = source.stepCount + 1 := hsequence
    omega
  obtain ⟨steps, hinsert⟩ := Table.insert_isSome hfree
  refine ⟨{ source with stepCount := source.stepCount + 1 }, { db with
    steps, executions := db.executions.set { row with stepCount := source.stepCount + 1 } }, ?_, ?_⟩
  · simp only [Db.appendStepFrom, Db.getExecutionRequired, bind_eq_ok, require_eq_ok, pure_eq_ok]
    exact ⟨row, hrow, steps, hinsert, rfl⟩
  · intro s hs hexecution
    rcases (Table.mem_insert hinsert).mp hs with hs | rfl
    · exact Nat.le_succ_of_le (hsteps s hs hexecution)
    · exact Nat.le_refl _

/-- What others see of the source while its steps are appended. -/
structure Appending (plan : HandoffPlan) (db : Db) (state : ExecutionRecord × Db) : Prop where
  steps : StepsNumbered state.2 state.1
  id : state.1.id = plan.source.id
  stateVersion : state.1.stateVersion = plan.source.stateVersion
  status : state.1.status = plan.source.status
  profile : state.1.profile = plan.source.profile
  row : ∃ e, state.2.getExecution plan.source.id = some e ∧
    e.stateVersion = plan.source.stateVersion ∧ e.status = plan.source.status ∧
    e.profile = plan.source.profile
  handoffs : state.2.handoffs = db.handoffs

theorem Appending.step {state : ExecutionRecord × Db} (h : Appending plan db state)
    (step : HandoffCompletedStep) :
    ∃ state', state.2.appendStepFrom state.1 step = .ok state' ∧ Appending plan db state' := by
  obtain ⟨row, hrow, hversion, hstatus, hprofile⟩ := h.row
  have hrow' := hrow
  rw [← h.id] at hrow'
  obtain ⟨source', db', happend, hsteps⟩ := appendStepFrom_returns step h.steps hrow'
  refine ⟨(source', db'), happend, ?_⟩
  simp only [Db.appendStepFrom, Db.getExecutionRequired, bind_eq_ok, require_eq_ok, pure_eq_ok,
    Prod.mk.injEq] at happend
  obtain ⟨found, hfound, steps, -, rfl, rfl⟩ := happend
  obtain rfl : found = row := Option.some.inj (hfound.symm.trans hrow')
  have hid : found.id = plan.source.id := Table.key_of_get hrow
  let updated : ExecutionRecord := { found with stepCount := state.1.stepCount + 1 }
  have hkey : plan.source.id = Row.key updated := hid.symm
  have hset : state.2.executions.get (Row.key updated) = some found := by
    rw [← hkey]
    exact hrow
  have hget : (state.2.executions.set updated).get plan.source.id = some updated := by
    rw [Table.get_set hset ⟨rfl, Or.inr rfl⟩, if_pos hkey]
  exact ⟨hsteps, h.id, h.stateVersion, h.status, h.profile,
    ⟨updated, hget, hversion, hstatus, hprofile⟩, h.handoffs⟩

theorem Appending.observe {state : ExecutionRecord × Db} (h : Appending plan db state)
    (o : HandoffObservation) :
    ∃ db', Prod.snd <$> state.2.appendObservation plan.source.id o.source o.observation
      o.evidenceRefs o.sourceRef state.2.newObservationId = .ok db' ∧
      Appending plan db (state.1, db') := by
  obtain ⟨row, hrow, hrest⟩ := h.row
  obtain ⟨record, observations, happend⟩ := Db.appendObservation_new
    (by rw [hrow]; rfl) o.source o.observation o.evidenceRefs o.sourceRef
  refine ⟨_, map_eq_ok.mpr ⟨_, happend, rfl⟩, ?_⟩
  exact ⟨h.steps, h.id, h.stateVersion, h.status, h.profile, ⟨row, hrow, hrest⟩, h.handoffs⟩

theorem Appending.returns {start : Db} (h : Appending plan db (plan.source, start)) :
    ∃ state, appendProgress plan start = .ok state ∧ Appending plan db state := by
  obtain ⟨⟨source, db1⟩, hsteps, hone⟩ := foldlM_returns (l := plan.request.completedSteps)
    (fun state step _ hstate => Appending.step hstate step) h
  have hobservations := foldlM_returns (l := plan.request.observations)
    (I := fun db2 => Appending plan db (source, db2)) (b := db1)
    (fun db2 o _ hdb2 => Appending.observe hdb2 o) hone
  obtain ⟨db2, hfold, htwo⟩ := hobservations
  refine ⟨(source, db2), ?_, htwo⟩
  simp only [appendProgress, bind_eq_ok, pure_eq_ok]
  refine ⟨(source, db1), hsteps, db2, ?_, rfl⟩
  have hid : source.id = plan.source.id := hone.id
  rw [← hfold]
  dsimp only
  rw [hid]

theorem createTarget_returns {goal : String} {target : ExecutionId}
    (snapshotId : Option SnapshotId) (grantId : Option GrantId) (now : Instant)
    (hgoal : stripped goal ≠ "") (hrow : db.getExecution execution.id = some execution)
    (hfree : db.getExecution target = none) :
    ∃ record db', db.createExecution execution.sessionId .actionRun goal none (some execution.id)
        snapshotId grantId target now = .ok (record, db') ∧
      db'.getExecution execution.id = some execution ∧ db'.handoffs = db.handoffs ∧
      db'.steps = db.steps := by
  rw [Db.createExecution_of_goal hgoal]
  let record : ExecutionRecord :=
    { id := target, sessionId := execution.sessionId, profile := .actionRun
      rootExecutionId := execution.rootExecutionId, parentExecutionId := some execution.id
      snapshotId, grantId, clientRequestId := none, goal := stripped goal
      status := initialExecutionStatus .actionRun, createdAt := now
      statusDeclared := initialExecutionStatus_declared .actionRun }
  have hinsertable : db.executions.Free record := fun e he =>
    ⟨fun hkey => Table.get_eq_none.mp hfree e he hkey, Or.inl rfl⟩
  obtain ⟨executions, hinsert⟩ := Table.insert_isSome hinsertable
  have hroot : db.rootExecution execution.sessionId target (some execution.id) =
      .ok execution.rootExecutionId := by
    simp only [Db.rootExecution, Db.getExecutionRequired, bind_eq_ok, require_eq_ok,
      ensure_eq_ok, pure_eq_ok]
    exact ⟨execution, hrow, (), rfl, rfl⟩
  let event : EventRecord :=
    { executionId := target, stateVersion := 1, eventType := "execution.created"
      phase := record.status, status := record.status }
  refine ⟨record, { db with executions, events := db.events ++ [event] }, ?_, ?_, rfl, rfl⟩
  · simp only [bind_eq_ok, require_eq_ok, pure_eq_ok]
    exact ⟨execution.rootExecutionId, hroot, executions, hinsert, rfl⟩
  · have hne : execution.id ≠ target := by
      rintro rfl
      rw [hfree] at hrow
      cases hrow
    exact (Table.get_insert hinsert execution.id).trans ((if_neg hne).trans hrow)

theorem createHandoff_returns {envelope : HandoffEnvelope}
    (hsource : db.getHandoffBySource envelope.parentExecutionId = none)
    (hfree : db.handoffs.get envelope.handoffId = none)
    (htarget : ∀ r ∈ db.handoffs.rows, r.targetExecutionId ≠ envelope.targetExecutionId) :
    ∃ record handoffs, db.createHandoff envelope = .ok (record, { db with handoffs }) := by
  let record : HandoffRecord :=
    { id := envelope.handoffId
      sourceExecutionId := envelope.parentExecutionId
      targetExecutionId := envelope.targetExecutionId
      snapshotId := envelope.contextSnapshotId
      grantId := envelope.grantId
      envelope }
  have hinsertable : db.handoffs.Free record := fun r hr =>
    ⟨fun hkey => Table.get_eq_none.mp hfree r hr hkey,
      Or.inr fun hsame => Table.getUnique_eq_none.mp hsource r hr hsame⟩
  obtain ⟨handoffs, hinsert⟩ := Table.insert_isSome hinsertable
  refine ⟨record, handoffs, ?_⟩
  unfold Db.createHandoff
  rw [hsource]
  simp only [bind_eq_ok, ensure_eq_ok, require_eq_ok, pure_eq_ok]
  exact ⟨(), htarget, handoffs, hinsert, rfl⟩

/-- What a plan is for an undisturbed source. -/
structure HandoffPlan.OfTurn (plan : HandoffPlan) (execution : ExecutionRecord)
    (snapshot : ContextSnapshot) : Prop where
  source : plan.source = execution
  snapshot : plan.request.snapshot = snapshot
  stored : plan.snapshotStored = true
  version : plan.request.expectedStateVersion = execution.stateVersion
  grantRequest : plan.request.grantRequest = none
  goal : stripped plan.goal ≠ ""

theorem HandoffPlan.OfTurn.resolveGrant (hplan : plan.OfTurn execution snapshot) {id : GrantId} :
    Assistant.resolveGrant plan id db = .ok (plan.request.grantId, db) := by
  unfold Assistant.resolveGrant
  cases hgrant : plan.request.grantId with
  | none => rw [hplan.grantRequest]
  | some grantId => rfl

/-- The transaction of a plan goes through exactly where its envelope is a valid one. -/
theorem Undisturbed.commit (h : Undisturbed db execution snapshot) (hids : ids.New db)
    (hplan : plan.OfTurn execution snapshot) :
    Succeeds (commitHandoff plan ids now db) ↔
      checkEnvelope (handoffEnvelope plan ids plan.request.grantId) = .ok () := by
  have hfreeze : freezeSnapshot plan db = .ok db := by
    rw [freezeSnapshot, if_pos hplan.stored]
  have hgrant : resolveGrant plan ids.grant db = .ok (plan.request.grantId, db) :=
    hplan.resolveGrant
  constructor
  · rintro ⟨⟨commit, db'⟩, hcommit⟩
    simp only [commitHandoff, bind_eq_ok, pure_eq_ok, Prod.mk.injEq, Prod.exists] at hcommit
    obtain ⟨db1, hone, grantId, db2, htwo, target, db3, -, source, db4, -, u, hchecked, -⟩ :=
      hcommit
    obtain rfl : db = db1 := Except.ok.inj (hfreeze.symm.trans hone)
    obtain ⟨rfl, -⟩ := Prod.mk.inj (Except.ok.inj (hgrant.symm.trans htwo))
    exact hchecked
  · intro hchecked
    have hsource := hplan.source
    obtain ⟨target, db3, hcreate, hrow, hhandoffs, hsteps⟩ :=
      createTarget_returns (some plan.request.snapshot.id) plan.request.grantId now hplan.goal
        h.row hids.target
    have hstart : Appending plan db (plan.source, db3) := by
      rw [hsource]
      refine ⟨?_, ?_, ?_, ?_, ?_, ?_, hhandoffs⟩
      · intro s hs
        rw [hsteps] at hs
        exact h.steps s hs
      all_goals rw [hsource]
      exact ⟨execution, hrow, rfl, rfl, rfl⟩
    obtain ⟨⟨source, db4⟩, hprogress, hfour⟩ := hstart.returns
    have hhandoffs4 : db4.handoffs = db.handoffs := hfour.handoffs
    have hcreated : ∃ record handoffs, db4.createHandoff
        (handoffEnvelope plan ids plan.request.grantId) = .ok (record, { db4 with handoffs }) := by
      refine createHandoff_returns ?_ ?_ ?_
      · show db4.getHandoffBySource plan.source.id = none
        rw [Db.getHandoffBySource, hhandoffs4, hsource]
        exact h.unrecorded
      · rw [hhandoffs4]
        exact hids.handoff
      · intro r hr
        rw [hhandoffs4] at hr
        obtain ⟨t, ht, -⟩ := h.good.once.target r hr
        intro heq
        rw [heq] at ht
        exact absurd (ht.symm.trans hids.target) (by simp)
    obtain ⟨record, handoffs, hhandoff⟩ := hcreated
    obtain ⟨row, hrow4, hversion4, hstatus4, hprofile4⟩ := hfour.row
    have hdecl : Declared row.profile .handedOff := by
      rw [hprofile4, hsource, h.profile]
      decide
    have hmoved : ∃ moved db5, ({ db4 with handoffs }).transitionExecutionFrom source
        (handoffTransition plan ids now) = .ok (moved, db5) := by
      refine ⟨_, _, Db.transitionExecutionFrom_eq_ok.mpr ⟨row, ?_, ?_, ?_, ?_, ?_, ?_, hdecl, rfl,
        rfl⟩⟩
      · rw [hfour.id]
        exact hrow4
      · show source.stateVersion = plan.request.expectedStateVersion
        rw [hplan.version, ← hsource]
        exact hfour.stateVersion
      · show row.stateVersion = plan.request.expectedStateVersion
        rw [hplan.version, ← hsource]
        exact hversion4
      · exact hstatus4.trans hfour.status.symm
      · exact hprofile4.trans hfour.profile.symm
      · refine Or.inr ?_
        rw [hprofile4, hstatus4, hsource, h.profile]
        exact h.capable
    obtain ⟨moved, db5, htransition⟩ := hmoved
    unfold commitHandoff
    simp only [hfreeze, hgrant, hsource, hcreate, hprogress, hchecked, hhandoff, htransition,
      ok_bind]
    exact succeeds_ok _

/-- A decision to hand off that a turn acts on: read from an answer and accepted, or its own. -/
inductive Planned (limits : PlannerLimits) (request : FastTurnRequest) (snapshot : ContextSnapshot)
    (observations : List PlanningObservation) : HandoffDecision → Prop
  | parsed {decision : HandoffDecision} (tools : List AvailableTool)
      (allowedCandidateIds : List String) (content : String) (finishReason : Option String)
      (h : limits.parseAndValidate .fastTurn tools
        (limits.allowedEvidence snapshot.evidenceRefs observations) allowedCandidateIds content
        finishReason = .ok (.handoff decision)) :
          Planned limits request snapshot observations decision
  | built {decision : HandoffDecision} (decisionSummary text : String)
      (h : HandoffDecision.ofRequest request snapshot decisionSummary text = some decision) :
      Planned limits request snapshot observations decision

/-- What the service asks of the decision of a turn. -/
structure Executable (db : Db) (request : FastTurnRequest) (snapshot : ContextSnapshot)
    (decision : HandoffDecision) : Prop where
  reason : ∀ ref ∈ decision.reason.evidenceRefs, ref ∈ snapshot.evidenceRefs
  grant : GrantCovers db snapshot.sessionId decision.handoffGoal request.grantId
  scope : ∀ clientRequestId ∈ request.clientRequestId, clientRequestId.length ≤ 245

variable {limits : PlannerLimits} {turn : FastTurnRequest} {decision : HandoffDecision}
  {observations : List PlanningObservation} {w : TurnWorld}

theorem Planned.visible (h : Planned limits turn snapshot observations decision) :
    joinedWords decision.handoffGoal ≠ "" := by
  cases h with
  | parsed tools candidateIds content finishReason h =>
    exact handoff_of_parseAgentDecision (PlannerLimits.of_parseAndValidate h)
  | built summary text h =>
    unfold HandoffDecision.ofRequest at h
    split at h
    · cases h
    · split_ifs at h
      cases h
      show joinedWords turn.goal ≠ ""
      rw [turn.goal_joined]
      intro hempty
      have hlength := turn.goal_length.1
      rw [hempty] at hlength
      cases hlength

/-- The request of a decision passes its own checks where the reason cites the snapshot. -/
theorem checkRequest_eq_ok (hvisible : joinedWords decision.handoffGoal ≠ "") {goal : String} :
    checkRequest (w.handoffRequest turn execution snapshot decision) = .ok goal ↔
      (∀ ref ∈ decision.reason.evidenceRefs, ref ∈ snapshot.evidenceRefs) ∧
        goal = joinedWords decision.handoffGoal := by
  simp only [checkRequest, bind_eq_ok, ensure_eq_ok, pure_eq_ok]
  constructor
  · rintro ⟨_, -, _, -, _, hrefs, rfl⟩
    exact ⟨hrefs, rfl⟩
  · rintro ⟨hrefs, rfl⟩
    exact ⟨(), hvisible, (), Or.inr rfl, (), hrefs, rfl⟩

/-- The plan of a decision. -/
def TurnWorld.handoffPlan (w : TurnWorld) (turn : FastTurnRequest) (execution : ExecutionRecord)
    (snapshot : ContextSnapshot) (decision : HandoffDecision) : HandoffPlan where
  request := w.handoffRequest turn execution snapshot decision
  goal := joinedWords decision.handoffGoal
  source := execution
  snapshotStored := true

/-- The envelope of a plan is valid where the client's identifier leaves room for its prefix. -/
theorem checkEnvelope_eq_ok (hid : (toString execution.id).length ≤ 36) {grantId : Option GrantId} :
    checkEnvelope (handoffEnvelope (w.handoffPlan turn execution snapshot decision) ids grantId) =
        .ok () ↔
      ∀ clientRequestId ∈ turn.clientRequestId, clientRequestId.length ≤ 245 := by
  have hprefixed : ∀ s : String, ("fast-turn:" ++ s) ≠ "" ∧
      (("fast-turn:" ++ s).length ≤ maxIdempotencyScopeChars ↔ s.length ≤ 245) := by
    intro s
    have hlength : ("fast-turn:" ++ s).length = 10 + s.length := by
      rw [String.length_append]
      rfl
    refine ⟨fun hempty => ?_, ?_⟩
    · rw [hempty] at hlength
      have hzero : "".length = 0 := rfl
      omega
    · rw [hlength, maxIdempotencyScopeChars]
      omega
  have hscope : ∀ s : String,
      (w.handoffRequest turn execution snapshot decision).idempotencyScope =
        some ("fast-turn:" ++ s) →
      (checkEnvelope (handoffEnvelope (w.handoffPlan turn execution snapshot decision)
        ids grantId) =
        .ok () ↔ s.length ≤ 245) := by
    intro s hs
    obtain ⟨hne, hle⟩ := hprefixed s
    have henvelope : (handoffEnvelope (w.handoffPlan turn execution snapshot decision) ids
        grantId).idempotencyScope = "fast-turn:" ++ s := by
      simp only [handoffEnvelope, TurnWorld.handoffPlan, hs, Option.filter_some, hne, ne_eq,
        not_false_eq_true, decide_true, if_true, Option.getD_some]
    simp only [checkEnvelope, henvelope, bind_eq_ok, ensure_eq_ok, hle]
    exact ⟨fun hs => hs.choose_spec.2, fun hs => ⟨(), hne, hs⟩⟩
  cases hclient : turn.clientRequestId with
  | none =>
    rw [hscope (toString execution.id) (by rw [TurnWorld.handoffRequest, hclient]; rfl)]
    simp only [Option.mem_def, reduceCtorEq, false_implies, implies_true, iff_true]
    omega
  | some clientRequestId =>
    rw [hscope clientRequestId (by rw [TurnWorld.handoffRequest, hclient]; rfl)]
    simp

/-- The service accepts a decision that a turn acts on, for a source that nobody else changes,
exactly where its reason cites evidence of the snapshot, the grant covers its goal, and the
identifier of the client is short enough. -/
theorem handoff_accepted (hplanned : Planned limits turn snapshot observations decision)
    (h : Undisturbed w.db execution snapshot) (hid : (toString execution.id).length ≤ 36)
    (hids : ids.New w.db) :
    Succeeds (handoff (w.handoffRequest turn execution snapshot decision) ids now w.db) ↔
      Executable w.db turn snapshot decision := by
  have hvisible := hplanned.visible
  have hrun : (readHandoff (w.handoffRequest turn execution snapshot decision)).run w.db = _ :=
    h.read rfl rfl rfl
  have hof : (w.handoffPlan turn execution snapshot decision).OfTurn execution snapshot :=
    ⟨rfl, rfl, rfl, rfl, rfl, (joinedWords_visible hvisible).2⟩
  have hcommit : Succeeds (commitHandoff (w.handoffPlan turn execution snapshot decision) ids now
      w.db) ↔ _ := h.commit hids hof
  rw [checkEnvelope_eq_ok hid] at hcommit
  constructor
  · rintro ⟨result, hresult⟩
    unfold handoff at hresult
    rw [hrun] at hresult
    split at hresult
    · rename_i commit hread
      simp only [bind_eq_ok, pure_eq_ok] at hread
      obtain ⟨_, -, _, -, hread⟩ := hread
      cases hread
    · rename_i plan hread
      simp only [bind_eq_ok, pure_eq_ok] at hread
      obtain ⟨goal, hgoal, u, hgrant, hplan⟩ := hread
      obtain ⟨hrefs, rfl⟩ := (checkRequest_eq_ok hvisible).mp hgoal
      cases hplan
      have hcovers := checkGrant_eq_ok.mp hgrant
      rw [h.session] at hcovers
      exact ⟨hrefs, hcovers, hcommit.mp ⟨result, hresult⟩⟩
    · cases hresult
  · intro hexecutable
    have hgoal : checkRequest (w.handoffRequest turn execution snapshot decision) =
        .ok (joinedWords decision.handoffGoal) :=
      (checkRequest_eq_ok hvisible).mpr ⟨hexecutable.reason, rfl⟩
    have hcovers := hexecutable.grant
    rw [← h.session] at hcovers
    have hgrant := (checkGrant_eq_ok (u := ())).mpr hcovers
    have hread : (readHandoff (w.handoffRequest turn execution snapshot decision)).run w.db =
        .ok (.inr (w.handoffPlan turn execution snapshot decision)) := by
      rw [hrun, hgoal, ok_bind]
      exact bind_eq_ok.mpr ⟨(), hgrant, rfl⟩
    unfold handoff
    rw [hread]
    exact hcommit.mpr hexecutable.scope

def citedSnapshot : ContextSnapshot where
  id := 1
  sessionId := 1
  evidenceRefs := ["user_goal"]
  evidenceMessages := [{ messageKind := "user_input", actorId := "local-user" }]

def citingExecution : ExecutionRecord where
  id := 1
  sessionId := 1
  profile := .fastTurn
  rootExecutionId := 1
  snapshotId := some 1
  goal := "follow up"
  status := .executingReads
  stateVersion := 4
  createdAt := 0
  statusDeclared := by decide

def citingTurn : FastTurnRequest where
  sessionId := 1
  goal := "follow up"
  allowHandoff := true
  goal_joined := by decide
  goal_length := by decide

def citingWorld : TurnWorld where
  db := {
    executions := (Table.empty.insert citingExecution).getD .empty
    snapshots := (Table.empty.insert citedSnapshot).getD .empty }
  stage := .deciding 2
  executionId := some 1
  progress := {
    snapshot := some citedSnapshot
    observations := [{
      source := .tool
      observation := .obj [("summary", .str "meeting.search returned succeeded")]
      evidenceRefs := ["user_goal"]
      sourceRef := some 7 }] }

def citedObservation : PlanningObservation where
  observationId := "fastobs_7"
  source := .tool
  summary := "meeting.search returned succeeded"
  evidenceRefs := ["user_goal"]

def handoffFields (evidenceRefs : List String) : Fields := [
  ("kind", .str "handoff"),
  ("decision_summary", .str "hand off"),
  ("handoff_goal", .str "follow up"),
  ("reason", .obj [
    ("text", .str "more work"), ("evidence_refs", .arr (evidenceRefs.map .str))])]

theorem singleton_cited (ref : String) : [ref] ≠ [] := List.cons_ne_nil _ _

def handoffCiting (ref : String) : HandoffDecision where
  decisionSummary := "hand off"
  handoffGoal := "follow up"
  reason := { text := "more work", evidenceRefs := [ref] }
  goal_length := by decide
  reason_cited := singleton_cited ref

theorem citingWorld_undisturbed : Undisturbed citingWorld.db citingExecution citedSnapshot := by
  have hrow : ∀ id e, citingWorld.db.getExecution id = some e → e = citingExecution := by
    intro id e he
    exact List.mem_singleton.mp (Table.mem_of_get he)
  refine ⟨⟨⟨?_, ?_, ?_, ?_⟩, ?_⟩, rfl, rfl, by decide, rfl, rfl, rfl, ?_⟩
  · exact fun r hr => absurd hr List.not_mem_nil
  · exact fun r hr => absurd hr List.not_mem_nil
  · intro id e he hstatus
    rw [hrow id e he] at hstatus
    cases hstatus
  · intro id e he p hp
    rw [hrow id e he] at hp
    cases hp
  · exact fun r hr => absurd hr List.not_mem_nil
  · exact fun s hs => absurd hs List.not_mem_nil

/-- An answer whose text is that of its fields, and whose evidence is offered, is accepted. -/
theorem planned_of_fields {fields : Fields} (tools : List AvailableTool)
    (hunique : (JsonValue.obj fields).Unique)
    (hblank : (JsonText.dumps (.obj fields)).any (fun c => !isSpace c) = true)
    (hdecision : agentDecision fields = some (.handoff decision))
    (hcandidates : decision.candidateIds = [])
    (hrefs : ∀ ref ∈ decision.reason.evidenceRefs,
      ref ∈ limits.allowedEvidence snapshot.evidenceRefs observations) :
    Planned limits turn snapshot observations decision := by
  refine .parsed tools [] (String.ofList (JsonText.dumps (.obj fields))) none ?_
  have hloads : JsonText.loads (JsonText.dumps (.obj fields)) = some (.obj fields) := by
    have hread := JsonText.loads_dumps hunique [] (fun c hc => absurd hc List.not_mem_nil)
    rwa [List.append_nil] at hread
  have hnotBlank : notBlank (String.ofList (JsonText.dumps (.obj fields))) = true := by
    have hvisible := stripped_ne_empty (s := String.ofList (JsonText.dumps (.obj fields)))
      (by rw [String.toList_ofList]; exact hblank)
    simpa [notBlank] using hvisible
  have hparsed : parseAgentDecision (String.ofList (JsonText.dumps (.obj fields)))
      (limits.allowedEvidence snapshot.evidenceRefs observations)
        (tools.map AvailableTool.name) [] =
        .ok (.handoff decision) := by
    simp only [parseAgentDecision, bind_eq_ok, ensure_eq_ok, require_eq_ok, pure_eq_ok,
      String.toList_ofList, foreign_eq_nil]
    refine ⟨(), hnotBlank, _, hloads, fields, rfl, _, hdecision, (), hrefs, (), rfl, (), ?_, rfl⟩
    show foreign decision.candidateIds [] = []
    rw [hcandidates]
    rfl
  simp only [PlannerLimits.parseAndValidate, PlannerLimits.checkProfile, bind_eq_ok, ensure_eq_ok,
    pure_eq_ok]
  exact ⟨(), by simp, _, hparsed, (), by simp, rfl⟩

theorem handoffFields_unique (ref : String) : (JsonValue.obj (handoffFields [ref])).Unique := by
  refine .obj ?_ ?_
  · exact (by decide : ["kind", "decision_summary", "handoff_goal", "reason"].Nodup)
  · simp only [handoffFields, List.forall_mem_cons, List.map_cons, List.map_nil,
      List.not_mem_nil, false_implies, implies_true, and_true]
    refine ⟨.str _, .str _, .str _, .obj ?_ ?_⟩
    · exact (by decide : ["text", "evidence_refs"].Nodup)
    · simp only [List.forall_mem_cons, List.not_mem_nil, false_implies, implies_true, and_true]
      refine ⟨.str _, .arr ?_⟩
      simp only [List.forall_mem_cons, List.not_mem_nil, false_implies, implies_true, and_true]
      exact .str _

theorem handoffFields_visible (ref : String) :
    (JsonText.dumps (.obj (handoffFields [ref]))).any (fun c => !isSpace c) = true := rfl

theorem citing_planned (ref : String) (hdecision : agentDecision (handoffFields [ref]) =
      some (.handoff (handoffCiting ref)))
    (hallowed : ref ∈ PlannerLimits.allowedEvidence {} citedSnapshot.evidenceRefs
      [citedObservation]) :
    Planned {} citingTurn citedSnapshot [citedObservation] (handoffCiting ref) := by
  apply planned_of_fields [] (handoffFields_unique ref) (handoffFields_visible ref) hdecision rfl
  intro ref' href
  rw [List.mem_singleton.mp href]
  exact hallowed

theorem citingIds_new : HandoffIds.New ⟨1, 2, 1⟩ citingWorld.db := ⟨rfl, rfl⟩

/-- An answer that cites what a tool has returned in the turn is accepted, and the service refuses
its decision though nobody has changed the database. -/
theorem cited_observation_rejected :
    Planned {} citingTurn citedSnapshot [citedObservation] (handoffCiting "fastobs_7") ∧
    Undisturbed citingWorld.db citingExecution citedSnapshot ∧
    HandoffIds.New ⟨1, 2, 1⟩ citingWorld.db ∧
    handoff (citingWorld.handoffRequest citingTurn citingExecution citedSnapshot
        (handoffCiting "fastobs_7")) ⟨1, 2, 1⟩ 5 citingWorld.db =
      .error (.value "handoff reason references unavailable evidence") := by
  refine ⟨citing_planned "fastobs_7" rfl (by decide), citingWorld_undisturbed, citingIds_new, ?_⟩
  rfl

/-- The same answer is executed where it cites the goal of the turn. -/
theorem cited_goal_accepted :
    Succeeds (handoff (citingWorld.handoffRequest citingTurn citingExecution citedSnapshot
      (handoffCiting "user_goal")) ⟨1, 2, 1⟩ 5 citingWorld.db) := by
  have hplanned := citing_planned "user_goal" rfl (by decide)
  apply (handoff_accepted hplanned citingWorld_undisturbed (by decide) citingIds_new).mpr
  refine ⟨?_, ?_, ?_⟩
  · decide
  · exact fun id hid => absurd hid (by simp [citingTurn])
  · exact fun clientRequestId hid => absurd hid (by simp [citingTurn])

end Assistant
end Matinier
