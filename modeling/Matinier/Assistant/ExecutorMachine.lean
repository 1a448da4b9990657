import Matinier.Foundation.Machine
import Matinier.Assistant.Tools.ExecutorSpec
import Matinier.Assistant.Api

/-!
# Interleavings of executor calls

Any number of `execute` and `reconcile` calls are under way at once. Each step of
the machine is one committed transaction or one adapter call: the first
transaction of a call, the adapter's answer, the second transaction, the loss of
a call or of all of them in a crash, or a transaction of the rest of the service.
The machine also keeps, for the statements only, which adapter calls were made
and which call consumed a side effect of which grant.
-/

namespace Matinier
namespace Assistant

/-- The database, the calls under way before and after their adapter call, and the ghosts. -/
structure ExecutorWorld where
  db : Db
  requested : List Flight := []
  answered : List (Flight × AdapterAnswer) := []
  called : List Flight := []
  spent : List (ToolCallId × GrantId) := []

/-- What the rest of the service commits. -/
inductive ServiceAction where
  | createExecution (sessionId : SessionId) (profile : ExecutionProfile) (goal : String)
      (clientRequestId : Option String) (parent : Option ExecutionId)
      (snapshotId : Option SnapshotId) (grantId : Option GrantId) (id : ExecutionId)
      (createdAt : Instant)
  | transition (id : ExecutionId) (request : TransitionRequest)
  | appendStep (executionId : ExecutionId) (kind : StepKind) (output : Option PlannerOutcome)
      (summary : Option String) (id : StepId)
  | createGrant (draft : GrantDraft) (id : GrantId)
  | changeGrant (id : GrantId) (target : GrantStatus) (expected : Option GrantStatus)
      (now : Instant)
  | requestApproval (draft : ApprovalDraft) (id : ApprovalId)
  | submitInput (executionId : ExecutionId) (version operation : ℕ) (input : String)
      (now : Instant)
  | cancel (executionId : ExecutionId) (version : ℕ) (now : Instant)
  | approve (executionId : ExecutionId) (approvalId : ApprovalId) (version : ℕ)
      (grantId : GrantId) (ttl : ℕ) (now : Instant)
  | reject (executionId : ExecutionId) (approvalId : ApprovalId) (version : ℕ) (now : Instant)
  | recover (cfg : RecoveryConfig) (now : Instant)
  | isolate (id : ExecutionId) (now : Instant)
  | takeUp (id : ExecutionId) (now : Instant)
  | failLocal (id : ToolCallId) (now : Instant)

def ServiceAction.commit (db : Db) : ServiceAction → Except Fault Db
  | .createExecution sessionId profile goal clientRequestId parent snapshotId grantId id
      createdAt =>
    Prod.snd <$> db.createExecution sessionId profile goal clientRequestId parent snapshotId
      grantId id createdAt
  | .transition id request => Prod.snd <$> db.transitionExecution id request
  | .appendStep executionId kind output summary id =>
    Prod.snd <$> db.appendStep executionId kind output summary id
  | .createGrant draft id => Prod.snd <$> db.createGrant draft id
  | .changeGrant id target expected now =>
    Prod.snd <$> db.transitionGrantStatus id target expected now
  | .requestApproval draft id => Prod.snd <$> db.createPendingActionApproval draft id
  | .submitInput executionId version operation input now =>
    Prod.snd <$> submitAssistantInput executionId version operation input now db
  | .cancel executionId version now =>
    Prod.snd <$> cancelAssistantExecution executionId version now db
  | .approve executionId approvalId version grantId ttl now =>
    Prod.snd <$> approveAssistantAction executionId approvalId version grantId ttl now db
  | .reject executionId approvalId version now =>
    Prod.snd <$> rejectAssistantAction executionId approvalId version now db
  | .recover cfg now => RecoveryState.db <$> recoverDurable cfg now db
  | .isolate id now => Prod.snd <$> isolateExecution id now db
  | .takeUp id now => Prod.snd <$> takeUpCalls id now db
  | .failLocal id now => do
    let call ← db.getToolCallRequired id
    -- The runner asks for input instead where the call is an external write.
    ensure (call.effect ≠ .externalWrite) (.value "an external write is not a local tool")
    Prod.snd <$> failUnreconcilableLocalTool call now db

inductive ExecutorAction where
  | execute (input : ExecuteInput)
  | reconcile (toolCallId : ToolCallId) (evidenceRefs : List String) (now : Instant)
  | callAdapter (flight : ℕ) (answer : AdapterAnswer)
  | persist (flight : ℕ) (now : Instant)
  | abandonRequested (flight : ℕ)
  | abandonAnswered (flight : ℕ)
  | crash
  | service (action : ServiceAction)

/-- The side effect a requested call consumed. -/
def spending (flight : Flight) : List (ToolCallId × GrantId) :=
  if flight.tool.spec.effect = .externalWrite then
    (flight.context.grant.map fun grant => (flight.context.toolCallId, grant.record.id)).toList
  else []

namespace ExecutorWorld

/-- The second transaction of an answered call; a fault rolls it back. -/
def settle (w : ExecutorWorld) (flight : Flight) (answer : AdapterAnswer) (now : Instant) : Db :=
  match adapterResult flight answer with
  | .error _ => w.db
  | .ok result =>
    match persistResult flight result now w.db.newObservationId w.db with
    | .error _ => w.db
    | .ok (_, db) => db

/-- One step. A transaction that raises leaves the database as it was. -/
def next (cfg : ExecutorConfig) (w : ExecutorWorld) : ExecutorAction → Option ExecutorWorld
  | .execute input =>
    match beginExecute cfg input w.db with
    | .ok (.requested flight, db) =>
      some { w with
        db, requested := w.requested ++ [flight], spent := w.spent ++ spending flight }
    | _ => some w
  | .reconcile toolCallId evidenceRefs now =>
    match beginReconcile cfg toolCallId evidenceRefs now w.db with
    | .ok (.requested flight, db) => some { w with db, requested := w.requested ++ [flight] }
    | _ => some w
  | .callAdapter i answer =>
    (w.requested[i]?).map fun flight =>
      { w with
        requested := w.requested.eraseIdx i
        answered := w.answered ++ [(flight, answer)]
        called := w.called ++ [flight] }
  | .persist i now =>
    (w.answered[i]?).map fun (flight, answer) =>
      { w with db := w.settle flight answer now, answered := w.answered.eraseIdx i }
  | .abandonRequested i => some { w with requested := w.requested.eraseIdx i }
  | .abandonAnswered i => some { w with answered := w.answered.eraseIdx i }
  | .crash => some { w with requested := [], answered := [] }
  | .service action =>
    match action.commit w.db with
    | .ok db => some { w with db }
    | .error _ => some w

abbrev Steps (cfg : ExecutorConfig) : ExecutorWorld → ExecutorAction → ExecutorWorld → Prop :=
  fun w a w' => w.next cfg a = some w'

def Idle (w : ExecutorWorld) : Prop :=
  w.requested = [] ∧ w.answered = [] ∧ w.called = [] ∧ w.spent = []

/-- What one step can do. -/
inductive Stepped (cfg : ExecutorConfig) (w : ExecutorWorld) :
    ExecutorAction → ExecutorWorld → Prop
  | background {a : ExecutorAction} (db : Db) (h : Background w.db db) :
      Stepped cfg w a { w with db }
  | executed {a : ExecutorAction} (request : ToolInvocation) (tool : RegisteredTool)
      (execution : ExecutionRecord) (flight : Flight) (call : ToolCallRecord) (db : Db)
      (registered : cfg.registry.find request.toolName = some tool)
      (h : Requested w.db db tool request execution flight call) :
      Stepped cfg w a { w with
        db, requested := w.requested ++ [flight], spent := w.spent ++ spending flight }
  | reconciled {a : ExecutorAction} (tool : RegisteredTool) (flight : Flight)
      (call : ToolCallRecord) (claim : Option ClaimRecord) (db : Db)
      (registered : cfg.registry.find call.toolName = some tool)
      (h : ReconcileRequested w.db db tool flight call claim) :
      Stepped cfg w a { w with db, requested := w.requested ++ [flight] }
  | called {a : ExecutorAction} (i : ℕ) (flight : Flight) (answer : AdapterAnswer)
      (h : w.requested[i]? = some flight) :
      Stepped cfg w a { w with
        requested := w.requested.eraseIdx i
        answered := w.answered ++ [(flight, answer)]
        called := w.called ++ [flight] }
  | persisted {now : Instant} (i : ℕ) (flight : Flight) (answer : AdapterAnswer)
      (result : ToolResult) (call : ToolCallRecord) (db : Db)
      (h : w.answered[i]? = some (flight, answer))
      (hresult : adapterResult flight answer = .ok result)
      (hpersisted : Persisted w.db db flight result call) :
      Stepped cfg w (.persist i now) { w with db, answered := w.answered.eraseIdx i }
  | lost {a : ExecutorAction} (requested : List Flight)
      (answered : List (Flight × AdapterAnswer)) (hrequested : requested.Sublist w.requested)
      (hanswered : answered.Sublist w.answered) : Stepped cfg w a { w with requested, answered }

end ExecutorWorld

theorem createExecution_background {db db' : Db} {sessionId : SessionId}
    {profile : ExecutionProfile} {goal : String} {clientRequestId : Option String}
    {parent : Option ExecutionId} {snapshotId : Option SnapshotId} {grantId : Option GrantId}
    {id : ExecutionId} {createdAt : Instant} {record : ExecutionRecord}
    (h : db.createExecution sessionId profile goal clientRequestId parent snapshotId grantId id
      createdAt = .ok (record, db')) : Background db db' := by
  unfold Db.createExecution at h
  simp only [bind_eq_ok] at h
  obtain ⟨_, -, h⟩ := h
  split at h
  · cases h
    exact .refl _
  · simp only [bind_eq_ok, require_eq_ok, pure_eq_ok, Prod.mk.injEq] at h
    obtain ⟨root, -, executions, hins, -, rfl⟩ := h
    exact .of_eq rfl rfl rfl fun k hk => Table.isSome_get_insert hins hk

theorem ServiceAction.commit_background {db db' : Db} {a : ServiceAction}
    (h : a.commit db = .ok db') : Background db db' := by
  cases a with
  | createExecution =>
    obtain ⟨⟨record, db⟩, hrun, rfl⟩ := map_eq_ok.mp h
    exact createExecution_background hrun
  | transition =>
    obtain ⟨⟨record, db⟩, hrun, rfl⟩ := map_eq_ok.mp h
    exact .of_moves (Db.transitionExecution_moves hrun)
  | appendStep =>
    obtain ⟨⟨record, db⟩, hrun, rfl⟩ := map_eq_ok.mp h
    obtain ⟨execution, -, -, steps, -, rfl⟩ := Db.appendStep_eq_ok.mp hrun
    exact .of_eq rfl rfl rfl fun k hk => (Table.isSome_get_set k).trans hk
  | createGrant =>
    obtain ⟨⟨record, db⟩, hrun, rfl⟩ := map_eq_ok.mp h
    exact createGrant_background hrun
  | changeGrant =>
    obtain ⟨⟨record, db⟩, hrun, rfl⟩ := map_eq_ok.mp h
    exact transitionGrantStatus_background hrun
  | requestApproval =>
    obtain ⟨⟨record, db⟩, hrun, rfl⟩ := map_eq_ok.mp h
    rcases Db.createPendingActionApproval_eq_ok.mp hrun with
      ⟨-, rfl⟩ | ⟨-, -, approvals, -, rfl⟩
    · exact .refl _
    · exact .of_eq rfl rfl rfl
  | submitInput =>
    obtain ⟨⟨record, db⟩, hrun, rfl⟩ := map_eq_ok.mp h
    exact submitAssistantInput_background hrun
  | cancel =>
    obtain ⟨⟨record, db⟩, hrun, rfl⟩ := map_eq_ok.mp h
    exact cancelAssistantExecution_background hrun
  | approve =>
    obtain ⟨⟨record, db⟩, hrun, rfl⟩ := map_eq_ok.mp h
    exact approveAssistantAction_background hrun
  | reject =>
    obtain ⟨⟨record, db⟩, hrun, rfl⟩ := map_eq_ok.mp h
    exact rejectAssistantAction_background hrun
  | recover =>
    obtain ⟨s, hrun, rfl⟩ := map_eq_ok.mp h
    exact recoverDurable_background hrun
  | isolate =>
    obtain ⟨⟨ids, db⟩, hrun, rfl⟩ := map_eq_ok.mp h
    exact isolateExecution_background hrun
  | takeUp =>
    obtain ⟨⟨calls, db⟩, hrun, rfl⟩ := map_eq_ok.mp h
    exact takeUpCalls_background hrun
  | failLocal id now =>
    unfold ServiceAction.commit Db.getToolCallRequired at h
    simp only [bind_eq_ok, require_eq_ok, ensure_eq_ok, map_eq_ok, Prod.exists] at h
    obtain ⟨call, hcall, _, hlocal, u, db, h, rfl⟩ := h
    refine failUnreconcilableLocalTool_background (fun row hrow => ?_) h
    obtain rfl : call.id = id := Table.key_of_get hcall
    obtain rfl : call = row := Option.some.inj (hcall.symm.trans hrow)
    exact hlocal

namespace ExecutorWorld

variable {cfg : ExecutorConfig} {w w' : ExecutorWorld} {a : ExecutorAction}

theorem Stepped.refl (w : ExecutorWorld) (a : ExecutorAction) : Stepped cfg w a w :=
  .background w.db (.refl _)

theorem settle_cases (w : ExecutorWorld) (flight : Flight) (answer : AdapterAnswer)
    (now : Instant) :
    w.settle flight answer now = w.db ∨
      ∃ result call, adapterResult flight answer = .ok result ∧
        Persisted w.db (w.settle flight answer now) flight result call := by
  unfold settle
  cases hresult : adapterResult flight answer with
  | error e => exact Or.inl rfl
  | ok result =>
    simp only
    cases hpersist : persistResult flight result now w.db.newObservationId w.db with
    | error e => exact Or.inl rfl
    | ok reply =>
      obtain ⟨reply, db⟩ := reply
      rcases persistResult_cases hpersist with ⟨call, -, -, rfl⟩ | ⟨call, -, hpersisted⟩
      · exact Or.inl rfl
      · exact Or.inr ⟨result, call, rfl, hpersisted⟩

theorem stepped_of_next (h : w.next cfg a = some w') : Stepped cfg w a w' := by
  cases a with
  | execute input =>
    simp only [next] at h
    split at h
    · rename_i flight db hbegin
      cases h
      rcases beginExecute_cases hbegin with ⟨r, hr, -⟩ |
        ⟨tool, execution, flight', call, hflight, htool, -, -, -, hreq⟩
      · cases hr
      · cases hflight
        exact .executed input.request tool execution flight call db htool hreq
    · cases h
      exact .refl w _
  | reconcile id refs now =>
    simp only [next] at h
    split at h
    · rename_i flight db hbegin
      cases h
      rcases beginReconcile_cases hbegin with ⟨r, hr, -⟩ |
        ⟨tool, flight', call, claim, hflight, -, htool, hreq⟩
      · cases hr
      · cases hflight
        exact .reconciled tool flight call claim db htool hreq
    · cases h
      exact .refl w _
  | callAdapter i answer =>
    obtain ⟨flight, hi, rfl⟩ := Option.map_eq_some_iff.mp h
    exact .called i flight answer hi
  | persist i now =>
    obtain ⟨⟨flight, answer⟩, hi, rfl⟩ := Option.map_eq_some_iff.mp h
    rcases settle_cases w flight answer now with hsame | ⟨result, call, hresult, hpersisted⟩
    · simp only [hsame]
      exact .lost w.requested _ (List.Sublist.refl _) (List.eraseIdx_sublist _ _)
    · exact .persisted i flight answer result call _ hi hresult hpersisted
  | abandonRequested i =>
    cases h
    exact .lost _ w.answered (List.eraseIdx_sublist _ _) (List.Sublist.refl _)
  | abandonAnswered i =>
    cases h
    exact .lost w.requested _ (List.Sublist.refl _) (List.eraseIdx_sublist _ _)
  | crash =>
    cases h
    exact .lost [] [] (List.nil_sublist _) (List.nil_sublist _)
  | service action =>
    simp only [next] at h
    split at h
    · rename_i db hcommit
      cases h
      exact .background db (action.commit_background hcommit)
    · cases h
      exact .refl w _

end ExecutorWorld

section Example

def fileTask : RegisteredTool where
  spec :=
    { name := "task.create"
      version := "1"
      capability := "task.create"
      effect := .externalWrite
      inputModel := some
      outputModel := some
      timeoutSeconds := 30
      supportsIdempotency := true
      supportsReconciliation := true
      allowedProfiles := [.actionRun]
      external_idempotent := fun _ => rfl
      external_reconcilable := fun _ => rfl
      external_profiles := fun _ => rfl }
  providerName := "linear"

def fileTaskConfig : ExecutorConfig where
  registry :=
    { find := fun name => if name = "task.create" then some fileTask else none
      name_eq := by
        intro name tool h
        split_ifs at h with hname
        cases h
        exact hname.symm }
  claimLeaseSeconds := 60
  canonicalArgumentsHash := fun _ => 0
  normalizedText := id

def fileTaskGrant : GrantRecord where
  id := 1
  sessionId := 1
  actorId := "local-user"
  goal := "file the task"
  capabilities := ["task.create"]
  resourceScope := .obj []
  candidateIds := []
  maxSideEffects := 1
  expiresAt := 1000

theorem executing_declared : Declared .actionRun .executing := by decide

def filingExecution (grantId : Option GrantId) : ExecutionRecord where
  id := 1
  sessionId := 1
  profile := .actionRun
  rootExecutionId := 1
  grantId := grantId
  goal := "file the task"
  status := .executing
  createdAt := 0
  statusDeclared := executing_declared

def filingWorld (grantId : Option GrantId) : ExecutorWorld where
  db :=
    { executions := (Table.empty.insert (filingExecution grantId)).getD .empty
      grants := (Table.empty.insert fileTaskGrant).getD .empty }

def fileTaskInput (grantId : Option GrantId) : ExecuteInput where
  request :=
    { executionId := 1
      toolName := "task.create"
      arguments := .obj []
      grantId
      logicalActionKey := some "file-the-task"
      idempotencyKey := some "grant-1:file-the-task" }
  now := 1
  toolCallId := 1
  claimId := 1

/-- The task is filed: the call is requested, answered with the result and persisted. -/
def fileTaskTrace (grantId : Option GrantId) (result : ToolResult) : List ExecutorAction :=
  [.execute (fileTaskInput grantId), .callAdapter 0 (.result result), .persist 0 2]

end Example

end Assistant
end Matinier
