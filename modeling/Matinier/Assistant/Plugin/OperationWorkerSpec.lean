import Matinier.Assistant.Plugin.OperationWorker

/-!
# What the workers' transactions do to operations

An operation that is admitted is new, and the plugin changes none that is there. A refresh
changes running operations only, each as its settled execution says.
-/

namespace Matinier
namespace Assistant

/-- An operation as its admission leaves it. -/
def Admitted (o : OperationRecord) : Prop := o.status = .accepted ∨ o.status = .completed

/-- Operations stay as they are; what is new is admitted. -/
def OperationsKept (operations operations' : Table OperationRecord) : Prop :=
  operations.Evolves Eq Admitted operations'

namespace OperationsKept

variable {operations operations' operations'' : Table OperationRecord}

theorem refl (operations : Table OperationRecord) : OperationsKept operations operations :=
  Table.Evolves.refl (fun _ => rfl) operations

theorem of_eq (h : operations' = operations) : OperationsKept operations operations' := by
  rw [h]
  exact refl operations

end OperationsKept

section Plugin

variable {db db' : MeetingDb}

theorem ensureSession_operations {legacySessionId : SessionId} {mediaSessionId : MediaSessionId}
    {pluginVersion : String} {row : PluginSessionRecord}
    (h : db.ensureSession legacySessionId mediaSessionId pluginVersion = .ok (row, db')) :
    db'.operations = db.operations := by
  simp only [MeetingDb.ensureSession, bind_eq_ok] at h
  obtain ⟨_, -, h⟩ := h
  split at h
  · simp only [bind_eq_ok, pure_eq_ok, Prod.mk.injEq] at h
    obtain ⟨_, -, -, rfl⟩ := h
    rfl
  · simp only [bind_eq_ok, require_eq_ok, pure_eq_ok, Prod.mk.injEq] at h
    obtain ⟨sessions, -, -, rfl⟩ := h
    rfl

theorem buildScope_operations {derived : Except Fault HostActionScope} {scope : HostActionScope}
    (h : db.buildScope derived = .ok (scope, db')) : db'.operations = db.operations := by
  simp only [MeetingDb.buildScope, bind_eq_ok] at h
  obtain ⟨_, -, _, -, h⟩ := h
  split at h
  · cases h
    rfl
  · simp only [bind_eq_ok, pure_eq_ok, Prod.exists, Prod.mk.injEq] at h
    obtain ⟨_, -, _, -, row, db₁, hensure, -, rfl⟩ := h
    exact ensureSession_operations hensure

theorem createCapabilityGrant_operations {scope scope' : HostActionScope}
    {id : CapabilityGrantId} {expiresAt : Instant}
    (h : db.createCapabilityGrant scope id expiresAt = .ok (scope', db')) :
    db'.operations = db.operations := by
  unfold MeetingDb.createCapabilityGrant at h
  split_ifs at h
  · simp only [bind_eq_ok, require_eq_ok, pure_eq_ok, Prod.mk.injEq] at h
    obtain ⟨grants, -, -, rfl⟩ := h
    rfl
  · cases h
    rfl

theorem createIntent_operations {tokenHash : Digest} {scope : HostActionScope}
    {createdAt expiresAt : Instant} {id : IntentId} {intent : IntentRecord}
    (h : db.createIntent tokenHash scope createdAt expiresAt id = .ok (intent, db')) :
    db'.operations = db.operations := by
  simp only [MeetingDb.createIntent, bind_eq_ok, require_eq_ok, pure_eq_ok, Prod.mk.injEq] at h
  obtain ⟨_, -, intents, -, -, rfl⟩ := h
  rfl

theorem consumeIntent_operations {tokenHash : Digest} {scope : HostActionScope} {now : Instant}
    {intent : IntentRecord} (h : db.consumeIntent tokenHash scope now = .ok (intent, db')) :
    db'.operations = db.operations := by
  simp only [MeetingDb.consumeIntent, bind_eq_ok, require_eq_ok, pure_eq_ok, Prod.mk.injEq] at h
  obtain ⟨row, -, _, -, -, rfl⟩ := h
  rfl

/-- What is carried out of an operation changes its status and its execution only. -/
theorem carryOut_operations {admission : Admission} {operation operation' : OperationRecord}
    {scope : HostActionScope} {expiresAt : Instant} (haccepted : operation.status = .accepted)
    (h : carryOut admission operation scope expiresAt db = .ok (operation', db')) :
    db'.operations = db.operations ∧ Admitted operation' ∧ Table.Replaces operation' operation := by
  unfold carryOut at h
  cases hargs : admission.arguments with
  | analysis => simp [hargs] at h
  | ask message =>
    simp only [hargs, startTurn, bind_eq_ok, pure_eq_ok, Prod.exists, Prod.mk.injEq] at h
    obtain ⟨execution, assistant, -, rfl, rfl⟩ := h
    exact ⟨rfl, Or.inl haccepted, rfl, Or.inr rfl⟩
  | execute message marks candidates =>
    simp only [hargs, startAction, bind_eq_ok, require_eq_ok, pure_eq_ok, Prod.exists,
      Prod.mk.injEq] at h
    obtain ⟨_, -, _, _, -, _, _, -, rfl, rfl⟩ := h
    exact ⟨rfl, Or.inl haccepted, rfl, Or.inr rfl⟩
  | mark digest =>
    simp only [hargs, Except.ok.injEq, Prod.mk.injEq] at h
    obtain ⟨rfl, rfl⟩ := h
    exact ⟨rfl, Or.inr rfl, rfl, Or.inr rfl⟩
  | input executionId version input =>
    simp only [hargs, submitContinuation, bind_eq_ok, pure_eq_ok, Prod.exists, Prod.mk.injEq] at h
    obtain ⟨_, -, _, _, -, _, _, -, rfl, rfl⟩ := h
    exact ⟨rfl, Or.inl haccepted, rfl, Or.inr rfl⟩
  | cancel executionId version =>
    simp only [hargs, cancelOwned, bind_eq_ok, pure_eq_ok, Prod.exists, Prod.mk.injEq] at h
    obtain ⟨_, -, _, -, _, _, -, rfl, rfl⟩ := h
    exact ⟨rfl, Or.inr rfl, rfl, Or.inr rfl⟩

theorem admit_operations {host : HostConfig} {admission : Admission} {operation : OperationRecord}
    (h : admitOperation host admission db = .ok (operation, db')) :
    OperationsKept db.operations db'.operations := by
  simp only [admitOperation, bind_eq_ok, ensure_eq_ok] at h
  obtain ⟨_, -, intent, -, _, -, h⟩ := h
  split at h
  · simp only [bind_eq_ok, pure_eq_ok, Prod.mk.injEq] at h
    obtain ⟨_, -, _, -, -, rfl⟩ := h
    exact .refl _
  · simp only [bind_eq_ok, pure_eq_ok, Prod.exists, Prod.mk.injEq] at h
    obtain ⟨_, -, rebuilt, db₁, hbuild, _, -, _, -, consumed, db₂, hconsume, accepted, db₃,
      haccept, carried, db₄, hcarry, rfl, rfl⟩ := h
    simp only [MeetingDb.acceptOperation, bind_eq_ok, require_eq_ok, pure_eq_ok,
      Prod.mk.injEq] at haccept
    obtain ⟨_, -, operations, hinsert, rfl, rfl⟩ := haccept
    obtain ⟨hkept, hadmitted, hfit⟩ := carryOut_operations rfl hcarry
    rw [consumeIntent_operations hconsume, buildScope_operations hbuild] at hinsert
    have hinserted := Table.Writes.of_insert hinsert
    have hset : Table.Writes operations (db₄.setOperation carried).operations carried := by
      rw [MeetingDb.setOperation, hkept]
      refine .of_set ?_ hfit
      rw [← hfit.1]
      exact hinserted.1
    refine .of_writes (fun _ => rfl) (hinserted.trans hset hfit.1.symm) (fun old hold => ?_)
      (fun _ => hadmitted)
    rw [← hfit.1, Table.get_none_of_insert hinsert] at hold
    cases hold

theorem confirm_operations {host : HostConfig} {c : Confirmation} {intent : IntentRecord}
    (h : confirm host c db = .ok (intent, db')) : OperationsKept db.operations db'.operations := by
  simp only [confirm, bind_eq_ok, Prod.exists] at h
  obtain ⟨built, db₁, hbuild, _, -, scope, db₂, hgrant, created, db₃, hintent, h⟩ := h
  have hcreated : db₃.operations = db.operations := (createIntent_operations hintent).trans
    ((createCapabilityGrant_operations hgrant).trans (buildScope_operations hbuild))
  rw [← hcreated]
  split at h
  · simp only [bind_eq_ok, require_eq_ok, pure_eq_ok, Prod.exists, Prod.mk.injEq] at h
    obtain ⟨consumed, db₄, hconsume, row, -, -, rfl⟩ := h
    refine .of_eq (Eq.trans ?_ (consumeIntent_operations hconsume))
    unfold MeetingDb.activateAnalysis
    split_ifs <;> rfl
  · simp only [bind_eq_ok, pure_eq_ok, Prod.exists, Prod.mk.injEq] at h
    obtain ⟨consumed, db₄, hconsume, -, rfl⟩ := h
    refine .of_eq (Eq.trans ?_ (consumeIntent_operations hconsume))
    unfold MeetingDb.stopAnalysis
    split <;> rfl
  · simp only [bind_eq_ok, pure_eq_ok, Prod.exists, Prod.mk.injEq] at h
    obtain ⟨operation, db₄, hadmit, -, rfl⟩ := h
    exact admit_operations hadmit
  · cases h
    exact .refl _

theorem revokeAuthority_operations (sessionId : SessionId) (now : Instant) :
    (db.revokeAuthority sessionId now).operations = db.operations := by
  unfold MeetingDb.revokeAuthority
  split <;> rfl

theorem disablePlugin_operations (now : Instant) :
    (db.disablePlugin now).operations = db.operations := by
  unfold MeetingDb.disablePlugin
  exact List.foldlRecOn (motive := fun b : MeetingDb => b.operations = db.operations) _ _ rfl
    fun b hb row _ => (revokeAuthority_operations row.legacySessionId now).trans hb

theorem after_operations {α : Type} {result : Except Fault (α × MeetingDb)}
    (h : ∀ value db', result = .ok (value, db') → OperationsKept db.operations db'.operations) :
    OperationsKept db.operations (db.after result).operations := by
  cases result with
  | error e => exact .refl _
  | ok reply => exact h reply.1 reply.2 rfl

theorem afterAssistant_operations {α : Type} (result : Except Fault (α × Db)) :
    OperationsKept db.operations (db.afterAssistant result).operations := by
  cases result <;> exact .refl _

/-- Of the plugin's steps only the one that stands for the workers changes an operation. -/
theorem next_operations {cfg : ExecutorConfig} {host : HostConfig} {a : PluginAction}
    (htrack : ∀ id status errorCode, a ≠ .track id status errorCode)
    (h : db.next cfg host a = some db') : OperationsKept db.operations db'.operations := by
  cases a with
  | track id status errorCode => exact absurd rfl (htrack id status errorCode)
  | execute input =>
    cases h
    refine after_operations fun begun db' hbegin => ?_
    rcases guardedExecute_cases hbegin with rfl | ⟨_, _, _, _, -, -, -, -, hrest⟩
    · exact .refl _
    · have hsame := congrArg MeetingDb.operations hrest
      exact .of_eq hsame
  | confirm confirmation =>
    cases h
    exact after_operations fun _ _ => confirm_operations
  | admits admission =>
    cases h
    exact after_operations fun _ _ => admit_operations
  | revoke sessionId now =>
    cases h
    exact .of_eq (revokeAuthority_operations sessionId now)
  | disable now =>
    cases h
    exact .of_eq (disablePlugin_operations now)
  | deactivate sessionId =>
    cases h
    refine .of_eq ?_
    unfold MeetingDb.stopAnalysis
    split <;> rfl
  | analyse =>
    obtain ⟨row, -, rfl⟩ := Option.map_eq_some_iff.mp h
    exact .refl _
  | host =>
    cases h
    exact .refl _
  | create | createTarget | transition | appendStep | prepareCall =>
    cases h
    exact afterAssistant_operations _
  | updateCall id expected u =>
    simp only [MeetingDb.next] at h
    split_ifs at h
    cases h
    exact afterAssistant_operations _
  | other assistant =>
    cases h
    exact .refl _

end Plugin

/-- Only the status of an operation and its error code differ. -/
def Restated (o o' : OperationRecord) : Prop :=
  ∃ status errorCode, o' = { o with status, errorCode }

namespace Restated

variable {o o' o'' : OperationRecord}

theorem refl (o : OperationRecord) : Restated o o := ⟨o.status, o.errorCode, rfl⟩

theorem fits (h : Restated o o') (h' : Restated o o'') : Table.Replaces o'' o' := by
  obtain ⟨_, _, rfl⟩ := h
  obtain ⟨_, _, rfl⟩ := h'
  exact ⟨rfl, Or.inr rfl⟩

end Restated

theorem Calm.of_restated {db : MeetingDb} {operations : Table OperationRecord}
    (h : db.operations.Evolves Restated (fun _ => False) operations) :
    Calm db { db with operations } := by
  refine ⟨⟨Quiet.originRefl _, sessions_refl _, fun o' ho' hstarts x hx => Or.inl ?_⟩,
    (Quiet.refl db.assistant).calls⟩
  cases hold : db.operations.get o'.id with
  | none => exact absurd hold (h.fresh o'.id o' (Table.get_of_mem ho'))
  | some o =>
    obtain ⟨row, hrow, status, errorCode, rfl⟩ := h.kept o'.id o hold
    obtain rfl := Option.some.inj ((Table.get_of_mem ho').symm.trans hrow)
    exact ⟨o, Table.mem_of_get hold, rfl, hstarts, hx⟩

namespace MeetingDb

variable {db : MeetingDb}

/-- A refresh leaves an operation as it is, or a running one as its settled execution says. -/
def Refreshed (db : MeetingDb) (o o' : OperationRecord) : Prop :=
  o' = o ∨ o.status = .running ∧ ∃ e, db.executionOf o = some e ∧ e.Settled ∧
    o' = { o with status := e.operationStatus, errorCode := e.errorCode }

theorem Refreshed.refl (o : OperationRecord) : db.Refreshed o o := Or.inl rfl

theorem Refreshed.restated {o o' : OperationRecord} (h : db.Refreshed o o') : Restated o o' := by
  rcases h with rfl | ⟨-, e, -, -, rfl⟩
  · exact .refl _
  · exact ⟨_, _, rfl⟩

theorem mem_running {o : OperationRecord} :
    o ∈ db.running ↔ o ∈ db.operations.rows ∧ o.status = .running := by
  simp [running]

theorem refreshRunning_evolves (db : MeetingDb) :
    db.operations.Evolves db.Refreshed (fun _ => False) db.refreshRunning.operations ∧
      db.refreshRunning = { db with operations := db.refreshRunning.operations } := by
  have hrefl : db.operations.Evolves db.Refreshed (fun _ => False) db.operations :=
    .refl Refreshed.refl _
  unfold refreshRunning
  refine List.foldlRecOn (motive := fun b : MeetingDb =>
    db.operations.Evolves db.Refreshed (fun _ => False) b.operations ∧
      b = { db with operations := b.operations }) _ _ ⟨hrefl, rfl⟩ ?_
  rintro b ⟨hevolves, hrest⟩ o ho
  obtain ⟨hmem, hrunning⟩ := mem_running.mp ho
  have hexecution : b.executionOf o = db.executionOf o := by rw [hrest]; rfl
  unfold refreshOperation
  rw [hexecution]
  cases he : db.executionOf o with
  | none => exact ⟨hevolves, hrest⟩
  | some e =>
    simp only
    split_ifs with hsettled
    · let refreshed : OperationRecord :=
        { o with status := e.operationStatus, errorCode := e.errorCode }
      have hkept : db.Refreshed o refreshed := Or.inr ⟨hrunning, e, he, hsettled, rfl⟩
      have hold : db.operations.get (Row.key refreshed) = some o := Table.get_of_mem hmem
      refine ⟨hevolves.set hold hkept fun r hr => ?_, ?_⟩
      · exact hr.restated.fits hkept.restated
      · rw [setOperation, hrest]
    · exact ⟨hevolves, hrest⟩

theorem nextAccepted_eq_none (h : db.nextAccepted = none) :
    ∀ o ∈ db.operations.rows, o.status ≠ .accepted := by
  intro o ho haccepted
  have hmem : o ∈ db.operations.select fun o => o.status = .accepted :=
    Table.mem_select.mpr ⟨ho, decide_eq_true haccepted⟩
  rw [List.argmin_eq_none.mp h] at hmem
  exact List.not_mem_nil hmem

theorem nextAccepted_eq_some {o : OperationRecord} (h : db.nextAccepted = some o) :
    o ∈ db.operations.rows ∧ o.status = .accepted ∧
      ∀ o' ∈ db.operations.rows, o'.status = .accepted →
        toLex (o.createdAt, o.id) ≤ toLex (o'.createdAt, o'.id) := by
  obtain ⟨hmem, haccepted⟩ := Table.mem_select.mp (List.argmin_mem h)
  refine ⟨hmem, of_decide_eq_true haccepted, fun o' ho' hstatus => ?_⟩
  have hmem' : o' ∈ db.operations.select fun o => o.status = .accepted :=
    Table.mem_select.mpr ⟨ho', decide_eq_true hstatus⟩
  exact List.le_of_mem_argmin (f := fun o : OperationRecord => toLex (o.createdAt, o.id)) hmem' h

theorem accepted_refreshRunning {o : OperationRecord} (haccepted : o.status = .accepted) :
    o ∈ db.refreshRunning.operations.rows ↔ o ∈ db.operations.rows := by
  obtain ⟨hevolves, -⟩ := refreshRunning_evolves db
  constructor
  · intro ho
    cases hold : db.operations.get o.id with
    | none => exact absurd hold (hevolves.fresh o.id o (Table.get_of_mem ho))
    | some old =>
      obtain ⟨row, hrow, hrefreshed⟩ := hevolves.kept o.id old hold
      obtain rfl := Option.some.inj ((Table.get_of_mem ho).symm.trans hrow)
      rcases hrefreshed with rfl | ⟨-, e, -, -, rfl⟩
      · exact Table.mem_of_get hold
      · simp only [ExecutionRecord.operationStatus] at haccepted
        split_ifs at haccepted
  · intro ho
    obtain ⟨o', ho', rfl | ⟨hrunning, -⟩⟩ := hevolves.kept o.id o (Table.get_of_mem ho)
    · exact Table.mem_of_get ho'
    · rw [haccepted] at hrunning
      cases hrunning

theorem claim_cases (db : MeetingDb) :
    (db.claim = (none, db.refreshRunning) ∧ ∀ o ∈ db.operations.rows, o.status ≠ .accepted) ∨
      ∃ o ∈ db.operations.rows, o.status = .accepted ∧
        (∀ o' ∈ db.operations.rows, o'.status = .accepted →
          toLex (o.createdAt, o.id) ≤ toLex (o'.createdAt, o'.id)) ∧
        db.refreshRunning.operations.get o.id = some o ∧
        db.claim =
          (some o.id, db.refreshRunning.setOperation { o with status := .running }) := by
  cases hnext : db.refreshRunning.nextAccepted with
  | none =>
    refine Or.inl ⟨by simp only [claim, hnext], fun o ho haccepted => ?_⟩
    exact nextAccepted_eq_none hnext o ((accepted_refreshRunning haccepted).mpr ho) haccepted
  | some o =>
    obtain ⟨hmem, haccepted, holdest⟩ := nextAccepted_eq_some hnext
    refine Or.inr ⟨o, (accepted_refreshRunning haccepted).mp hmem, haccepted,
      fun o' ho' hstatus => ?_, Table.get_of_mem hmem, by simp only [claim, hnext]⟩
    exact holdest o' ((accepted_refreshRunning hstatus).mpr ho') hstatus

end MeetingDb

theorem Db.transitionExecution_stops {db : Db} {e : ExecutionRecord} {request : TransitionRequest}
    (he : db.getExecution e.id = some e)
    (hopen : isTerminalExecutionStatus e.profile e.status = false)
    (htarget : request.targetStatus = .failed ∨ request.targetStatus = .cancelled)
    (hversion : e.stateVersion = request.expectedVersion) :
    ∃ moved db', db.transitionExecution e.id request = .ok (moved, db') ∧
      moved.status = request.targetStatus ∧ moved.profile = e.profile := by
  obtain ⟨hfailed, hcancelled⟩ := stoppable e.statusDeclared hopen
  have hedge : request.targetStatus ∈ executionEdges e.profile e.status := by
    rcases htarget with h | h <;> rw [h]
    · exact hfailed
    · exact hcancelled
  have hdecl : Declared e.profile request.targetStatus := by
    rcases htarget with h | h <;> rw [h] <;> cases e.profile <;> decide
  exact ⟨_, _, Db.transitionExecution_eq_ok.mpr
    ⟨e, he, hversion, Or.inr hedge, hdecl, rfl, rfl⟩, rfl, rfl⟩

namespace MeetingDb

variable {db db' : MeetingDb}

theorem executionOf_eq_some {o : OperationRecord} {e : ExecutionRecord} :
    db.executionOf o = some e ↔ o.executionId = some e.id ∧
      db.assistant.getExecution e.id = some e := by
  unfold executionOf
  rw [Option.bind_eq_some_iff]
  constructor
  · rintro ⟨x, hx, he⟩
    obtain rfl : e.id = x := Table.key_of_get he
    exact ⟨hx, he⟩
  · rintro ⟨hx, he⟩
    exact ⟨e.id, hx, he⟩

/-- What stopping an operation leaves: its execution is moved where that is not over. -/
structure Stopped (db : MeetingDb) (o : OperationRecord) (cause : StopCause) (db' : MeetingDb) :
    Prop where
  operations : db'.operations = db.operations.set
    { o with status := cause.targets.1, errorCode := some cause.targets.2.2 }
  rest : db' = { db with operations := db'.operations, assistant := db'.assistant }
  quiet : Quiet db.assistant db'.assistant
  others : ∀ x, o.executionId ≠ some x →
    db'.assistant.getExecution x = db.assistant.getExecution x
  ended : (∀ e, db.executionOf o = some e →
    isTerminalExecutionStatus e.profile e.status = true) → db'.assistant = db.assistant
  moved : ∀ e, db.executionOf o = some e → isTerminalExecutionStatus e.profile e.status = false →
    ∃ e', db'.assistant.getExecution e.id = some e' ∧ e'.status = cause.targets.2.1

theorem stopOperation_returns {id : OperationId} {o : OperationRecord}
    (ho : db.operations.get id = some o) (cause : StopCause) (now : Instant) :
    ∃ db', db.stopOperation id cause now = .ok db' ∧ Stopped db o cause db' := by
  unfold stopOperation
  rw [ho]
  simp only [require, bind, Except.bind, pure, Except.pure]
  cases he : db.executionOf o with
  | none =>
    refine ⟨_, rfl, rfl, rfl, .refl _, fun _ _ => rfl, fun _ => rfl, fun e hnone => ?_⟩
    rw [he] at hnone
    cases hnone
  | some e =>
    simp only
    have hcurrent : ∀ e', db.executionOf o = some e' → e' = e := fun e' he' =>
      Option.some.inj (he'.symm.trans he)
    split_ifs with hover
    · refine ⟨_, rfl, rfl, rfl, .refl _, fun _ _ => rfl, fun _ => rfl, fun e' he' hopen => ?_⟩
      rw [hcurrent e' he', hover] at hopen
      cases hopen
    · obtain ⟨hx, hget⟩ := executionOf_eq_some.mp he
      have hopen : isTerminalExecutionStatus e.profile e.status = false :=
        Bool.eq_false_iff.mpr hover
      let request : TransitionRequest :=
        { expectedVersion := e.stateVersion
          targetStatus := cause.targets.2.1
          eventType := "meeting.operation_stopped"
          errorCode := some cause.targets.2.2
          changedAt := now }
      have htarget : request.targetStatus = .failed ∨ request.targetStatus = .cancelled := by
        cases cause with
        | denied => exact Or.inr rfl
        | startFailed | refreshFailed => exact Or.inl rfl
      obtain ⟨moved, assistant, hmove, hstatus, -⟩ :=
        Db.transitionExecution_stops hget hopen htarget rfl
      have hrows := Db.getExecution_transition hmove
      refine ⟨{ db with
          assistant
          operations := db.operations.set
            { o with status := cause.targets.1, errorCode := some cause.targets.2.2 } },
        ?_, rfl, rfl, transitionExecution_quiet hmove, fun x hne => ?_, fun hall => ?_,
        fun e' he' _ => ⟨moved, ?_, hstatus⟩⟩
      · rw [show (db.setOperation _).assistant = db.assistant from rfl, hmove]
        rfl
      · refine (hrows x).trans (if_neg ?_)
        rintro rfl
        exact hne hx
      · exact absurd (hall e he) hover
      · rw [hcurrent e' he']
        exact (hrows e.id).trans (if_pos rfl)

end MeetingDb

/-- A fast turn that is past its first status: its model may have been asked. -/
def ExecutionRecord.MayHaveAsked (e : ExecutionRecord) : Prop :=
  e.profile = .fastTurn ∧ e.status ≠ .received

/-- What an operation that was left running may come to: it follows its settled execution; it
fails where nothing is left to run, or the model may have been asked; or it is to be dispatched
again, which asks no model twice. -/
inductive RecoveredAs (db : MeetingDb) (o : OperationRecord) : OperationStatus → Prop
  | followed (e : ExecutionRecord) (h : db.executionOf o = some e) (settled : e.Settled) :
      RecoveredAs db o e.operationStatus
  | failed (h : ∀ e, db.executionOf o = some e → e.MayHaveAsked) : RecoveredAs db o .failed
  | again (e : ExecutionRecord) (h : db.executionOf o = some e) (unasked : ¬ e.MayHaveAsked) :
      RecoveredAs db o .accepted

/-- An execution stays as it is, or is a fast turn that has failed. -/
def GivenUp (db db' : Db) : Prop :=
  ∀ x, db'.getExecution x = db.getExecution x ∨
    ∃ e e', db.getExecution x = some e ∧ e.MayHaveAsked ∧ db'.getExecution x = some e' ∧
      e'.profile = .fastTurn ∧ e'.status = .failed

/-- A recovery on its way: running operations are restated, and fast turns given up. -/
structure Recovering (db db' : MeetingDb) : Prop where
  operations : db.operations.Evolves (fun o o' => o' = o ∨ o.status = .running ∧ Restated o o')
    (fun _ => False) db'.operations
  rest : db' = { db with operations := db'.operations, assistant := db'.assistant }
  quiet : Quiet db.assistant db'.assistant
  givenUp : GivenUp db.assistant db'.assistant

namespace Recovering

variable {db db' : MeetingDb} {o : OperationRecord}

theorem refl (db : MeetingDb) : Recovering db db := by
  refine ⟨⟨fun k o ho => ⟨o, ho, Or.inl rfl⟩, fun k o ho hnone => ?_⟩, rfl, .refl _,
    fun _ => Or.inl rfl⟩
  rw [hnone] at ho
  cases ho

theorem kept (h : Recovering db db') : Kept db db' := by
  have hrestated : Calm db { db with operations := db'.operations } := by
    refine .of_restated (h.operations.mono (fun hsame => ?_) fun hfalse => hfalse)
    rcases hsame with rfl | ⟨-, hsame⟩
    · exact .refl _
    · exact hsame
  rw [h.rest]
  exact (hrestated.trans (.of_assistant h.quiet)).toKept

theorem set (h : Recovering db db') (ho : o ∈ db.running) (status : OperationStatus)
    (errorCode : Option String) :
    Recovering db (db'.setOperation { o with status, errorCode }) ∧
      (db'.setOperation { o with status, errorCode }).operations.get o.id =
        some { o with status, errorCode } := by
  obtain ⟨hmem, hrunning⟩ := MeetingDb.mem_running.mp ho
  let restated : OperationRecord := { o with status, errorCode }
  have hold : db.operations.get (Row.key restated) = some o := Table.get_of_mem hmem
  have hfit : ∀ r, r = o ∨ o.status = .running ∧ Restated o r → Table.Replaces restated r := by
    rintro r (rfl | ⟨-, hr⟩)
    · exact ⟨rfl, Or.inr rfl⟩
    · exact hr.fits ⟨status, errorCode, rfl⟩
  refine ⟨⟨h.operations.set hold (Or.inr ⟨hrunning, status, errorCode, rfl⟩) hfit, ?_, h.quiet,
    h.givenUp⟩, ?_⟩
  · rw [MeetingDb.setOperation, h.rest]
  · obtain ⟨row, hrow, hkept⟩ := h.operations.kept _ o hold
    exact Table.get_set_self (r := restated) hrow (hfit row hkept)

/-- The execution of an operation is the one it was, or has been given up meanwhile. -/
theorem executionOf (h : Recovering db db') (o : OperationRecord) :
    db'.executionOf o = db.executionOf o ∨ ∃ e e', db.executionOf o = some e ∧ e.MayHaveAsked ∧
      db'.executionOf o = some e' ∧ e'.profile = .fastTurn ∧ e'.status = .failed := by
  unfold MeetingDb.executionOf
  cases o.executionId with
  | none => exact Or.inl rfl
  | some x => exact h.givenUp x

theorem giveUp (h : Recovering db db') {e : ExecutionRecord} (request : TransitionRequest)
    (he : db.assistant.getExecution e.id = some e) (hasked : e.MayHaveAsked)
    (hcurrent : db'.assistant.getExecution e.id = some e)
    (hopen : isTerminalExecutionStatus e.profile e.status = false)
    (htarget : request.targetStatus = .failed)
      (hversion : e.stateVersion = request.expectedVersion) :
    ∃ moved assistant, db'.assistant.transitionExecution e.id request = .ok (moved, assistant) ∧
      Recovering db { db' with assistant } := by
  obtain ⟨moved, assistant, hmove, hstatus, hprofile⟩ :=
    Db.transitionExecution_stops hcurrent hopen (Or.inl htarget) hversion
  refine ⟨moved, assistant, hmove, h.operations, ?_,
    h.quiet.trans (transitionExecution_quiet hmove),
    fun x => ?_⟩
  · rw [h.rest]
  · have hrow := Db.getExecution_transition hmove x
    split_ifs at hrow with hx
    · subst hx
      exact Or.inr ⟨e, moved, he, hasked, hrow, hprofile.trans hasked.1, hstatus.trans htarget⟩
    · rw [hrow]
      exact h.givenUp x

end Recovering

/-- The recovery of one running operation returns, and leaves the others to theirs. -/
theorem recoverOperation_returns {db db' : MeetingDb} {o : OperationRecord} {now : Instant}
    (h : Recovering db db') (ho : o ∈ db.running) :
    ∃ db'', db'.recoverOperation now o = .ok db'' ∧ Recovering db db'' ∧
      (∃ o', db''.operations.get o.id = some o' ∧ RecoveredAs db o o'.status) ∧
      ∀ id, id ≠ o.id → db''.operations.get id = db'.operations.get id := by
  have hothers : ∀ (status : OperationStatus) (errorCode : Option String) (id : OperationId),
      id ≠ o.id → (db'.operations.set { o with status, errorCode }).get id =
        db'.operations.get id := fun status errorCode id hne => Table.get_set_ne hne
  unfold MeetingDb.recoverOperation
  rcases h.executionOf o with hsame | ⟨e, e', he, hasked, he', hprofile, hfailed⟩
  · rw [hsame]
    cases he : db.executionOf o with
    | none =>
      obtain ⟨hset, hget⟩ := h.set ho .failed (some "execution_missing")
      refine ⟨_, rfl, hset, ⟨_, hget, .failed fun e hsome => ?_⟩, hothers _ _⟩
      rw [he] at hsome
      cases hsome
    | some e =>
      simp only
      split_ifs with hsettled hasked
      · obtain ⟨hset, hget⟩ := h.set ho e.operationStatus o.errorCode
        exact ⟨_, rfl, hset, ⟨_, hget, .followed e he hsettled⟩, hothers _ _⟩
      · have hcurrent := (MeetingDb.executionOf_eq_some.mp (hsame.trans he)).2
        have hopen : isTerminalExecutionStatus e.profile e.status = false :=
          Bool.eq_false_iff.mpr fun hover => hsettled (Or.inl hover)
        obtain ⟨moved, assistant, hmove, hgiven⟩ := h.giveUp
          { expectedVersion := e.stateVersion
            targetStatus := .failed
            eventType := "meeting.model_outcome_unknown"
            errorCode := some "model_outcome_unknown"
            changedAt := now }
          (MeetingDb.executionOf_eq_some.mp he).2 hasked hcurrent hopen rfl rfl
        rw [hmove]
        obtain ⟨hset, hget⟩ := hgiven.set ho .failed (some "model_outcome_unknown")
        refine ⟨_, rfl, hset, ⟨_, hget, .failed fun e' he' => ?_⟩, hothers _ _⟩
        obtain rfl := Option.some.inj (he'.symm.trans he)
        exact hasked
      · obtain ⟨hset, hget⟩ := h.set ho .accepted o.errorCode
        exact ⟨_, rfl, hset, ⟨_, hget, .again e he hasked⟩, hothers _ _⟩
  · -- An operation recovered before has given the same execution up.
    have hsettled : e'.Settled := Or.inl (by rw [hprofile, hfailed]; decide)
    rw [he']
    simp only [hsettled, if_true]
    obtain ⟨hset, hget⟩ := h.set ho e'.operationStatus o.errorCode
    refine ⟨_, rfl, hset, ⟨_, hget, ?_⟩, hothers _ _⟩
    simp only [ExecutionRecord.operationStatus, hfailed, if_true]
    refine .failed fun first hfirst => ?_
    obtain rfl := Option.some.inj (hfirst.symm.trans he)
    exact hasked

theorem recover_returns (db : MeetingDb) (now : Instant) :
    ∃ db', db.recover now = .ok db' ∧ Recovering db db' ∧
      ∀ o ∈ db.running, ∃ o', db'.operations.get o.id = some o' ∧ RecoveredAs db o o'.status := by
  have hkeys : (db.running.map OperationRecord.id).Nodup :=
    db.operations.keys_nodup.sublist (List.filter_sublist.map _)
  obtain ⟨db', hrecover, hrecovering, hall, -⟩ := foldlM_each
    (f := MeetingDb.recoverOperation now) (I := Recovering db) (P := fun _ _ => True)
    (Q := fun o b => ∃ o', b.operations.get o.id = some o' ∧ RecoveredAs db o o'.status)
    hkeys (fun b o ho hb _ => by
      obtain ⟨b', hstep, hb', hdone, hothers⟩ := recoverOperation_returns hb ho
      refine ⟨b', hstep, hb', hdone, fun x hne => ⟨fun _ => trivial, ?_⟩⟩
      rintro ⟨o', ho', hrecovered⟩
      exact ⟨o', (hothers x.id hne).trans ho', hrecovered⟩)
    (Recovering.refl db) (fun _ _ => trivial)
  exact ⟨db', hrecover, hrecovering, hall⟩

end Assistant
end Matinier
