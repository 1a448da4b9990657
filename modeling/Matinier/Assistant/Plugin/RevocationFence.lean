import Std.Data.String.ToNat
import Matinier.Assistant.ExecutorMachine
import Matinier.Assistant.Handoff
import Matinier.Assistant.Plugin.GuardSpec
import Matinier.Assistant.Plugin.Operations

/-!
# Revocation fences external writes

The plugin's transactions and guarded requests interleave with everything else the service
does to executions and tool calls, which is taken apart into single repository operations.
Once the epoch of a session is raised, no call of an operation of an older epoch is requested
any more: the guard reads the epoch in the transaction that requests the call.
-/

namespace Matinier
namespace Assistant

inductive PluginAction where
  | execute (input : ExecuteInput)
  | confirm (confirmation : Confirmation)
  | admits (admission : Admission)
  | revoke (legacySessionId : SessionId) (now : Instant)
  | disable (now : Instant)
  | deactivate (legacySessionId : SessionId)
  | analyse (legacySessionId : SessionId) (state : AnalysisState) (analysisEpoch : ℕ)
      (terminalFrontier : Option (List (SegmentId × ℕ)))
  | track (id : OperationId) (status : OperationStatus) (errorCode : Option String)
  | host (host : Host) (capabilityGrants : Table CapabilityGrantRecord)
  | create (sessionId : SessionId) (profile : ExecutionProfile) (goal : String)
      (clientRequestId : Option String) (snapshotId : Option SnapshotId)
      (grantId : Option GrantId) (id : ExecutionId) (now : Instant)
  | createTarget (sessionId : SessionId) (goal : String) (parent : ExecutionId)
      (snapshotId : SnapshotId) (grantId : Option GrantId) (id : ExecutionId) (now : Instant)
  | transition (record : ExecutionRecord) (request : TransitionRequest)
  | appendStep (record : ExecutionRecord) (step : HandoffCompletedStep)
  | prepareCall (draft : ToolCallDraft) (id : ToolCallId)
  | updateCall (id : ToolCallId) (expected : Option ToolCallStatus) (u : ToolCallUpdate)
  | other (db : Db)

/-- The step revokes the authority of the session. -/
def PluginAction.Revokes : PluginAction → PluginSessionRecord → Prop
  | .revoke sessionId _, row => row.legacySessionId = sessionId
  | .disable _, row => row.pluginId = meetingPluginId
  | _, _ => False

namespace MeetingDb

variable (db : MeetingDb)

/-- What a transaction leaves; one that fails leaves what there was. -/
def after {α : Type} (result : Except Fault (α × MeetingDb)) : MeetingDb :=
  match result with
  | .ok (_, db) => db
  | .error _ => db

/-- What a transaction of the assistant leaves. -/
def afterAssistant {α : Type} (result : Except Fault (α × Db)) : MeetingDb :=
  match result with
  | .ok (_, assistant) => { db with assistant }
  | .error _ => db

/-- The step of an action. Only `execute` requests a tool call: whatever else updates one
gives it another status. -/
def next (cfg : ExecutorConfig) (host : HostConfig) : PluginAction → Option MeetingDb
  | .execute input => some (db.after (guardedExecute cfg input db))
  | .confirm confirmation => some (db.after (Assistant.confirm host confirmation db))
  | .admits admission => some (db.after (admitOperation host admission db))
  | .revoke sessionId now => some (db.revokeAuthority sessionId now)
  | .disable now => some (db.disablePlugin now)
  | .deactivate sessionId => some (db.stopAnalysis sessionId)
  | .analyse sessionId analysisState analysisEpoch terminalFrontier =>
    (db.sessions.get sessionId).map fun row =>
      let updated := { row with analysisState, analysisEpoch, terminalFrontier }
      { db with sessions := db.sessions.set updated }
  | .track id status errorCode =>
    (db.operations.get id).map fun operation =>
      db.setOperation { operation with status, errorCode }
  | .host host capabilityGrants => some { db with host, capabilityGrants }
  | .create sessionId profile goal clientRequestId snapshotId grantId id now =>
    some (db.afterAssistant (db.assistant.createExecution sessionId profile goal clientRequestId
      none snapshotId grantId id now))
  | .createTarget sessionId goal parent snapshotId grantId id now =>
    some (db.afterAssistant (db.assistant.createExecution sessionId .actionRun goal none
      (some parent) (some snapshotId) grantId id now))
  | .transition record request =>
    some (db.afterAssistant (db.assistant.transitionExecutionFrom record request))
  | .appendStep record step => some (db.afterAssistant (db.assistant.appendStepFrom record step))
  | .prepareCall draft id => some (db.afterAssistant (db.assistant.prepareToolCall draft id))
  | .updateCall id expected u =>
    if u.status = .requesting then none
    else some (db.afterAssistant (db.assistant.updateToolCall id expected u))
  | .other assistant =>
    some { db with assistant := { assistant with
      executions := db.assistant.executions, toolCalls := db.assistant.toolCalls } }

abbrev Steps (cfg : ExecutorConfig) (host : HostConfig) :
    MeetingDb → PluginAction → MeetingDb → Prop :=
  fun db a db' => db.next cfg host a = some db'

end MeetingDb

/-- The two rows are of one execution, with the root and the request it was created with; a
fast turn that has left its first status does not return to it. -/
structure SameOrigin (e e' : ExecutionRecord) : Prop where
  id : e'.id = e.id
  root : e'.rootExecutionId = e.rootExecutionId
  request : e'.clientRequestId = e.clientRequestId
  left : e.status ≠ .received → e'.status ≠ .received

theorem SameOrigin.refl (e : ExecutionRecord) : SameOrigin e e := ⟨rfl, rfl, rfl, fun h => h⟩

theorem SameOrigin.trans {a b c : ExecutionRecord} (h : SameOrigin a b) (h' : SameOrigin b c) :
    SameOrigin a c :=
  ⟨h'.id.trans h.id, h'.root.trans h.root, h'.request.trans h.request, h'.left ∘ h.left⟩

/-- An execution that a request identifies descends from no other one. -/
def OwnRoot (e : ExecutionRecord) : Prop :=
  e.clientRequestId.isSome = true → e.rootExecutionId = e.id

/-- A change that keeps where executions come from and requests no tool call. -/
structure Quiet (db db' : Db) : Prop where
  executions : db.executions.Evolves SameOrigin OwnRoot db'.executions
  calls : ∀ id call, db'.getToolCall id = some call → call.status = .requesting →
    ∃ old, db.getToolCall id = some old ∧ old.status = .requesting

namespace Quiet

variable {db db' db'' : Db}

theorem originRefl (db : Db) : db.executions.Evolves SameOrigin OwnRoot db.executions :=
  .refl SameOrigin.refl _

theorem originTrans {a b c : Table ExecutionRecord} (h : a.Evolves SameOrigin OwnRoot b)
    (h' : b.Evolves SameOrigin OwnRoot c) : a.Evolves SameOrigin OwnRoot c :=
  h.trans SameOrigin.trans
    (fun hnew hsame hsome => by
      rw [hsame.root, hsame.id]
      exact hnew (hsame.request ▸ hsome)) h'

theorem of_eq (hexecutions : db'.executions = db.executions)
    (hcalls : db'.toolCalls = db.toolCalls) : Quiet db db' := by
  refine ⟨?_, fun id call hcall hstatus => ⟨call, ?_, hstatus⟩⟩
  · rw [hexecutions]
    exact originRefl db
  · rw [Db.getToolCall, ← hcalls]
    exact hcall

theorem refl (db : Db) : Quiet db db := of_eq rfl rfl

theorem with_events (events : List EventRecord) : Quiet db { db with events } := of_eq rfl rfl

theorem trans (h : Quiet db db') (h' : Quiet db' db'') : Quiet db db'' := by
  refine ⟨originTrans h.executions h'.executions, fun id call hcall hstatus => ?_⟩
  obtain ⟨mid, hmid, hmidStatus⟩ := h'.calls id call hcall hstatus
  exact h.calls id mid hmid hmidStatus

theorem of_executions (h : db.executions.Evolves SameOrigin OwnRoot db'.executions)
    (hcalls : db'.toolCalls = db.toolCalls) : Quiet db db' :=
  ⟨h, (of_eq rfl hcalls : Quiet db { db with toolCalls := db'.toolCalls }).calls⟩

end Quiet

section Operations

variable {db db' : Db}

theorem createExecution_quiet {sessionId : SessionId} {profile : ExecutionProfile}
    {goal : String} {request : Option String} {parent : Option ExecutionId}
    {snapshotId : Option SnapshotId} {grantId : Option GrantId} {id : ExecutionId}
    {createdAt : Instant} {record : ExecutionRecord}
    (horigin : request.isSome = true → parent = none)
    (h : db.createExecution sessionId profile goal request parent snapshotId grantId id
      createdAt = .ok (record, db')) :
    Quiet db db' ∧ db'.getExecution record.id = some record ∧ record.clientRequestId = request := by
  unfold Db.createExecution at h
  simp only [bind_eq_ok] at h
  obtain ⟨_, -, h⟩ := h
  split at h
  · rename_i existing hexisting
    cases h
    obtain ⟨text, rfl, hfound⟩ := Option.bind_eq_some_iff.mp hexisting
    obtain ⟨hmem, hunique⟩ := Table.getUnique_eq_some.mp hfound
    obtain ⟨text', htext, hpair⟩ := Option.map_eq_some_iff.mp hunique
    cases hpair
    exact ⟨.refl db, Table.get_of_mem hmem, htext⟩
  · simp only [bind_eq_ok, require_eq_ok, pure_eq_ok, Prod.mk.injEq] at h
    obtain ⟨root, hroot, executions, hinsert, rfl, rfl⟩ := h
    refine ⟨.of_executions (.of_insert SameOrigin.refl hinsert fun hsome => ?_) rfl, ?_, rfl⟩
    · rw [horigin hsome] at hroot
      cases hroot
      rfl
    · exact (Table.get_insert hinsert id).trans (if_pos rfl)

theorem transitionExecutionFrom_quiet {record updated : ExecutionRecord}
    {request : TransitionRequest}
    (h : db.transitionExecutionFrom record request = .ok (updated, db')) : Quiet db db' := by
  obtain ⟨row, hrow, -, -, -, -, hedge, hdecl, rfl, rfl⟩ := Db.transitionExecutionFrom_eq_ok.mp h
  have hid : row.id = record.id := Table.key_of_get hrow
  rw [← hid] at hrow
  let moved := row.moved record request ⟨request.targetStatus, hdecl⟩
  have hmoved : db.executions.get (Row.key moved) = some row := hrow
  have hleft : row.status ≠ .received → request.targetStatus ≠ .received := by
    intro hne heq
    rcases hedge with hsame | hmem
    · exact hne (hsame.trans heq)
    · exact received_unentered row.profile row.status (heq ▸ hmem)
  exact .of_executions (.of_set SameOrigin.refl hmoved Db.moved_replaces
    ⟨rfl, rfl, rfl, hleft⟩) rfl

theorem transitionExecution_quiet {id : ExecutionId} {updated : ExecutionRecord}
    {request : TransitionRequest}
    (h : db.transitionExecution id request = .ok (updated, db')) : Quiet db db' := by
  simp only [Db.transitionExecution, bind_eq_ok] at h
  obtain ⟨record, -, h⟩ := h
  exact transitionExecutionFrom_quiet h

theorem appendStepFrom_quiet {source source' : ExecutionRecord} {step : HandoffCompletedStep}
    (h : db.appendStepFrom source step = .ok (source', db')) : Quiet db db' := by
  simp only [Db.appendStepFrom, Db.getExecutionRequired, bind_eq_ok, require_eq_ok, pure_eq_ok,
    Prod.mk.injEq] at h
  obtain ⟨row, hrow, steps, -, -, rfl⟩ := h
  have hid : row.id = source.id := Table.key_of_get hrow
  rw [← hid] at hrow
  let stepped : ExecutionRecord := { row with stepCount := source.stepCount + 1 }
  have hstepped : db.executions.get (Row.key stepped) = some row := hrow
  exact .of_executions (.of_set SameOrigin.refl hstepped ⟨rfl, Or.inr rfl⟩
    ⟨rfl, rfl, rfl, fun h => h⟩) rfl

theorem appendObservation_quiet {id : ExecutionId} {source : ObservationSource}
    {observation : Json} {refs : List String} {ref : Option ℕ} {observationId : ObservationId}
    {record : ObservationRecord}
    (h : db.appendObservation id source observation refs ref observationId =
      .ok (record, db')) : Quiet db db' := by
  obtain ⟨-, -, observations, -, rfl⟩ := Db.appendObservation_eq_ok.mp h
  exact .of_eq rfl rfl

theorem Quiet.of_call {call : ToolCallRecord}
    (hwrites : Table.Writes db.toolCalls db'.toolCalls call)
    (hstatus : call.status ≠ .requesting) (hexecutions : db'.executions = db.executions) :
    Quiet db db' := by
  refine ⟨(Quiet.of_eq hexecutions rfl :
    Quiet db { db with executions := db'.executions }).executions,
    fun id row hrow hrequesting => ?_⟩
  rw [Db.getToolCall, hwrites.get] at hrow
  split_ifs at hrow
  · cases hrow
    exact absurd hrequesting hstatus
  · exact ⟨row, hrow, hrequesting⟩

theorem prepareToolCall_quiet {draft : ToolCallDraft} {id : ToolCallId} {record : ToolCallRecord}
    (h : db.prepareToolCall draft id = .ok (record, db')) : Quiet db db' := by
  obtain ⟨-, ⟨-, -, rfl⟩ | ⟨-, rfl, toolCalls, hinsert, rfl⟩⟩ := Db.prepareToolCall_eq_ok.mp h
  · exact .refl _
  · exact .of_call (.of_insert hinsert) (by simp [ToolCallDraft.row]) rfl

theorem updateToolCall_quiet {id : ToolCallId} {expected : Option ToolCallStatus}
    {u : ToolCallUpdate} {record : ToolCallRecord} (hstatus : u.status ≠ .requesting)
    (h : db.updateToolCall id expected u = .ok (record, db')) : Quiet db db' := by
  obtain ⟨old, hold, -, -, ⟨-, -, -, rfl⟩ | ⟨-, rfl, rfl⟩⟩ := Db.updateToolCall_eq_ok.mp h
  · exact .refl _
  · obtain rfl : old.id = id := Table.key_of_get hold
    exact .of_call (.of_set (r := old.updated u) hold (Db.updated_replaces old u)) hstatus rfl

end Operations

/-- The authority epoch does not fall. -/
def EpochKept (row row' : PluginSessionRecord) : Prop := row.authorityEpoch ≤ row'.authorityEpoch

theorem EpochKept.refl (row : PluginSessionRecord) : EpochKept row row :=
  Nat.le_refl row.authorityEpoch

theorem EpochKept.trans {a b c : PluginSessionRecord} (h : EpochKept a b) (h' : EpochKept b c) :
    EpochKept a c := Nat.le_trans h h'

/-- The execution under the identifier was created by the request of the operation. -/
def CreatedFor (db : Db) (id : OperationId) (x : ExecutionId) : Prop :=
  ∃ e, db.getExecution x = some e ∧ e.clientRequestId = some s!"meeting:{id}"

/-- What every step keeps: the origins of the executions and the epochs of the sessions; and
an operation starts no execution but the one its admission creates. -/
structure Kept (db db' : MeetingDb) : Prop where
  executions : db.assistant.executions.Evolves SameOrigin OwnRoot db'.assistant.executions
  sessions : db.sessions.Evolves EpochKept (fun _ => True) db'.sessions
  started : ∀ o ∈ db'.operations.rows, o.action.Starts → ∀ x, o.executionId = some x →
    (∃ old ∈ db.operations.rows, old.id = o.id ∧ old.action.Starts ∧ old.executionId = some x) ∨
      CreatedFor db'.assistant o.id x

/-- A step that requests no tool call. -/
structure Calm (db db' : MeetingDb) : Prop extends Kept db db' where
  calls : ∀ id call, db'.assistant.getToolCall id = some call → call.status = .requesting →
    ∃ old, db.assistant.getToolCall id = some old ∧ old.status = .requesting

theorem CreatedFor.kept {db db' : Db} {id : OperationId} {x : ExecutionId}
    (h : CreatedFor db id x) (hkept : db.executions.Evolves SameOrigin OwnRoot db'.executions) :
    CreatedFor db' id x := by
  obtain ⟨e, he, hrequest⟩ := h
  obtain ⟨e', he', hsame⟩ := hkept.kept x e he
  exact ⟨e', he', hsame.request.trans hrequest⟩

theorem sessions_refl (sessions : Table PluginSessionRecord) :
    sessions.Evolves EpochKept (fun _ => True) sessions :=
  .refl EpochKept.refl _

namespace Calm

variable {db db' db'' : MeetingDb}

theorem trans (h : Calm db db') (h' : Calm db' db'') : Calm db db'' := by
  have hquiet : Quiet db.assistant db''.assistant :=
    Quiet.trans ⟨h.executions, h.calls⟩ ⟨h'.executions, h'.calls⟩
  refine ⟨⟨hquiet.executions, h.sessions.trans EpochKept.trans (fun _ _ => trivial) h'.sessions,
    fun o ho hstarts x hx => ?_⟩, hquiet.calls⟩
  rcases h'.started o ho hstarts x hx with ⟨mid, hmid, hid, hmidStarts, hmidx⟩ | hcreated
  · rcases h.started mid hmid hmidStarts x hmidx with ⟨old, hold, hold'⟩ | hcreated
    · exact Or.inl ⟨old, hold, hold'.1.trans hid, hold'.2⟩
    · rw [← hid]
      exact Or.inr (hcreated.kept h'.executions)
  · exact Or.inr hcreated

/-- Nothing but the intents, the capability grants and the host changes. -/
theorem of_control (hassistant : db'.assistant = db.assistant)
    (hsessions : db'.sessions = db.sessions) (hoperations : db'.operations = db.operations) :
    Calm db db' := by
  have hquiet : Quiet db.assistant db'.assistant := by
    rw [hassistant]
    exact .refl _
  refine ⟨⟨hquiet.executions, ?_, fun o ho hstarts x hx => Or.inl ⟨o, ?_, rfl, hstarts, hx⟩⟩,
    hquiet.calls⟩
  · rw [hsessions]
    exact sessions_refl _
  · rw [← hoperations]
    exact ho

theorem refl (db : MeetingDb) : Calm db db := of_control rfl rfl rfl

theorem of_assistant {assistant : Db} (h : Quiet db.assistant assistant) :
    Calm db { db with assistant } :=
  ⟨⟨h.executions, sessions_refl _, fun o ho hstarts _ hx => Or.inl ⟨o, ho, rfl, hstarts, hx⟩⟩,
    h.calls⟩

theorem of_sessions {sessions : Table PluginSessionRecord}
    (h : db.sessions.Evolves EpochKept (fun _ => True) sessions) :
    Calm db { db with sessions } :=
  ⟨⟨Quiet.originRefl _, h, fun o ho hstarts _ hx => Or.inl ⟨o, ho, rfl, hstarts, hx⟩⟩,
    (Quiet.refl db.assistant).calls⟩

theorem of_session {row row' : PluginSessionRecord}
    (hrow : db.sessions.get row.legacySessionId = some row)
    (hid : row'.legacySessionId = row.legacySessionId)
    (hmedia : row'.mediaSessionId = row.mediaSessionId)
    (hepoch : row.authorityEpoch ≤ row'.authorityEpoch) :
    Calm db { db with sessions := db.sessions.set row' } := by
  rw [← hid] at hrow
  exact of_sessions (.of_set EpochKept.refl hrow
    ⟨hid.symm, Or.inr (congrArg some hmedia)⟩ hepoch)

/-- One operation is written, which started nothing it had not, or what was created for it. -/
theorem of_operation {operations : Table OperationRecord} {o : OperationRecord}
    (hrows : ∀ row ∈ operations.rows, row = o ∨ row ∈ db.operations.rows)
    (ho : o.action.Starts → ∀ x, o.executionId = some x →
      (∃ old ∈ db.operations.rows, old.id = o.id ∧ old.action.Starts ∧
        old.executionId = some x) ∨ CreatedFor db.assistant o.id x) :
    Calm db { db with operations } := by
  refine ⟨⟨Quiet.originRefl _, sessions_refl _, fun row hrow hstarts x hx => ?_⟩,
    (Quiet.refl db.assistant).calls⟩
  rcases hrows row hrow with rfl | hold
  · exact ho hstarts x hx
  · exact Or.inl ⟨row, hold, rfl, hstarts, hx⟩

end Calm

section Transactions

variable {db db' : MeetingDb}

theorem ensureSession_calm {legacySessionId : SessionId} {mediaSessionId : MediaSessionId}
    {pluginVersion : String} {row : PluginSessionRecord}
    (h : db.ensureSession legacySessionId mediaSessionId pluginVersion = .ok (row, db')) :
    Calm db db' := by
  simp only [MeetingDb.ensureSession, bind_eq_ok] at h
  obtain ⟨_, -, h⟩ := h
  split at h
  · simp only [bind_eq_ok, pure_eq_ok, Prod.mk.injEq] at h
    obtain ⟨_, -, -, rfl⟩ := h
    exact .refl _
  · simp only [bind_eq_ok, require_eq_ok, pure_eq_ok, Prod.mk.injEq] at h
    obtain ⟨sessions, hinsert, -, rfl⟩ := h
    exact .of_sessions (.of_insert EpochKept.refl hinsert trivial)

theorem buildScope_calm {derived : Except Fault HostActionScope} {scope : HostActionScope}
    (h : db.buildScope derived = .ok (scope, db')) : Calm db db' := by
  simp only [MeetingDb.buildScope, bind_eq_ok] at h
  obtain ⟨_, -, _, -, h⟩ := h
  split at h
  · cases h
    exact .refl _
  · simp only [bind_eq_ok, pure_eq_ok, Prod.exists, Prod.mk.injEq] at h
    obtain ⟨_, -, _, -, row, db₁, hensure, -, rfl⟩ := h
    exact ensureSession_calm hensure

theorem createCapabilityGrant_calm {scope scope' : HostActionScope} {id : CapabilityGrantId}
    {expiresAt : Instant} (h : db.createCapabilityGrant scope id expiresAt = .ok (scope', db')) :
    Calm db db' := by
  unfold MeetingDb.createCapabilityGrant at h
  split_ifs at h
  · simp only [bind_eq_ok, require_eq_ok, pure_eq_ok, Prod.mk.injEq] at h
    obtain ⟨grants, -, -, rfl⟩ := h
    exact .of_control rfl rfl rfl
  · cases h
    exact .refl _

theorem createIntent_calm {tokenHash : Digest} {scope : HostActionScope}
    {createdAt expiresAt : Instant} {id : IntentId} {intent : IntentRecord}
    (h : db.createIntent tokenHash scope createdAt expiresAt id = .ok (intent, db')) :
    Calm db db' := by
  simp only [MeetingDb.createIntent, bind_eq_ok, require_eq_ok, pure_eq_ok, Prod.mk.injEq] at h
  obtain ⟨_, -, intents, -, -, rfl⟩ := h
  exact .of_control rfl rfl rfl

theorem consumeIntent_calm {tokenHash : Digest} {scope : HostActionScope} {now : Instant}
    {intent : IntentRecord} (h : db.consumeIntent tokenHash scope now = .ok (intent, db')) :
    Calm db db' := by
  simp only [MeetingDb.consumeIntent, bind_eq_ok, require_eq_ok, pure_eq_ok, Prod.mk.injEq] at h
  obtain ⟨row, -, _, -, -, rfl⟩ := h
  exact .of_control rfl rfl rfl

/-- An accepted operation is new, of the scope's action, and has started nothing yet. -/
theorem acceptOperation_calm {scope : HostActionScope} {clientRequestId : String}
    {payload : HostArguments} {intentId : IntentId} {id : OperationId} {createdAt : Instant}
    {operation : OperationRecord}
    (h : db.acceptOperation scope clientRequestId payload intentId id createdAt =
      .ok (operation, db')) : Calm db db' ∧ operation.action = scope.action := by
  simp only [MeetingDb.acceptOperation, bind_eq_ok, require_eq_ok, pure_eq_ok, Prod.mk.injEq] at h
  obtain ⟨_, -, operations, hinsert, hoperation, rfl⟩ := h
  rw [hoperation] at hinsert
  refine ⟨.of_operation (o := operation) (fun row hrow => ?_) (fun _ x hx => ?_), ?_⟩
  · exact ((Table.mem_insert hinsert).mp hrow).symm
  · rw [← hoperation] at hx
    cases hx
  · rw [← hoperation]

/-- An operation that starts an execution is a question or an execution. -/
theorem HostArguments.Of.startable {arguments : HostArguments} {action : HostAction}
    (h : arguments.Of action) (hstarts : action.Starts) :
    (∃ message, arguments = .ask message) ∨
      ∃ message marks candidates, arguments = .execute message marks candidates := by
  rcases hstarts with rfl | rfl
  · cases arguments with
    | ask message => exact Or.inl ⟨message, rfl⟩
    | _ => exact absurd h id
  · cases arguments with
    | execute message marks candidates => exact Or.inr ⟨message, marks, candidates, rfl⟩
    | _ => exact absurd h id

/-- What is carried out of an operation leaves it its identity; one that starts an execution
is of the execution created for it. -/
theorem carryOut_calm {admission : Admission} {operation operation' : OperationRecord}
    {scope : HostActionScope} {expiresAt : Instant}
    (hof : admission.arguments.Of operation.action)
    (h : carryOut admission operation scope expiresAt db = .ok (operation', db')) :
    Calm db db' ∧ operation'.id = operation.id ∧ (operation'.action.Starts →
      ∀ x, operation'.executionId = some x → CreatedFor db'.assistant operation'.id x) := by
  unfold carryOut at h
  cases hargs : admission.arguments with
  | analysis => simp [hargs] at h
  | ask message =>
    simp only [hargs, startTurn, bind_eq_ok, pure_eq_ok, Prod.exists, Prod.mk.injEq] at h
    obtain ⟨execution, assistant, hcreate, rfl, rfl⟩ := h
    obtain ⟨hquiet, hget, hrequest⟩ := createExecution_quiet (fun _ => rfl) hcreate
    refine ⟨.of_assistant hquiet, rfl, fun _ x hx => ?_⟩
    cases hx
    exact ⟨execution, hget, hrequest⟩
  | execute message marks candidates =>
    simp only [hargs, startAction, bind_eq_ok, require_eq_ok, pure_eq_ok, Prod.exists,
      Prod.mk.injEq] at h
    obtain ⟨snapshots, -, grant, granted, hgrant, execution, assistant, hcreate, rfl, rfl⟩ := h
    obtain ⟨-, grants, -, rfl⟩ := Db.createGrant_eq_ok.mp hgrant
    obtain ⟨hquiet, hget, hrequest⟩ := createExecution_quiet (fun _ => rfl) hcreate
    have hfrozen : Quiet db.assistant { db.assistant with snapshots, grants } := .of_eq rfl rfl
    refine ⟨.of_assistant (hfrozen.trans (hquiet.trans (.with_events _))), rfl, fun _ x hx => ?_⟩
    · cases hx
      exact ⟨execution, hget, hrequest⟩
  | mark digest =>
    simp only [hargs, Except.ok.injEq, Prod.mk.injEq] at h
    obtain ⟨rfl, rfl⟩ := h
    refine ⟨.refl _, rfl, fun hstarts => ?_⟩
    rcases hof.startable hstarts with ⟨_, hask⟩ | ⟨_, _, _, hexecute⟩
    · cases hargs.symm.trans hask
    · cases hargs.symm.trans hexecute
  | input executionId version input =>
    simp only [hargs, submitContinuation, bind_eq_ok, pure_eq_ok, Prod.exists, Prod.mk.injEq] at h
    obtain ⟨execution, -, _, _, hobserve, _, _, hmove, rfl, rfl⟩ := h
    refine ⟨.of_assistant ((appendObservation_quiet hobserve).trans
      (transitionExecution_quiet hmove)), rfl, fun hstarts => ?_⟩
    rcases hof.startable hstarts with ⟨_, hask⟩ | ⟨_, _, _, hexecute⟩
    · cases hargs.symm.trans hask
    · cases hargs.symm.trans hexecute
  | cancel executionId version =>
    simp only [hargs, cancelOwned, bind_eq_ok, pure_eq_ok, Prod.exists, Prod.mk.injEq] at h
    obtain ⟨execution, -, _, -, _, _, hmove, rfl, rfl⟩ := h
    refine ⟨.of_assistant (transitionExecution_quiet hmove), rfl, fun hstarts => ?_⟩
    rcases hof.startable hstarts with ⟨_, hask⟩ | ⟨_, _, _, hexecute⟩
    · cases hargs.symm.trans hask
    · cases hargs.symm.trans hexecute

theorem admit_calm {host : HostConfig} {admission : Admission} {operation : OperationRecord}
    (h : admitOperation host admission db = .ok (operation, db')) : Calm db db' := by
  simp only [admitOperation, bind_eq_ok, ensure_eq_ok] at h
  obtain ⟨_, ⟨-, -, hof, -⟩, intent, -, _, ⟨-, -, -, haction, -⟩, h⟩ := h
  split at h
  · simp only [bind_eq_ok, pure_eq_ok, Prod.mk.injEq] at h
    obtain ⟨_, -, _, -, -, rfl⟩ := h
    exact .refl _
  · simp only [bind_eq_ok, pure_eq_ok, Prod.exists, Prod.mk.injEq] at h
    obtain ⟨_, -, rebuilt, db₁, hbuild, _, -, _, -, consumed, db₂, hconsume, accepted, db₃,
      haccept, carried, db₄, hcarry, rfl, rfl⟩ := h
    obtain ⟨haccepted, hsame⟩ := acceptOperation_calm haccept
    rw [← haction, ← hsame] at hof
    obtain ⟨hcarried, hid, hcreated⟩ := carryOut_calm hof hcarry
    refine (buildScope_calm hbuild).trans ((consumeIntent_calm hconsume).trans
      (haccepted.trans (hcarried.trans ?_)))
    refine .of_operation (o := carried) (fun row hrow => Table.mem_of_mem_set hrow) ?_
    exact fun hstarts x hx => Or.inr (hcreated hstarts x hx)

theorem stopAnalysis_calm (sessionId : SessionId) : Calm db (db.stopAnalysis sessionId) := by
  unfold MeetingDb.stopAnalysis
  split
  · exact .refl _
  · rename_i row hrow
    obtain rfl : row.legacySessionId = sessionId := Table.key_of_get hrow
    exact .of_session hrow rfl rfl (Nat.le_refl _)

theorem activateAnalysis_calm {row : PluginSessionRecord}
    (hrow : db.sessions.get row.legacySessionId = some row) :
      Calm db (db.activateAnalysis row) := by
  unfold MeetingDb.activateAnalysis
  split_ifs
  · exact .refl _
  · exact .of_session hrow rfl rfl (Nat.le_refl _)

theorem confirm_calm {host : HostConfig} {c : Confirmation} {intent : IntentRecord}
    (h : confirm host c db = .ok (intent, db')) : Calm db db' := by
  simp only [confirm, bind_eq_ok, Prod.exists] at h
  obtain ⟨built, db₁, hbuild, _, -, scope, db₂, hgrant, created, db₃, hintent, h⟩ := h
  have hcreated : Calm db db₃ := (buildScope_calm hbuild).trans
    ((createCapabilityGrant_calm hgrant).trans (createIntent_calm hintent))
  refine hcreated.trans ?_
  split at h
  · simp only [bind_eq_ok, require_eq_ok, pure_eq_ok, Prod.exists, Prod.mk.injEq] at h
    obtain ⟨consumed, db₄, hconsume, row, hrow, -, rfl⟩ := h
    have hid : row.legacySessionId = scope.legacySessionId := Table.key_of_get hrow
    rw [← hid] at hrow
    exact (consumeIntent_calm hconsume).trans (activateAnalysis_calm hrow)
  · simp only [bind_eq_ok, pure_eq_ok, Prod.exists, Prod.mk.injEq] at h
    obtain ⟨consumed, db₄, hconsume, -, rfl⟩ := h
    exact (consumeIntent_calm hconsume).trans (stopAnalysis_calm _)
  · simp only [bind_eq_ok, pure_eq_ok, Prod.exists, Prod.mk.injEq] at h
    obtain ⟨operation, db₄, hadmit, -, rfl⟩ := h
    exact admit_calm hadmit
  · cases h
    exact .refl _

theorem revokeAuthority_calm (sessionId : SessionId) (now : Instant) :
    Calm db (db.revokeAuthority sessionId now) ∧ ∀ row, db.sessions.get sessionId = some row →
      ∃ row', (db.revokeAuthority sessionId now).sessions.get sessionId = some row' ∧
        row'.authorityEpoch = row.authorityEpoch + 1 := by
  have hintents : Calm db { db with intents := db.revokeIntents sessionId now } :=
    .of_control rfl rfl rfl
  unfold MeetingDb.revokeAuthority
  cases hrow : db.sessions.get sessionId with
  | none =>
    simp only
    exact ⟨hintents, fun row hnone => by cases hnone⟩
  | some row =>
    simp only
    obtain rfl : row.legacySessionId = sessionId := Table.key_of_get hrow
    let revoked : PluginSessionRecord := { row with
      analysisState := .inactive
      analysisEpoch := row.analysisEpoch + 1
      authorityEpoch := row.authorityEpoch + 1 }
    have hset : db.sessions.get (Row.key revoked) = some row := hrow
    refine ⟨hintents.trans
      (.of_session hrow (rfl : revoked.legacySessionId = _) rfl (Nat.le_succ _)),
      fun old hold => ⟨revoked, Table.get_set_self hset ⟨rfl, Or.inr rfl⟩, ?_⟩⟩
    cases hold
    rfl

/-- The revocation of a list of sessions raises the epoch of each of them. -/
theorem revokeAll_calm (rows : List PluginSessionRecord) (now : Instant) (db : MeetingDb) :
    Calm db (rows.foldl (fun db row => db.revokeAuthority row.legacySessionId now) db) ∧
      ∀ sessionId ∈ rows.map PluginSessionRecord.legacySessionId, ∀ row,
        db.sessions.get sessionId = some row → ∃ row',
          (rows.foldl (fun db row => db.revokeAuthority row.legacySessionId now) db).sessions.get
            sessionId = some row' ∧ row.authorityEpoch < row'.authorityEpoch := by
  induction rows generalizing db with
  | nil => exact ⟨.refl db, fun _ hmem => absurd hmem List.not_mem_nil⟩
  | cons first rows ih =>
    obtain ⟨hfirst, hraises⟩ := @revokeAuthority_calm db first.legacySessionId now
    obtain ⟨hrest, hrestRaises⟩ := ih (db.revokeAuthority first.legacySessionId now)
    refine ⟨hfirst.trans hrest, fun sessionId hmem row hrow => ?_⟩
    rw [List.foldl_cons]
    rcases List.mem_cons.mp hmem with rfl | hmem
    · obtain ⟨mid, hmid, hraised⟩ := hraises row hrow
      obtain ⟨row', hrow', hkept⟩ := hrest.sessions.kept _ mid hmid
      exact ⟨row', hrow', Nat.lt_of_lt_of_le (hraised ▸ Nat.lt_succ_self _) hkept⟩
    · obtain ⟨mid, hmid, hkept⟩ := hfirst.sessions.kept _ row hrow
      obtain ⟨row', hrow', hraised⟩ := hrestRaises sessionId hmem mid hmid
      exact ⟨row', hrow', Nat.lt_of_le_of_lt hkept hraised⟩

theorem disablePlugin_calm (now : Instant) : Calm db (db.disablePlugin now) := by
  obtain ⟨hrevoked, -⟩ :=
    revokeAll_calm (db.sessions.select fun row => row.pluginId = meetingPluginId) now db
  exact hrevoked.trans (.of_control rfl rfl rfl)

end Transactions

namespace MeetingDb

variable {cfg : ExecutorConfig} {host : HostConfig} {db db' : MeetingDb} {a : PluginAction}

/-- What one step can do: request a call the guard lets through, or nothing of that kind. -/
inductive Stepped (cfg : ExecutorConfig) (db : MeetingDb) : MeetingDb → Prop
  | requested (request : ToolInvocation) (now : Instant) (tool : RegisteredTool)
      (execution : ExecutionRecord) (flight : Flight) (call : ToolCallRecord) (assistant : Db)
      (authorized : db.authorizeTool request tool.spec now = .ok ())
      (running : db.assistant.getExecution request.executionId = some execution)
      (h : Requested db.assistant assistant tool request execution flight call) :
      Stepped cfg db { db with assistant }
  | calm {db' : MeetingDb} (h : Calm db db') : Stepped cfg db db'

theorem stepped_of_after {α : Type} {result : Except Fault (α × MeetingDb)}
    (h : ∀ value db', result = .ok (value, db') → Stepped cfg db db') :
    Stepped cfg db (db.after result) := by
  cases result with
  | error e => exact .calm (.refl db)
  | ok reply => exact h reply.1 reply.2 rfl

theorem stepped_of_assistant {α : Type} {result : Except Fault (α × Db)}
    (h : ∀ value assistant, result = .ok (value, assistant) → Quiet db.assistant assistant) :
    Stepped cfg db (db.afterAssistant result) := by
  cases result with
  | error e => exact .calm (.refl db)
  | ok reply => exact .calm (.of_assistant (h reply.1 reply.2 rfl))

theorem stepped_of_next (h : db.next cfg host a = some db') : Stepped cfg db db' := by
  cases a with
  | execute input =>
    cases h
    refine stepped_of_after fun begun db' hbegin => ?_
    rcases guardedExecute_cases hbegin with rfl |
      ⟨tool, execution, flight, call, -, hauthorized, hrunning, hrequested, hrest⟩
    · exact .calm (.refl _)
    · rw [hrest]
      exact .requested input.request input.now tool execution flight call _ hauthorized hrunning
        hrequested
  | confirm confirmation =>
    cases h
    exact stepped_of_after fun _ _ hconfirm => .calm (confirm_calm hconfirm)
  | admits admission =>
    cases h
    exact stepped_of_after fun _ _ hadmit => .calm (admit_calm hadmit)
  | revoke sessionId now =>
    cases h
    exact .calm (revokeAuthority_calm sessionId now).1
  | disable now =>
    cases h
    exact .calm (disablePlugin_calm now)
  | deactivate sessionId =>
    cases h
    exact .calm (stopAnalysis_calm sessionId)
  | analyse sessionId analysisState analysisEpoch terminalFrontier =>
    obtain ⟨row, hrow, rfl⟩ := Option.map_eq_some_iff.mp h
    obtain rfl : row.legacySessionId = sessionId := Table.key_of_get hrow
    exact .calm (.of_session hrow rfl rfl (Nat.le_refl _))
  | track id status errorCode =>
    obtain ⟨operation, hoperation, rfl⟩ := Option.map_eq_some_iff.mp h
    refine .calm (.of_operation (o := { operation with status, errorCode })
      (fun row hrow => Table.mem_of_mem_set hrow) fun hstarts x hx => Or.inl ?_)
    exact ⟨operation, Table.mem_of_get hoperation, rfl, hstarts, hx⟩
  | host =>
    cases h
    exact .calm (.of_control rfl rfl rfl)
  | create =>
    cases h
    exact stepped_of_assistant fun _ _ hcreate => (createExecution_quiet (fun _ => rfl) hcreate).1
  | createTarget =>
    cases h
    refine stepped_of_assistant fun _ _ hcreate => (createExecution_quiet ?_ hcreate).1
    exact fun hsome => absurd hsome Bool.false_ne_true
  | transition =>
    cases h
    exact stepped_of_assistant fun _ _ hmove => transitionExecutionFrom_quiet hmove
  | appendStep =>
    cases h
    exact stepped_of_assistant fun _ _ happend => appendStepFrom_quiet happend
  | prepareCall =>
    cases h
    exact stepped_of_assistant fun _ _ hprepare => prepareToolCall_quiet hprepare
  | updateCall id expected u =>
    simp only [next] at h
    split_ifs at h with hstatus
    cases h
    exact stepped_of_assistant fun _ _ hupdate => updateToolCall_quiet hstatus hupdate
  | other assistant =>
    cases h
    exact .calm (.of_assistant (.of_eq rfl rfl))

theorem Stepped.kept (h : Stepped cfg db db') : Kept db db' := by
  cases h with
  | calm h => exact h.toKept
  | requested request now tool execution flight call assistant authorized running h =>
    refine ⟨?_, sessions_refl _, fun o ho hstarts x hx => Or.inl ⟨o, ho, rfl, hstarts, hx⟩⟩
    rw [h.rest]
    exact Quiet.originRefl _

/-- An execution that a request identifies is its own root, and an operation starts the
execution that was created for it. -/
structure Sound (db : MeetingDb) : Prop where
  roots : ∀ id e, db.assistant.getExecution id = some e → OwnRoot e
  started : ∀ o ∈ db.operations.rows, o.action.Starts → ∀ x, o.executionId = some x →
    CreatedFor db.assistant o.id x

theorem Sound.kept (h : db.Sound) (hkept : Kept db db') : db'.Sound := by
  refine ⟨fun id e' he' => ?_, fun o ho hstarts x hx => ?_⟩
  · cases he : db.assistant.getExecution id with
    | none => exact hkept.executions.fresh id e' he' he
    | some e =>
      obtain ⟨row, hrow, hsame⟩ := hkept.executions.kept id e he
      obtain rfl : row = e' := Option.some.inj (hrow.symm.trans he')
      intro hsome
      rw [hsame.root, hsame.id]
      exact h.roots id e he (hsame.request ▸ hsome)
  · rcases hkept.started o ho hstarts x hx with ⟨old, hold, hid, holdStarts, holdx⟩ | hcreated
    · rw [← hid]
      exact (h.started old hold holdStarts x holdx).kept hkept.executions
    · exact hcreated

theorem sound_start (settings : Host) : Sound { host := settings } :=
  ⟨fun _ _ he => absurd (Table.mem_of_get he) List.not_mem_nil,
    fun _ ho => absurd ho List.not_mem_nil⟩

theorem Sound.run (h : db.Sound) {as : List PluginAction} (hrun : Run (Steps cfg host) db as db') :
    db'.Sound :=
  hrun.invariant (fun _ _ _ hs hstep => hs.kept (stepped_of_next hstep).kept) h

theorem sessions_run {as : List PluginAction} (hrun : Run (Steps cfg host) db as db') :
    db.sessions.Evolves EpochKept (fun _ => True) db'.sessions :=
  hrun.relation (I := fun _ => True)
    (R := fun a b : MeetingDb => a.sessions.Evolves EpochKept (fun _ => True) b.sessions)
    (fun _ => sessions_refl _)
    (fun h h' => h.trans EpochKept.trans (fun _ _ => trivial) h')
    (fun _ _ _ _ _ => trivial) (fun _ _ _ _ hstep => (stepped_of_next hstep).kept.sessions) trivial

theorem meetingRequest_injective {id other : OperationId}
    (h : s!"meeting:{id}" = s!"meeting:{other}") : id = other := by
  have hrepr : Nat.repr id = Nat.repr other := by
    simpa [toString, String.append_right_inj] using h
  exact Nat.repr_inj.mp hrepr

theorem Sound.startedRoot (h : db.Sound) {operation : OperationRecord} {execution : ExecutionRecord}
    (hexecution : db.assistant.getExecution execution.id = some execution)
    (hmem : operation ∈ db.operations.rows) (hstarted : Started operation execution) :
    operation.executionId = some execution.rootExecutionId := by
  obtain ⟨hstarts, hown | hroot⟩ := hstarted
  · obtain ⟨e, he, hrequest⟩ := h.started operation hmem hstarts _ hown
    obtain rfl : execution = e := Option.some.inj (hexecution.symm.trans he)
    rw [h.roots _ execution hexecution (by rw [hrequest]; rfl), hown]
  · exact hroot

theorem Sound.starter_unique (h : db.Sound) {o o' : OperationRecord} {execution : ExecutionRecord}
    (hexecution : db.assistant.getExecution execution.id = some execution)
    (ho : o ∈ db.operations.rows) (ho' : o' ∈ db.operations.rows) (hstarted : Started o execution)
    (hstarted' : Started o' execution) : o = o' := by
  obtain ⟨e, he, hrequest⟩ := h.started o ho hstarted.1 _ (h.startedRoot hexecution ho hstarted)
  obtain ⟨e', he', hrequest'⟩ :=
    h.started o' ho' hstarted'.1 _ (h.startedRoot hexecution ho' hstarted')
  obtain rfl : e = e' := Option.some.inj (he.symm.trans he')
  have hsame := Option.some.inj (hrequest.symm.trans hrequest')
  exact Table.eq_of_key ho ho' (meetingRequest_injective hsame)

/-- A call that becomes requested is let through by the guard, at the epoch at which the
session of every operation that started its execution then stands. -/
theorem Sound.requested_epoch (h : db.Sound) (hstep : Stepped cfg db db') {call : ToolCallRecord}
    {execution : ExecutionRecord} {operation : OperationRecord}
    (hcall : db'.assistant.getToolCall call.id = some call)
      (hrequesting : call.status = .requesting)
    (hbefore : ∀ old, db.assistant.getToolCall call.id = some old → old.status ≠ .requesting)
    (hexternal : call.effect = .externalWrite)
    (hexecution : db'.assistant.getExecution call.executionId = some execution)
    (hmem : operation ∈ db.operations.rows) (hstarted : Started operation execution) :
    ∃ row, db.sessions.get operation.legacySessionId = some row ∧
      row.authorityEpoch = operation.authorityEpoch := by
  cases hstep with
  | calm hcalm =>
    obtain ⟨old, hold, hstatus⟩ := hcalm.calls call.id call hcall hrequesting
    exact absurd hstatus (hbefore old hold)
  | requested request now tool running flight called assistant authorized hrunning hrequested =>
    have hsame : call = called := by
      have hget := hrequested.writes.get call.id
      by_cases hid : call.id = Row.key called
      · rw [if_pos hid] at hget
        exact Option.some.inj (hcall.symm.trans hget)
      · rw [if_neg hid] at hget
        exact absurd hrequesting (hbefore call (hget.symm.trans hcall))
    subst hsame
    have heffect : tool.spec.effect = .externalWrite :=
      hrequested.identity.2.2.2.1.symm.trans hexternal
    have hid : running.id = request.executionId := Table.key_of_get hrunning
    -- The transaction leaves the executions as they were, so this is the one that was checked.
    have hkept : assistant.getExecution call.executionId = some running := by
      rw [hrequested.rest, hrequested.owned, hid]
      exact hrunning
    obtain rfl : execution = running := Option.some.inj (hexecution.symm.trans hkept)
    obtain ⟨checked, owner, hchecked, howner, hownerStarted, row, hrow, hepoch⟩ :=
      authorizeTool_epoch heffect authorized
    obtain rfl : execution = checked := Option.some.inj (hrunning.symm.trans hchecked)
    rw [← hid] at hrunning
    obtain rfl := h.starter_unique hrunning hmem howner hstarted hownerStarted
    exact ⟨row, hrow, hepoch⟩

end MeetingDb

/-- The call becomes requested. -/
def EntersRequesting (db db' : Db) (call : ToolCallRecord) : Prop :=
  db'.getToolCall call.id = some call ∧ call.status = .requesting ∧
    ∀ old, db.getToolCall call.id = some old → old.status ≠ .requesting

/-- A revocation raises the epoch of its session, and from then on, whatever happens, no
external write of an operation of that session which was created under an older epoch is
requested any more. -/
theorem revocation_fences {cfg : ExecutorConfig} {host : HostConfig} {settings : Host}
    {db₁ db₂ : MeetingDb} {as : List PluginAction} {r : PluginAction} {row : PluginSessionRecord}
    (hrun : Run (MeetingDb.Steps cfg host) { host := settings } as db₁)
    (hrow : db₁.sessions.get row.legacySessionId = some row)
    (hrevoke : MeetingDb.Steps cfg host db₁ r db₂) (hrevokes : r.Revokes row) :
    ∃ row', db₂.sessions.get row.legacySessionId = some row' ∧
      row.authorityEpoch < row'.authorityEpoch ∧
      ∀ bs db₃ a db₄, Run (MeetingDb.Steps cfg host) db₂ bs db₃ →
        MeetingDb.Steps cfg host db₃ a db₄ → ∀ operation ∈ db₃.operations.rows,
        operation.legacySessionId = row.legacySessionId →
        operation.authorityEpoch < row'.authorityEpoch →
        ∀ call execution, call.effect = .externalWrite →
          db₄.assistant.getExecution call.executionId = some execution →
          MeetingDb.Started operation execution →
          ¬ EntersRequesting db₃.assistant db₄.assistant call := by
  have hraised : ∃ row', db₂.sessions.get row.legacySessionId = some row' ∧
      row.authorityEpoch < row'.authorityEpoch := by
    cases r with
    | revoke sessionId now =>
      cases hrevoke
      obtain ⟨row', hrow', hepoch⟩ := (revokeAuthority_calm row.legacySessionId now).2 row hrow
      rw [show row.legacySessionId = sessionId from hrevokes] at hrow' ⊢
      exact ⟨row', hrow', hepoch ▸ Nat.lt_succ_self _⟩
    | disable now =>
      cases hrevoke
      refine (revokeAll_calm _ now db₁).2 row.legacySessionId (List.mem_map_of_mem ?_) row hrow
      exact Table.mem_select.mpr ⟨Table.mem_of_get hrow, decide_eq_true hrevokes⟩
    | _ => exact absurd hrevokes id
  obtain ⟨row', hrow', hlt⟩ := hraised
  refine ⟨row', hrow', hlt, fun bs db₃ a db₄ hrun' hstep operation hmem hsession hold call
    execution hexternal hexecution hstarted henters => ?_⟩
  obtain ⟨hcall, hrequesting, hbefore⟩ := henters
  have hsound : db₃.Sound := ((MeetingDb.sound_start settings).run
    ((hrun.append (.single hrevoke)).append hrun'))
  obtain ⟨current, hcurrent, hepoch⟩ := hsound.requested_epoch
    (MeetingDb.stepped_of_next hstep) hcall hrequesting hbefore hexternal hexecution hmem hstarted
  obtain ⟨latest, hlatest, hkept⟩ := (MeetingDb.sessions_run hrun').kept _ row' hrow'
  rw [hsession] at hcurrent
  obtain rfl : current = latest := Option.some.inj (hcurrent.symm.trans hlatest)
  have hle : row'.authorityEpoch ≤ operation.authorityEpoch := hepoch ▸ hkept
  exact absurd hold (Nat.not_lt.mpr hle)

section Example

/-- A host that permits the plugin everything. -/
def permittingHost : Host where
  permissions := fun _ _ => ["meeting.state.query", "meeting.turn.submit",
    "meeting.execution.submit", "meeting.execution.input", "meeting.execution.cancel"]

/-- Arguments are not told apart by their digest. -/
def plainHostConfig : HostConfig := ⟨fun _ _ => 0⟩

def questionScope : HostActionScope where
  pluginId := meetingPluginId
  pluginVersion := "1.0.0"
  mediaSessionId := 1
  legacySessionId := 1
  actorId := "local-user"
  authorityEpoch := 0
  action := .ask
  payloadHash := 0
  bounded := by constructor <;> simp

/-- The confirmation of a question about a meeting. -/
def questionConfirmation : Confirmation where
  previewed := questionScope
  derived := .ok questionScope
  requestId := "request-1"
  arguments := .ask "what did we commit to"
  tokenHash := 11
  intentId := 1
  capabilityGrantId := 1
  expiresAt := 900
  snapshot := { id := 1, sessionId := 1, evidenceRefs := [], evidenceMessages := [] }
  ids := ⟨1, 1, 1⟩
  now := 1

/-- The control row the confirmation creates. -/
def questionSession : PluginSessionRecord where
  legacySessionId := 1
  mediaSessionId := 1
  pluginId := meetingPluginId
  pluginVersion := "1.0.0"

/-- The meeting after the confirmation. -/
def questionConfirmed : MeetingDb :=
  (follow (MeetingDb.next · fileTaskConfig plainHostConfig)
    [.confirm questionConfirmation] { host := permittingHost }).get (by decide)

theorem questionConfirmed_run : Run (MeetingDb.Steps fileTaskConfig plainHostConfig)
    { host := permittingHost } [.confirm questionConfirmation] questionConfirmed :=
  run_to_get (MeetingDb.next · fileTaskConfig plainHostConfig) _ _ (by decide)

/-- The confirmed meeting's authority is revoked, and its operations request nothing more. -/
theorem questionRevoked_fenced : ∃ row',
    (questionConfirmed.revokeAuthority 1 5).sessions.get 1 = some row' ∧
      0 < row'.authorityEpoch ∧ ∀ bs db₃ a db₄,
        Run (MeetingDb.Steps fileTaskConfig plainHostConfig)
          (questionConfirmed.revokeAuthority 1 5) bs db₃ →
        MeetingDb.Steps fileTaskConfig plainHostConfig db₃ a db₄ →
        ∀ operation ∈ db₃.operations.rows, operation.legacySessionId = 1 →
        operation.authorityEpoch < row'.authorityEpoch →
        ∀ call execution, call.effect = .externalWrite →
          db₄.assistant.getExecution call.executionId = some execution →
          MeetingDb.Started operation execution →
          ¬ EntersRequesting db₃.assistant db₄.assistant call :=
  have hrow : questionConfirmed.sessions.get questionSession.legacySessionId =
    some questionSession := rfl
  have hrevoke : MeetingDb.Steps fileTaskConfig plainHostConfig questionConfirmed (.revoke 1 5)
    (questionConfirmed.revokeAuthority 1 5) := rfl
  revocation_fences questionConfirmed_run hrow hrevoke rfl

end Example

end Assistant
end Matinier
