import Matinier.Assistant.ApprovedGrant
import Matinier.Assistant.Plugin.RevocationFence

/-!
# Approvals and the guard

A run pauses where its grant does not authorize an external write, and records the write for
the user. What the user approves gets a grant of its own; the guard however lets an external
write through only as the user confirmed it with the operation that owns the execution. The
two agree for exactly the approvals that repeat the confirmation.
-/

namespace Matinier
namespace Assistant

structure TaskCreateInput where
  candidateId : String
  candidateRevision : ℕ
  candidateId_ne : candidateId ≠ ""

/-- The invocation policy of the task system: the task's team is that of the connection. -/
structure TaskInvocationPolicy where
  validate : Json → Option TaskCreateInput
  actionKeyForCandidate : String → ℕ → Except Fault String
  idempotencyKey : Option GrantId → String → String → String
  teamId : String
  fallback : ExecutionRecord → ProposedToolCall → ToolSpec → Except Fault ToolInvocation
  teamId_named : stripped teamId ≠ ""

def teamScope (teamId : String) : Json := .obj [("linear_team_id", .str teamId)]

def TaskInvocationPolicy.build (policy : TaskInvocationPolicy) (execution : ExecutionRecord)
    (call : ProposedToolCall) (spec : ToolSpec) (stepId : StepId) :
    Except Fault ToolInvocation :=
  if spec.name ≠ "task.create" then policy.fallback execution call spec
  else do
    let input ← require (policy.validate call.arguments) (.value "task arguments are invalid")
    let logicalActionKey ← policy.actionKeyForCandidate input.candidateId input.candidateRevision
    return {
      executionId := execution.id
      toolName := spec.name
      arguments := call.arguments
      grantId := execution.grantId
      candidateId := some input.candidateId
      requestedResourceScope := teamScope policy.teamId
      logicalActionKey := some logicalActionKey
      idempotencyKey :=
        some (policy.idempotencyKey execution.grantId spec.capability logicalActionKey)
      evidenceRefs := call.evidenceRefs
      stepId := some stepId }

def executionGrant (db : Db) (execution : ExecutionRecord) : Except Fault (Option ActionGrant) :=
  match execution.grantId.bind db.getGrant with
  | none => .ok none
  | some record => some <$> actionGrantFromRecord record

def approvalActor (snapshot : ContextSnapshot) (grant : Option ActionGrant) : String :=
  match grant with
  | some granted => granted.record.actorId
  | none =>
    ((snapshot.evidenceMessages.find? fun m => m.messageKind = "user_input").map
      EvidenceMessage.actorId).getD "local-user"

/-- The refusals of a grant after which the user is asked. -/
def approvalRequiredGrantCodes : List String := ["grant_required", "grant_inactive"]

/-- A write that the user has to approve. -/
structure UnauthorizedWrite where
  spec : ToolSpec
  invocation : ToolInvocation
  actorId : String

/-- The first of the proposed external writes that the execution's grant does not cover. -/
def unauthorizedWrite (cfg : ExecutorConfig) (policy : TaskInvocationPolicy) (db : Db)
    (execution : ExecutionRecord) (snapshot : ContextSnapshot) (stepId : StepId) (now : Instant) :
    List ProposedToolCall → Except Fault (Option UnauthorizedWrite)
  | [] => .ok none
  | call :: rest => do
    let tool ← cfg.registry.get call.toolName
    if tool.spec.effect ≠ .externalWrite then
      unauthorizedWrite cfg policy db execution snapshot stepId now rest
    else
      let invocation ← policy.build execution call tool.spec stepId
      let grant ← executionGrant db execution
      match authorizeToolUse cfg.normalizedText grant
          { effect := tool.spec.effect
            capability := tool.spec.capability
            sessionId := execution.sessionId
            executionGoal := execution.goal
            candidateId := invocation.candidateId
            requestedResourceScope := invocation.requestedResourceScope
            now } with
      | .ok _ => unauthorizedWrite cfg policy db execution snapshot stepId now rest
      | .error (.grantAuthorization code message) =>
        if code ∈ approvalRequiredGrantCodes then
          .ok (some { spec := tool.spec, invocation, actorId := approvalActor snapshot grant })
        else .error (.grantAuthorization code message)
      | .error e => .error e

def approvalTtl : ℕ := 900

/-- Record the write an execution waits for, or return the approval it waits for already. -/
def pauseForApproval (execution : ExecutionRecord) (write : UnauthorizedWrite)
    (id : ApprovalId) (now : Instant) : MeetingTransaction ApprovalRecord := fun db => do
  let _ ← db.checkDb execution.id now
  let latest ← db.assistant.getExecutionRequired execution.id
  let (approval, assistant) ← db.assistant.createPendingActionApproval
    { executionId := latest.id
      sessionId := latest.sessionId
      actorId := write.actorId
      capability := write.spec.capability
      toolName := write.spec.name
      candidateId := write.invocation.candidateId
      logicalActionKey := write.invocation.logicalActionKey
      resourceScope := write.invocation.requestedResourceScope
      arguments := write.invocation.arguments
      evidenceRefs := write.invocation.evidenceRefs
      expiresAt := now + approvalTtl } id
  return (approval, { db with assistant })

/-- The assistant is composed with the tools of the task system: the one that writes outside
creates a task. -/
def ComposedForTasks (cfg : ExecutorConfig) : Prop :=
  ∀ name tool, cfg.registry.find name = some tool → tool.spec.effect = .externalWrite →
    tool.spec.name = "task.create" ∧ tool.spec.capability = "task.create"

/-- The approval is for the task of a candidate, to be filed with a team. -/
structure RecordsTask (approval : ApprovalRecord) (teamId candidate : String) : Prop where
  capability : approval.capability = "task.create"
  candidateId : approval.candidateId = some candidate
  resourceScope : approval.resourceScope = teamScope teamId
  candidate_ne : candidate ≠ ""
  team_named : stripped teamId ≠ ""

/-- The run of the execution paused where its grant does not cover a write, and the approval is
the one it created for that write. -/
def PausedFor (cfg : ExecutorConfig) (policy : TaskInvocationPolicy) (execution : ExecutionRecord)
    (approval : ApprovalRecord) : Prop :=
  ∃ reads snapshot stepId now calls write,
    unauthorizedWrite cfg policy reads execution snapshot stepId now calls = .ok (some write) ∧
    ∃ id db db', db.assistant.getPendingActionApproval execution.id = none ∧
      pauseForApproval execution write id now db = .ok (approval, db')

section Pause

variable {cfg : ExecutorConfig} {policy : TaskInvocationPolicy} {execution : ExecutionRecord}
  {snapshot : ContextSnapshot} {stepId : StepId} {now : Instant} {write : UnauthorizedWrite}

theorem TaskInvocationPolicy.build_task {call : ProposedToolCall} {spec : ToolSpec}
    {invocation : ToolInvocation} (hname : spec.name = "task.create")
    (h : policy.build execution call spec stepId = .ok invocation) :
    ∃ candidate, candidate ≠ "" ∧ invocation.candidateId = some candidate ∧
      invocation.requestedResourceScope = teamScope policy.teamId := by
  simp only [build, hname, ne_eq, not_true_eq_false, if_false, bind_eq_ok, require_eq_ok,
    pure_eq_ok] at h
  obtain ⟨input, -, key, -, rfl⟩ := h
  exact ⟨input.candidateId, input.candidateId_ne, rfl, rfl⟩

/-- A write that the user is asked about is an external one, as the policy builds it. -/
theorem unauthorizedWrite_ok {db : Db} {calls : List ProposedToolCall}
    (h : unauthorizedWrite cfg policy db execution snapshot stepId now calls = .ok (some write)) :
    ∃ name tool call, cfg.registry.find name = some tool ∧
      tool.spec.effect = .externalWrite ∧ write.spec = tool.spec ∧
      policy.build execution call tool.spec stepId = .ok write.invocation := by
  induction calls with
  | nil => cases h
  | cons call rest ih =>
    simp only [unauthorizedWrite, ToolRegistry.get, bind_eq_ok, require_eq_ok] at h
    obtain ⟨tool, htool, h⟩ := h
    split at h
    · exact ih h
    · rename_i hexternal
      simp only [bind_eq_ok] at h
      obtain ⟨invocation, hbuild, grant, -, h⟩ := h
      split at h
      · exact ih h
      · split at h
        · cases h
          exact ⟨call.toolName, tool, call, htool, not_not.mp hexternal, rfl, hbuild⟩
        · cases h
      · cases h

/-- An approval that a pause created is of the task that was proposed. -/
theorem PausedFor.records {approval : ApprovalRecord} (h : PausedFor cfg policy execution approval)
    (hcomposed : ComposedForTasks cfg) :
    ∃ candidate, RecordsTask approval policy.teamId candidate := by
  obtain ⟨reads, snapshot, stepId, now, calls, write, hwrite, id, db, db', hfree, hpause⟩ := h
  simp only [pauseForApproval, bind_eq_ok, pure_eq_ok, Prod.exists, Prod.mk.injEq,
    Db.getExecutionRequired, require_eq_ok] at hpause
  obtain ⟨_, -, latest, hlatest, _, assistant, hcreate, rfl, rfl⟩ := hpause
  have hid : latest.id = execution.id := Table.key_of_get hlatest
  rcases Db.createPendingActionApproval_eq_ok.mp hcreate with ⟨hpending, -⟩ | ⟨-, hrow, -⟩
  · have hsame : db.assistant.getPendingActionApproval execution.id = some _ := hid ▸ hpending
    rw [hfree] at hsame
    cases hsame
  · obtain ⟨name, tool, call, htool, hexternal, hspec, hbuild⟩ := unauthorizedWrite_ok hwrite
    obtain ⟨hname, hcapability⟩ := hcomposed name tool htool hexternal
    obtain ⟨candidate, hne, hcandidate, hscope⟩ := policy.build_task hname hbuild
    refine ⟨candidate, ?_, ?_, ?_, hne, policy.teamId_named⟩
    · rw [hrow]
      exact (congrArg ToolSpec.capability hspec).trans hcapability
    · rw [hrow]
      exact hcandidate
    · rw [hrow]
      exact hscope

end Pause

theorem HostActionScope.revision_of_mem {scope : HostActionScope} {candidate : String}
    (h : candidate ∈ scope.candidateIds) : ∃ revision,
      scope.revision? candidate = some revision := by
  obtain ⟨entry, hentry, rfl⟩ := List.mem_map.mp h
  have hfound : (scope.candidateRevisions.find? fun e => e.1 = entry.1).isSome = true :=
    List.find?_isSome.mpr ⟨entry, hentry, decide_eq_true rfl⟩
  obtain ⟨found, hfound⟩ := Option.isSome_iff_exists.mp hfound
  exact ⟨found.2, by rw [revision?, hfound]; rfl⟩

theorem sameElements_singleton {a : String} {l : List String} (hnodup : l.Nodup) :
    MeetingDb.SameElements [a] l ↔ l = [a] := by
  constructor
  · rintro ⟨hleft, hright⟩
    have hmem : a ∈ l := hleft a (List.mem_singleton.mpr rfl)
    have hall : ∀ b ∈ l, b = a := fun b hb => List.mem_singleton.mp (hright b hb)
    match l, hnodup, hmem, hall with
    | [b], _, _, hall => rw [hall b (List.mem_singleton.mpr rfl)]
    | b :: c :: rest, hnodup, _, hall =>
      have hb := hall b List.mem_cons_self
      have hc := hall c (List.mem_cons_of_mem b List.mem_cons_self)
      rw [hb, hc] at hnodup
      exact absurd List.mem_cons_self (List.nodup_cons.mp hnodup).1
  · rintro rfl
    exact ⟨fun _ h => h, fun _ h => h⟩

theorem MeetingDb.authorizeExternal_eq_ok {db : MeetingDb} {scope : HostActionScope}
    {request : ToolInvocation} {spec : ToolSpec} :
    db.authorizeExternal scope request spec = .ok () ↔
      ∃ execution owner original grant candidate view,
        db.assistant.getExecution request.executionId = some execution ∧
        db.ownership execution = .ok owner ∧
        owner.executionId.bind db.assistant.getExecution = some original ∧
        execution.grantId.bind db.assistant.getGrant = some grant ∧
        db.GrantConfirmed scope execution original grant request spec ∧
        request.candidateId = some candidate ∧
        db.host.candidate scope.legacySessionId candidate = some view ∧
        CandidateUnchanged scope candidate view := by
  simp only [authorizeExternal, Db.getExecutionRequired, bind_eq_ok, require_eq_ok, ensure_eq_ok]
  constructor
  · rintro ⟨execution, hexecution, owner, howner, original, horiginal, grant, hgrant, _, hconfirmed,
      candidate, hcandidate, view, hview, hunchanged⟩
    exact ⟨execution, owner, original, grant, candidate, view, hexecution, howner,
      horiginal, hgrant,
      hconfirmed, hcandidate, hview, hunchanged⟩
  · rintro ⟨execution, owner, original, grant, candidate, view, hexecution, howner,
      horiginal, hgrant,
      hconfirmed, hcandidate, hview, hunchanged⟩
    exact ⟨execution, hexecution, owner, howner, original, horiginal, grant, hgrant, (), hconfirmed,
      candidate, hcandidate, view, hview, hunchanged⟩

/-- The user confirmed, with the operation that started this very execution, the write of
this candidate alone, and the confirmed actor and team are those of the approval. -/
structure ConfirmedAlone (db : MeetingDb) (scope : HostActionScope) (execution : ExecutionRecord)
    (approval : ApprovalRecord) (teamId candidate : String) : Prop where
  action : scope.action = .execute
  candidates : scope.candidateIds = [candidate]
  actor : scope.actorId = approval.actorId
  team : scope.teamId = some teamId
  configured : db.host.team = some teamId
  own : ∃ owner original, db.ownership execution = .ok owner ∧
    owner.executionId.bind db.assistant.getExecution = some original ∧
    original.grantId = execution.grantId

/-- The invocation an approval records, asked for again. -/
structure Recorded (request : ToolInvocation) (spec : ToolSpec) (execution : ExecutionRecord)
    (approval : ApprovalRecord) : Prop where
  asked : request.executionId = execution.id
  candidate : request.candidateId = approval.candidateId
  grant : request.grantId = none ∨ request.grantId = execution.grantId
  external : spec.effect = .externalWrite
  capability : spec.capability = approval.capability

theorem scopeTeam_teamScope {teamId : String} (h : stripped teamId ≠ "") :
    scopeTeam (teamScope teamId) = some teamId := by
  have htext : ((teamScope teamId).get? "linear_team_id").bind Json.text? = some teamId := rfl
  rw [scopeTeam, htext, Option.filter_some, if_pos (decide_eq_true h)]

section Approved

variable {execution record : ExecutionRecord} {approval : ApprovalRecord}
  {teamId candidate : String}
  {grantId : GrantId} {ttl : ℕ} {now : Instant} {db : MeetingDb} {scope : HostActionScope}
  {request : ToolInvocation} {spec : ToolSpec}

/-- The grant of an approval is the confirmed one exactly where the approval repeats what was
confirmed. -/
theorem approvedGrant_confirmed {original : ExecutionRecord}
    (hrecords : RecordsTask approval teamId candidate) (haction : scope.action = .execute)
    (hsession : record.sessionId = scope.legacySessionId)
    (hrequest : Recorded request spec execution approval) :
    db.GrantConfirmed scope execution original ((approvedGrant record approval ttl now).row grantId)
        request spec ↔
      original.grantId = execution.grantId ∧ scope.candidateIds = [candidate] ∧
        scope.actorId = approval.actorId ∧ scope.teamId = some teamId ∧
        db.host.team = some teamId := by
  have hteam : scopeTeam approval.resourceScope = some teamId := by
    rw [hrecords.resourceScope]
    exact scopeTeam_teamScope hrecords.team_named
  have hids : ((approvedGrant record approval ttl now).row grantId).candidateIds = [candidate] := by
    simp [GrantDraft.row, approvedGrant, hrecords.candidateId, hrecords.candidate_ne,
      Option.filter, List.eraseDups_cons]
  have hscope : Json.eqv approval.resourceScope
      (.obj [("linear_team_id", (scope.teamId.map Json.str).getD .null)]) = true ↔
        scope.teamId = some teamId := by
    rw [hrecords.resourceScope]
    cases scope.teamId with
    | none => simp [teamScope, Json.eqv, Json.eqvEntries, Json.lookup]
    | some confirmed => simp [teamScope, Json.eqv, Json.eqvEntries, Json.lookup, eq_comm]
  have hbudget : scope.candidateIds = [candidate] → 1 = scope.maxSideEffects := fun hone => by
    obtain ⟨-, -, hpos, hle⟩ := scope.bounded.execution haction
    have hlength : scope.candidateRevisions.length = 1 := by
      simpa [HostActionScope.candidateIds] using congrArg List.length hone
    omega
  have hcapability : spec.capability = "task.create" :=
    hrequest.capability.trans hrecords.capability
  have hcandidate : request.candidateId = some candidate :=
    hrequest.candidate.trans hrecords.candidateId
  have hkeys : scope.candidateIds.Nodup := scope.bounded.keys
  unfold MeetingDb.GrantConfirmed
  rw [hids, sameElements_singleton hkeys]
  simp only [GrantDraft.row, approvedGrant, hteam, hscope, hcapability, hcandidate, hsession]
  constructor
  · rintro ⟨hown, -, hactor, -, hconfirmed, hconfigured, -, hone, -⟩
    exact ⟨hown.symm, hone, hactor.symm, hconfirmed.symm, hconfigured.trans hconfirmed.symm⟩
  · rintro ⟨hown, hone, hactor, hconfirmed, hconfigured⟩
    refine ⟨hown.symm, hrequest.grant, hactor.symm, trivial, hconfirmed.symm,
      hconfigured.trans hconfirmed.symm, hconfirmed, hone, hbudget hone, trivial,
        candidate, rfl, ?_⟩
    rw [hone]
    exact List.mem_singleton.mpr rfl

/-- Where the grant of an accepted approval stands, its authority is in force and the candidate is
unchanged, the guard lets the write through exactly where it was confirmed alone, for the execution
that its operation started. -/
theorem approvedWrite_authorized_iff {cfg : ExecutorConfig} {policy : TaskInvocationPolicy}
    {paused updated : ExecutionRecord} {before after : Db} {executionId : ExecutionId}
    {approvalId : ApprovalId} {version : ℕ} {later : Instant} (hcomposed : ComposedForTasks cfg)
    (hpaused : PausedFor cfg policy paused approval)
    (happrove : approveAssistantAction executionId approvalId version grantId ttl now before =
      .ok (.granted updated, after))
    (hrecord : before.getExecution executionId = some record)
    (happroval : before.approvals.get approvalId = some approval)
    (hcandidate : approval.candidateId = some candidate)
    (hexecution : db.assistant.getExecution executionId = some execution)
    (hgranted : execution.grantId = updated.grantId)
      (hsession : execution.sessionId = record.sessionId)
    (hunused : db.assistant.getGrant grantId = after.getGrant grantId)
    (hauthority : db.checkDb executionId later = .ok (some scope))
    (hunchanged : ∀ revision, scope.revision? candidate = some revision →
      db.host.candidate scope.legacySessionId candidate = some ⟨revision, true, true⟩)
    (hrequest : Recorded request spec execution approval) :
    db.authorizeTool request spec later = .ok () ↔
      ConfirmedAlone db scope execution approval policy.teamId candidate := by
  have hrecords : RecordsTask approval policy.teamId candidate := by
    obtain ⟨recorded, hrecorded⟩ := hpaused.records hcomposed
    obtain rfl : candidate = recorded :=
      Option.some.inj (hcandidate.symm.trans hrecorded.candidateId)
    exact hrecorded
  obtain ⟨record', approval', hrecord', happroval', -, hcreated, hbound, -⟩ :=
    approveAssistantAction_granted happrove
  obtain rfl : record = record' := Option.some.inj (hrecord.symm.trans hrecord')
  obtain rfl : approval = approval' := Option.some.inj (happroval.symm.trans happroval')
  have hid : execution.id = executionId := Table.key_of_get hexecution
  have hasked : request.executionId = executionId := hrequest.asked.trans hid
  have hgrant : execution.grantId.bind db.assistant.getGrant =
      some ((approvedGrant record approval ttl now).row grantId) := by
    rw [hgranted, hbound]
    exact hunused.trans hcreated
  obtain ⟨checked, owner, _, hchecked, -, howner, howned, hsame⟩ := MeetingDb.checkDb_ok hauthority
  cases hsame
  obtain rfl : execution = checked := Option.some.inj (hexecution.symm.trans hchecked)
  have hmeeting : record.sessionId = scope.legacySessionId :=
    hsession.symm.trans (MeetingDb.checkOwned_session howned)
  rw [MeetingDb.authorizeTool_external hrequest.external, hasked, hauthority]
  constructor
  · rintro ⟨_, hscope, haction, hexternal⟩
    cases hscope
    obtain ⟨e, o, original, g, _, _, he, ho, horiginal, hg, hconfirmed, -⟩ :=
      MeetingDb.authorizeExternal_eq_ok.mp hexternal
    rw [hasked] at he
    obtain rfl : execution = e := Option.some.inj (hexecution.symm.trans he)
    obtain rfl := Option.some.inj (hgrant.symm.trans hg)
    obtain ⟨hown, hone, hactor, hteam, hconfigured⟩ :=
      (approvedGrant_confirmed hrecords haction hmeeting hrequest).mp hconfirmed
    exact ⟨haction, hone, hactor, hteam, hconfigured, o, original, ho, horiginal, hown⟩
  · rintro ⟨haction, hone, hactor, hteam, hconfigured, o, original, ho, horiginal, hown⟩
    refine ⟨scope, rfl, haction, MeetingDb.authorizeExternal_eq_ok.mpr ?_⟩
    have hmem : candidate ∈ scope.candidateIds := by simp [hone]
    obtain ⟨revision, hrevision⟩ := HostActionScope.revision_of_mem hmem
    refine ⟨execution, o, original, _, candidate, ⟨revision, true, true⟩, ?_, ho, horiginal, hgrant,
      (approvedGrant_confirmed hrecords haction hmeeting hrequest).mpr
        ⟨hown, hone, hactor, hteam, hconfigured⟩,
      hrequest.candidate.trans hrecords.candidateId, hunchanged revision hrevision,
      hrevision, rfl, rfl⟩
    rw [hasked]
    exact hexecution

end Approved

section Example

def demoPolicy : TaskInvocationPolicy where
  validate := fun arguments =>
    match (arguments.get? "candidate_id").bind Json.text? with
    | none => none
    | some candidate => if h : candidate ≠ "" then some ⟨candidate, 1, h⟩ else none
  actionKeyForCandidate := fun candidate _ => .ok candidate
  idempotencyKey := fun _ capability key => capability ++ key
  teamId := "local-demo-team"
  fallback := fun _ _ _ => .error (.value "no such tool")
  teamId_named := stripped_ne_empty (by decide)

theorem fileTaskConfig_composed : ComposedForTasks fileTaskConfig := by
  intro name tool htool _
  by_cases hname : name = "task.create"
  · simp only [fileTaskConfig, hname, if_true, Option.some.injEq] at htool
    rw [← htool]
    exact ⟨rfl, rfl⟩
  · simp only [fileTaskConfig, hname, if_false] at htool
    cases htool

def proposedTask : ProposedToolCall where
  toolName := "task.create"
  arguments := .obj [("candidate_id", .str "candidate-1")]
  purpose := "file the task"
  evidenceRefs := []

def taskScope : HostActionScope where
  pluginId := meetingPluginId
  pluginVersion := "1.0.0"
  mediaSessionId := 1
  legacySessionId := 1
  actorId := "local-user"
  authorityEpoch := 0
  action := .execute
  payloadHash := 0
  candidateRevisions := [("candidate-1", 1)]
  teamId := some "local-demo-team"
  maxSideEffects := 1
  capabilityGrantId := some 1
  bounded := by constructor <;> simp

theorem planning_declared : Declared .actionRun .planning := by decide

def taskRun (root : ExecutionId) : ExecutionRecord where
  id := 2
  sessionId := 1
  profile := .actionRun
  rootExecutionId := root
  goal := "file the task"
  status := .planning
  createdAt := 2
  statusDeclared := planning_declared

def taskOperation (scope : HostActionScope) (starter : ExecutionId) : OperationRecord where
  id := 1
  pluginId := meetingPluginId
  pluginVersion := "1.0.0"
  mediaSessionId := 1
  legacySessionId := 1
  authorityEpoch := 0
  intentId := some 1
  executionId := some starter
  clientRequestId := "request-1"
  action := scope.action
  requestPayload := .ask "file the task"
  status := .running
  createdAt := 1

def taskMeeting (scope : HostActionScope) (starter : ExecutionId) : MeetingDb where
  assistant := { executions := (Table.empty.insert (taskRun starter)).getD .empty }
  sessions := (Table.empty.insert questionSession).getD .empty
  intents := (Table.empty.insert
    { id := 1, tokenHash := 11, scope, status := .consumed, createdAt := 1, expiresAt := 900
      consumedAt := some 1 }).getD .empty
  operations := (Table.empty.insert (taskOperation scope starter)).getD .empty
  capabilityGrants := (Table.empty.insert
    { id := 1, pluginId := meetingPluginId, pluginVersion := "1.0.0", mediaSessionId := 1
      capability := scope.action.capability, effect := scope.action.effect
      scope := capabilityGrantScope scope, expiresAt := 900 }).getD .empty
  host := { permittingHost with candidate := fun _ _ => some ⟨1, true, true⟩ }

def taskWrite : UnauthorizedWrite where
  spec := fileTask.spec
  invocation :=
    { executionId := 2
      toolName := "task.create"
      arguments := proposedTask.arguments
      candidateId := some "candidate-1"
      requestedResourceScope := teamScope "local-demo-team"
      logicalActionKey := some "candidate-1"
      idempotencyKey := some "task.createcandidate-1"
      stepId := some 1 }
  actorId := "local-user"

def taskApproval : ApprovalRecord where
  id := 1
  executionId := 2
  sessionId := 1
  actorId := "local-user"
  capability := "task.create"
  toolName := "task.create"
  candidateId := some "candidate-1"
  logicalActionKey := some "candidate-1"
  resourceScope := teamScope "local-demo-team"
  arguments := proposedTask.arguments
  evidenceRefs := []
  expiresAt := 903

theorem needsInput_declared : Declared .actionRun .needsInput := by decide

def waitingMeeting (scope : HostActionScope) (starter : ExecutionId) : MeetingDb :=
  { taskMeeting scope starter with
    assistant :=
      { executions := (Table.empty.insert
          { taskRun starter with
            status := .needsInput
            stateVersion := 2
            statusDeclared := needsInput_declared }).getD .empty
        approvals := (Table.empty.insert taskApproval).getD .empty } }

theorem taskApproval_paused : PausedFor fileTaskConfig demoPolicy (taskRun 1) taskApproval :=
  ⟨{}, questionConfirmation.snapshot, 1, 3, [proposedTask], taskWrite, rfl, 1,
    taskMeeting questionScope 1, _, rfl, rfl⟩

/-- A run was handed off by a question. Its task is approved, and then denied: a question
confirms no external write. -/
theorem handedOff_approved_denied :
    PausedFor fileTaskConfig demoPolicy (taskRun 1) taskApproval ∧
    ∃ (updated : ExecutionRecord) (after : Db),
      approveAssistantAction 2 1 2 7 900 10 (waitingMeeting questionScope 1).assistant =
        .ok (.granted updated, after) ∧
      ({ waitingMeeting questionScope 1 with assistant := after } : MeetingDb).checkDb 2 11 =
        .ok (some questionScope) ∧
      ({ waitingMeeting questionScope 1 with assistant := after } : MeetingDb).authorizeTool
        taskWrite.invocation taskWrite.spec 11 =
          .error (.denied "no confirmed external-write action") :=
  ⟨taskApproval_paused, _, _, rfl, rfl, rfl⟩

/-- A run that its own operation started. Its task was confirmed alone, and the approved write
is let through. -/
theorem confirmedTask_authorized :
    ∃ (updated : ExecutionRecord) (after : Db),
      approveAssistantAction 2 1 2 7 900 10 (waitingMeeting taskScope 2).assistant =
        .ok (.granted updated, after) ∧
      ({ waitingMeeting taskScope 2 with assistant := after } : MeetingDb).authorizeTool
        taskWrite.invocation taskWrite.spec 11 = .ok () := by
  have hpaused : PausedFor fileTaskConfig demoPolicy (taskRun 2) taskApproval :=
    ⟨{}, questionConfirmation.snapshot, 1, 3, [proposedTask], taskWrite, rfl, 1,
      taskMeeting taskScope 2, _, rfl, rfl⟩
  obtain ⟨updated, after, happrove, hexecution, hgrant, hchecked, howned⟩ :
      ∃ (updated : ExecutionRecord) (after : Db),
        approveAssistantAction 2 1 2 7 900 10 (waitingMeeting taskScope 2).assistant =
          .ok (.granted updated, after) ∧
        after.getExecution 2 = some updated ∧ updated.sessionId = 1 ∧
        ({ waitingMeeting taskScope 2 with assistant := after } : MeetingDb).checkDb 2 11 =
          .ok (some taskScope) ∧
        ({ waitingMeeting taskScope 2 with assistant := after } : MeetingDb).ownership updated =
          .ok (taskOperation taskScope 2) := ⟨_, _, rfl, rfl, rfl, rfl, rfl⟩
  have hid : updated.id = 2 := Table.key_of_get hexecution
  refine ⟨updated, after, happrove, (approvedWrite_authorized_iff fileTaskConfig_composed hpaused
    happrove rfl rfl rfl hexecution rfl hgrant rfl hchecked (fun revision hrevision => ?_)
    ⟨hid.symm, rfl, Or.inl rfl, rfl, rfl⟩).mpr
    ⟨rfl, rfl, rfl, rfl, rfl, _, updated, howned, hexecution, rfl⟩⟩
  cases hrevision
  rfl

end Example

end Assistant
end Matinier
