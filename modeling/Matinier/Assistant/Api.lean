import Mathlib.Algebra.GroupWithZero.Nat
import Matinier.Assistant.Background

/-!
# What the user does to an execution

The four operations of the interface that write: input, cancellation, and the
approval or rejection of an external write. Each is one transaction at the
version the user saw. A repeated operation is answered from its record and
writes nothing, so only first ones are described here.
-/

namespace Matinier
namespace Assistant

def staleStateVersion : Fault := .stateConflict "stale_state_version"

/-- How the external writes of an execution have ended so far. -/
structure ExternalEffects where
  confirmed : ℕ
  unknown : ℕ
  existingActionsRemain : Bool
  deriving DecidableEq

def confirmedEffects (call : ToolCallRecord) : ℕ :=
  if call.status = .succeeded then
    ((call.result.bind ToolResult.confirmedSideEffects).map Fin.val).getD 0
  else 0

def externalEffects (db : Db) (executionId : ExecutionId) : ExternalEffects :=
  let calls := db.toolCalls.select fun c =>
    c.executionId = executionId ∧ c.effect = .externalWrite
  let confirmed := (calls.map confirmedEffects).sum
  { confirmed
    unknown := calls.countP fun c => c.status ∈ unresolvedStatuses
    existingActionsRemain := 0 < confirmed }

def cancelledResult (record : ExecutionRecord) (effects : ExternalEffects) : ExecutionResult :=
  { record.result.getD {} with
    cancelled := some true
    confirmedExternalSideEffects := some effects.confirmed
    unknownExternalSideEffects := some effects.unknown
    existingExternalActionsRemain := some effects.existingActionsRemain }

def inputActor (db : Db) (record : ExecutionRecord) : String :=
  ((record.grantId.bind db.getGrant).map GrantRecord.actorId).getD "local-user"

/-- Answer the question of an execution and let it plan again. -/
def submitAssistantInput (executionId : ExecutionId) (expectedStateVersion : ℕ)
    (clientOperationId : ℕ) (input : String) (now : Instant) : Transaction ExecutionRecord :=
  fun db => do
    let record ← db.getExecutionRequired executionId
    ensure (record.stateVersion = expectedStateVersion) staleStateVersion
    ensure (record.profile = .actionRun ∧ record.status = .needsInput)
      (.stateConflict "execution_not_waiting_for_input")
    let (_, db) ← db.appendObservation record.id .user
      (.obj [("input", .str input), ("actor_id", .str (inputActor db record))]) []
      (some clientOperationId) db.newObservationId
    db.transitionExecution record.id
      { expectedVersion := expectedStateVersion
        targetStatus := .planning
        eventType := "action.input_received"
        result := some { inputReceived := some true }
        changedAt := now }

/-- Cancel an execution that is not over. -/
def cancelAssistantExecution (executionId : ExecutionId) (expectedStateVersion : ℕ)
    (now : Instant) : Transaction ExecutionRecord := fun db => do
  let record ← db.getExecutionRequired executionId
  ensure (record.stateVersion = expectedStateVersion) staleStateVersion
  ensure (isTerminalExecutionStatus record.profile record.status = false)
    (.stateConflict "execution_already_terminal")
  db.transitionExecution record.id
    { expectedVersion := expectedStateVersion
      targetStatus := .cancelled
      eventType := "execution.cancelled"
      result := some (cancelledResult record (externalEffects db record.id))
      changedAt := now }

def requireApproval (db : Db) (execution : ExecutionRecord) (approvalId : ApprovalId) :
    Except Fault ApprovalRecord := do
  let approval ← require (db.approvals.get approvalId) (.lookup "Action approval not found")
  ensure (approval.executionId = execution.id ∧ approval.sessionId = execution.sessionId)
    (.lookup "Action approval not found")
  return approval

/-- How an approval is answered: it grants, it was granted before, or it came too late. -/
inductive ApprovalReply where
  | granted (execution : ExecutionRecord)
  | alreadyApproved
  | expired

def scopeTeam (resourceScope : Json) : Option String :=
  ((resourceScope.get? "linear_team_id").bind Json.text?).filter fun team =>
    stripped team ≠ ""

/-- The grant an approval creates: one side effect of what the approval shows. -/
def approvedGrant (record : ExecutionRecord) (approval : ApprovalRecord) (ttl : ℕ)
    (now : Instant) : GrantDraft where
  sessionId := record.sessionId
  actorId := approval.actorId
  goal := record.goal
  capabilities := [approval.capability]
  resourceScope := approval.resourceScope
  candidateIds := (approval.candidateId.filter fun candidate => candidate ≠ "").toList
  linearTeamId := scopeTeam approval.resourceScope
  maxSideEffects := 1
  expiresAt := min approval.expiresAt (now + ttl)

/-- Grant a pending approval: create the grant, resolve the approval and let the execution
plan again under the new grant. -/
def grantApproval (record : ExecutionRecord) (approval : ApprovalRecord)
    (expectedStateVersion : ℕ) (grantId : GrantId) (ttl : ℕ) (now : Instant) :
    Transaction ExecutionRecord := fun db => do
  let (grant, db) ← db.createGrant (approvedGrant record approval ttl now) grantId
  let (approval, db) ← db.resolveActionApproval approval.id .approved (some grant.id) now
  db.transitionExecution record.id
    { expectedVersion := expectedStateVersion
      targetStatus := .planning
      eventType := "action.approval_granted"
      result := some
        { inputReceived := some true
          pendingApprovalId := some approval.id
          userRejected := some false }
      grantId := some grant.id
      changedAt := now }

def approveAssistantAction (executionId : ExecutionId) (approvalId : ApprovalId)
    (expectedStateVersion : ℕ) (grantId : GrantId) (ttl : ℕ) (now : Instant) :
    Transaction ApprovalReply := fun db => do
  let record ← db.getExecutionRequired executionId
  let approval ← requireApproval db record approvalId
  if approval.status = .approved then
    return (.alreadyApproved, db)
  else
    ensure (approval.status ≠ .rejected) (.stateConflict "approval_rejected")
    if approval.expiresAt ≤ now ∨ approval.status = .expired then
      -- What is too late is recorded before the request is refused.
      let (_, db) ← db.resolveActionApproval approval.id .expired none now
      return (.expired, db)
    else
      ensure (record.stateVersion = expectedStateVersion) staleStateVersion
      ensure (record.profile = .actionRun ∧ record.status = .needsInput)
        (.stateConflict "execution_not_waiting_for_approval")
      let (updated, db) ← grantApproval record approval expectedStateVersion grantId ttl now db
      return (.granted updated, db)

def closePending (db : Db) (approval : ApprovalRecord) (now : Instant) :
    Except Fault (ApprovalRecord × Db) :=
  if approval.status = .pending then db.resolveActionApproval approval.id .rejected none now
  else .ok (approval, db)

/-- Reject a pending approval and cancel the execution it belongs to. -/
def rejectAssistantAction (executionId : ExecutionId) (approvalId : ApprovalId)
    (expectedStateVersion : ℕ) (now : Instant) : Transaction Unit := fun db => do
  let record ← db.getExecutionRequired executionId
  let approval ← requireApproval db record approvalId
  if approval.status = .rejected then
    return ((), db)
  else
    ensure (approval.status ≠ .approved) (.stateConflict "approval_already_approved")
    ensure (record.stateVersion = expectedStateVersion) staleStateVersion
    ensure (isTerminalExecutionStatus record.profile record.status = false)
      (.stateConflict "execution_already_terminal")
    let (_, resolved) ← closePending db approval now
    let (_, cancelled) ← resolved.transitionExecution record.id
      { expectedVersion := expectedStateVersion
        targetStatus := .cancelled
        eventType := "action.approval_rejected"
        result := some
          { cancelledResult record (externalEffects db record.id) with
            userRejected := some true
            pendingApprovalId := some approval.id }
        changedAt := now }
    return ((), cancelled)

section Background

variable {db db' : Db} {executionId : ExecutionId} {approvalId : ApprovalId} {version : ℕ}
  {now : Instant}

theorem resolveActionApproval_background {target : ApprovalStatus} {grantId : Option GrantId}
    {record : ApprovalRecord}
    (h : db.resolveActionApproval approvalId target grantId now = .ok (record, db')) :
    Background db db' := by
  obtain ⟨old, -, ⟨-, -, rfl⟩ | ⟨-, -, -, rfl⟩⟩ := Db.resolveActionApproval_ok h
  · exact .refl _
  · exact .of_eq rfl rfl rfl

theorem submitAssistantInput_background {operation : ℕ} {input : String}
    {updated : ExecutionRecord}
    (h : submitAssistantInput executionId version operation input now db = .ok (updated, db')) :
    Background db db' := by
  unfold submitAssistantInput at h
  simp only [bind_eq_ok, Prod.exists] at h
  obtain ⟨record, -, _, -, _, -, observation, db₁, hobserve, hmove⟩ := h
  obtain ⟨-, -, observations, -, rfl⟩ := Db.appendObservation_eq_ok.mp hobserve
  have hobserved : Background db { db with observations } := .of_eq rfl rfl rfl
  exact hobserved.trans (.of_moves (Db.transitionExecution_moves hmove))

theorem cancelAssistantExecution_background {updated : ExecutionRecord}
    (h : cancelAssistantExecution executionId version now db = .ok (updated, db')) :
    Background db db' := by
  unfold cancelAssistantExecution at h
  simp only [bind_eq_ok] at h
  obtain ⟨record, -, _, -, _, -, hmove⟩ := h
  exact .of_moves (Db.transitionExecution_moves hmove)

theorem rejectAssistantAction_background {u : Unit}
    (h : rejectAssistantAction executionId approvalId version now db = .ok (u, db')) :
    Background db db' := by
  unfold rejectAssistantAction closePending at h
  simp only [bind_eq_ok] at h
  obtain ⟨record, -, approval, -, h⟩ := h
  split_ifs at h
  · cases h
    exact .refl _
  · simp only [bind_eq_ok, pure_eq_ok, Prod.mk.injEq, Prod.exists] at h
    obtain ⟨_, -, _, -, _, -, closed, db₁, hclose, moved, db₂, hmove, -, rfl⟩ := h
    refine Background.trans ?_ (.of_moves (Db.transitionExecution_moves hmove))
    exact resolveActionApproval_background hclose
  · simp only [bind_eq_ok, pure_eq_ok, Prod.mk.injEq, Prod.exists] at h
    obtain ⟨_, -, _, -, _, -, closed, db₁, hclose, moved, db₂, hmove, -, rfl⟩ := h
    cases hclose
    exact .of_moves (Db.transitionExecution_moves hmove)

theorem createGrant_background {draft : GrantDraft} {grantId : GrantId} {grant : GrantRecord}
    (h : db.createGrant draft grantId = .ok (grant, db')) : Background db db' := by
  obtain ⟨rfl, grants, hins, rfl⟩ := Db.createGrant_eq_ok.mp h
  exact .of_budgets rfl rfl (.of_insert hins rfl)

theorem transitionGrantStatus_background {grantId : GrantId} {target : GrantStatus}
    {expected : Option GrantStatus} {grant : GrantRecord}
    (h : db.transitionGrantStatus grantId target expected now = .ok (grant, db')) :
    Background db db' := by
  obtain ⟨old, hold, hid, hused, hmax, rfl | rfl⟩ := Db.transitionGrantStatus_ok h
  · exact .refl _
  · obtain rfl : old.id = grantId := Table.key_of_get hold
    have hwrites : Table.Writes db.grants (db.grants.set grant) grant := by
      rw [← hid] at hold
      exact Table.Writes.of_set hold ⟨hid.symm, Or.inl rfl⟩
    exact .of_budgets rfl rfl (.of_writes hold hwrites hid hused hmax)

theorem approveAssistantAction_background {grantId : GrantId} {ttl : ℕ} {reply : ApprovalReply}
    (h : approveAssistantAction executionId approvalId version grantId ttl now db =
      .ok (reply, db')) : Background db db' := by
  unfold approveAssistantAction at h
  simp only [bind_eq_ok] at h
  obtain ⟨record, -, approval, -, h⟩ := h
  split_ifs at h
  · cases h
    exact .refl _
  · simp only [bind_eq_ok, pure_eq_ok, Prod.mk.injEq, Prod.exists] at h
    obtain ⟨_, -, resolved, db₁, hresolve, -, rfl⟩ := h
    exact resolveActionApproval_background hresolve
  · simp only [grantApproval, bind_eq_ok, pure_eq_ok, Prod.mk.injEq, Prod.exists] at h
    obtain ⟨_, -, _, -, _, -, updated, db₁, ⟨grant, db₂, hcreate, resolved, db₃, hresolve,
      hmove⟩, -, rfl⟩ := h
    exact (createGrant_background hcreate).trans
      ((resolveActionApproval_background hresolve).trans
        (.of_moves (Db.transitionExecution_moves hmove)))

end Background

end Assistant
end Matinier
