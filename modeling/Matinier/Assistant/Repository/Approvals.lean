import Matinier.Assistant.Repository.Executions

/-!
# Action approvals and subagent runs in the repository

An approval is created pending and resolved once. Creation returns the pending
approval the execution already has, whatever it was created for. A subagent run
is created queued and moved along its own status table; a run that is over
cannot be changed.
-/

namespace Matinier
namespace Assistant

structure ApprovalDraft where
  executionId : ExecutionId
  sessionId : SessionId
  actorId : String
  capability : String
  toolName : String
  candidateId : Option String
  logicalActionKey : Option String
  resourceScope : Json
  arguments : Json
  evidenceRefs : List String
  expiresAt : Instant

def ApprovalDraft.row (draft : ApprovalDraft) (id : ApprovalId) : ApprovalRecord where
  id := id
  executionId := draft.executionId
  sessionId := draft.sessionId
  actorId := draft.actorId
  capability := draft.capability
  toolName := draft.toolName
  candidateId := draft.candidateId
  logicalActionKey := draft.logicalActionKey
  resourceScope := draft.resourceScope
  arguments := draft.arguments
  evidenceRefs := draft.evidenceRefs.eraseDups
  expiresAt := draft.expiresAt

structure SubagentRunUpdate where
  status : SubagentStatus
  result : Option SubagentResult := none
  errorCode : Option String := none
  errorMessage : Option String := none
  changedAt : Instant

def SubagentStatus.isTerminal (s : SubagentStatus) : Bool :=
  s = .completed ∨ s = .failed ∨ s = .cancelled

def SubagentRunRecord.updated (record : SubagentRunRecord) (u : SubagentRunUpdate) :
    SubagentRunRecord :=
  { record with
    status := u.status
    result := u.result.or record.result
    errorCode := u.errorCode
    errorMessage := u.errorMessage
    startedAt :=
      if u.status = .running ∧ record.startedAt.isNone then some u.changedAt
      else record.startedAt
    completedAt := if u.status.isTerminal then some u.changedAt else record.completedAt }

def SubagentResult.eqv : SubagentResult → SubagentResult → Bool
  | .analysis a, .analysis b =>
    a.summary = b.summary && Json.eqv a.payload b.payload && a.evidenceRefs = b.evidenceRefs &&
      a.modelCallCount = b.modelCallCount && a.blocksExternalWrite = b.blocksExternalWrite
  | .failure a, .failure b => a = b
  | _, _ => false

/-- The update asks for nothing that the run does not have already. -/
def SubagentRunRecord.Unchanged (record : SubagentRunRecord) (u : SubagentRunUpdate) : Prop :=
  u.status = record.status ∧
    (u.result.isNone ∨ ∃ r ∈ u.result, ∃ s ∈ record.result, r.eqv s) ∧
    (u.errorCode = none ∨ u.errorCode = record.errorCode) ∧
    (u.errorMessage = none ∨ u.errorMessage = record.errorMessage)

instance SubagentRunRecord.decidableUnchanged (record : SubagentRunRecord)
    (u : SubagentRunUpdate) :
    Decidable (record.Unchanged u) :=
  inferInstanceAs (Decidable (_ ∧ _))

namespace Db

/-- The pending approval of the execution, or a new one. -/
def createPendingActionApproval (db : Db) (draft : ApprovalDraft) (id : ApprovalId) :
    Except Fault (ApprovalRecord × Db) := do
  match db.getPendingActionApproval draft.executionId with
  | some existing => return (existing, db)
  | none =>
    let approvals ← require (db.approvals.insert (draft.row id)) .integrity
    return (draft.row id, { db with approvals })

/-- Resolve a pending approval; resolving it the same way again changes nothing. -/
def resolveActionApproval (db : Db) (id : ApprovalId) (targetStatus : ApprovalStatus)
    (grantId : Option GrantId) (resolvedAt : Instant) : Except Fault (ApprovalRecord × Db) := do
  ensure (targetStatus ≠ .pending) (.value "invalid approval status: pending")
  let record ← require (db.approvals.get id) (.lookup s!"Action approval not found: {id}")
  if record.status = targetStatus then
    return (record, db)
  else
    ensure (record.status = .pending) (.stateConflict s!"Action approval {id} is resolved")
    let updated := { record with
      status := targetStatus
      resolvedAt := some resolvedAt
      grantId := grantId.or record.grantId }
    return (updated, { db with approvals := db.approvals.set updated })

/-- Move a subagent run that has the expected status; one that is over accepts only the
request that changes nothing. -/
def transitionSubagentRun (db : Db) (id : SubagentRunId) (expectedStatus : SubagentStatus)
    (u : SubagentRunUpdate) : Except Fault (SubagentRunRecord × Db) := do
  let record ← require (db.subagentRuns.get id)
    (.lookup s!"Assistant Subagent run not found: {id}")
  ensure (record.status = expectedStatus)
    (.stateConflict s!"Subagent no longer has status {expectedStatus.name}")
  let _ ← transitionSubagentStatus record.status u.status
  if record.status.isTerminal then
    ensure (record.Unchanged u) (.stateConflict "terminal Subagent cannot be changed")
    return (record, db)
  else
    return (record.updated u, { db with subagentRuns := db.subagentRuns.set (record.updated u) })

theorem createPendingActionApproval_eq_ok {db db' : Db} {draft : ApprovalDraft}
    {id : ApprovalId} {record : ApprovalRecord} :
    db.createPendingActionApproval draft id = .ok (record, db') ↔
      db.getPendingActionApproval draft.executionId = some record ∧ db' = db ∨
        db.getPendingActionApproval draft.executionId = none ∧ record = draft.row id ∧
          ∃ approvals, db.approvals.insert (draft.row id) = some approvals ∧
            db' = { db with approvals } := by
  unfold createPendingActionApproval
  cases hfound : db.getPendingActionApproval draft.executionId with
  | some existing =>
    simp only [pure_eq_ok, Prod.mk.injEq, Option.some.injEq, reduceCtorEq, false_and, or_false]
    exact and_congr_right fun _ => eq_comm
  | none =>
    simp only [bind_eq_ok, require_eq_ok, pure_eq_ok, Prod.mk.injEq, reduceCtorEq, false_and,
      false_or, true_and]
    constructor
    · rintro ⟨approvals, hins, rfl, rfl⟩
      exact ⟨rfl, approvals, hins, rfl⟩
    · rintro ⟨rfl, approvals, hins, rfl⟩
      exact ⟨approvals, hins, rfl, rfl⟩

/-- Resolution keeps everything about an approval but its status, grant and time. -/
theorem resolveActionApproval_ok {db db' : Db} {id : ApprovalId} {target : ApprovalStatus}
    {grantId : Option GrantId} {now : Instant} {record : ApprovalRecord}
    (h : db.resolveActionApproval id target grantId now = .ok (record, db')) :
    ∃ old, db.approvals.get id = some old ∧
      (record = old ∧ old.status = target ∧ db' = db ∨
        old.status = .pending ∧ target ≠ .pending ∧
        record = { old with
          status := target, resolvedAt := some now, grantId := grantId.or old.grantId } ∧
        db' = { db with approvals := db.approvals.set record }) := by
  unfold resolveActionApproval at h
  simp only [bind_eq_ok, require_eq_ok, ensure_eq_ok] at h
  obtain ⟨_, htarget, old, hold, hwrite⟩ := h
  refine ⟨old, hold, ?_⟩
  split_ifs at hwrite with hsame
  · simp only [pure_eq_ok, Prod.mk.injEq] at hwrite
    obtain ⟨rfl, rfl⟩ := hwrite
    exact Or.inl ⟨rfl, hsame, rfl⟩
  · simp only [bind_eq_ok, ensure_eq_ok, pure_eq_ok, Prod.mk.injEq] at hwrite
    obtain ⟨_, hpending, rfl, rfl⟩ := hwrite
    exact Or.inr ⟨hpending, htarget, rfl, rfl⟩

theorem transitionSubagentRun_eq_ok {db db' : Db} {id : SubagentRunId}
    {expected : SubagentStatus} {u : SubagentRunUpdate} {record : SubagentRunRecord}
    (hlive : expected.isTerminal = false) :
    db.transitionSubagentRun id expected u = .ok (record, db') ↔
      ∃ old, db.subagentRuns.get id = some old ∧ old.status = expected ∧
        (expected = u.status ∨ u.status ∈ subagentTransitions expected) ∧
        record = old.updated u ∧
        db' = { db with subagentRuns := db.subagentRuns.set record } := by
  unfold transitionSubagentRun
  simp only [bind_eq_ok, require_eq_ok, ensure_eq_ok, transitionSubagentStatus_eq_ok]
  constructor
  · rintro ⟨old, hold, _, rfl, _, ⟨-, hedge⟩, hwrite⟩
    simp only [hlive, Bool.false_eq_true, if_false, pure_eq_ok, Prod.mk.injEq] at hwrite
    obtain ⟨rfl, rfl⟩ := hwrite
    exact ⟨old, hold, rfl, hedge, rfl, rfl⟩
  · rintro ⟨old, hold, rfl, hedge, rfl, rfl⟩
    exact ⟨old, hold, (), rfl, u.status, ⟨rfl, hedge⟩, by simp [hlive]⟩

theorem subagentRun_updated_replaces (record : SubagentRunRecord) (u : SubagentRunUpdate) :
    Table.Replaces (record.updated u) record := ⟨rfl, Or.inr rfl⟩

end Db

end Assistant
end Matinier
