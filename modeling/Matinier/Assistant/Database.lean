import Matinier.Assistant.Records

/-!
# The assistant's database

One value holds every table the assistant writes. A transaction is a function
from the database to a result and the next database, or a fault that leaves the
database as it was.
-/

namespace Matinier
namespace Assistant

structure Db where
  executions : Table ExecutionRecord := .empty
  snapshots : Table ContextSnapshot := .empty
  toolCalls : Table ToolCallRecord := .empty
  claims : Table ClaimRecord := .empty
  grants : Table GrantRecord := .empty
  approvals : Table ApprovalRecord := .empty
  subagentRuns : Table SubagentRunRecord := .empty
  steps : Table StepRecord := .empty
  observations : Table ObservationRecord := .empty
  handoffs : Table HandoffRecord := .empty
  events : List EventRecord := []

/-- A transaction with a result of type `α`. -/
abbrev Transaction (α : Type) := Db → Except Fault (α × Db)

namespace Db

variable (db : Db)

def getExecution (id : ExecutionId) : Option ExecutionRecord := db.executions.get id

def getExecutionRequired (id : ExecutionId) : Except Fault ExecutionRecord :=
  require (db.getExecution id) (.lookup s!"Assistant execution not found: {id}")

def getToolCall (id : ToolCallId) : Option ToolCallRecord := db.toolCalls.get id

def getToolCallRequired (id : ToolCallId) : Except Fault ToolCallRecord :=
  require (db.getToolCall id) (.lookup s!"Assistant ToolCall not found: {id}")

def getToolCallByIdempotencyKey (key : String) : Option ToolCallRecord :=
  db.toolCalls.getUnique key

def getGrant (id : GrantId) : Option GrantRecord := db.grants.get id

def getGrantRequired (id : GrantId) : Except Fault GrantRecord :=
  require (db.getGrant id) (.lookup s!"Action Grant not found: {id}")

/-- The action executions with one of the given statuses. -/
def listActionExecutions (statuses : List ExecutionStatus) : List ExecutionRecord :=
  db.executions.select fun e => e.profile = .actionRun ∧ e.status ∈ statuses

/-- The tool calls of an execution with one of the given statuses. -/
def listToolCalls (executionId : ExecutionId) (statuses : List ToolCallStatus) :
    List ToolCallRecord :=
  db.toolCalls.select fun c => c.executionId = executionId ∧ c.status ∈ statuses

/-- The external writes of an execution with one of the given statuses. -/
def listExternalToolCalls (executionId : ExecutionId) (statuses : List ToolCallStatus) :
    List ToolCallRecord :=
  db.toolCalls.select fun c =>
    c.executionId = executionId ∧ c.status ∈ statuses ∧ c.effect = .externalWrite

def listExternalActionClaims (statuses : List ClaimStatus) : List ClaimRecord :=
  db.claims.select fun c => c.status ∈ statuses

/-- The claim of one logical action. -/
def observeExternalActionClaim (provider capability logicalActionKey : String) :
    Option ClaimRecord :=
  db.claims.getUnique (provider, capability, logicalActionKey)

def getPendingActionApproval (executionId : ExecutionId) : Option ApprovalRecord :=
  db.approvals.getUnique executionId

def listSubagentRuns (executionId : ExecutionId) : List SubagentRunRecord :=
  db.subagentRuns.select fun r => r.executionId = executionId

/-- An identifier no observation has yet, as the source draws one at random. -/
def newObservationId : ObservationId :=
  (db.observations.rows.map ObservationRecord.id).foldr max 0 + 1

theorem lt_foldr_max {n : ℕ} {ns : List ℕ} (h : n ∈ ns) : n < ns.foldr max 0 + 1 := by
  induction ns with
  | nil => cases h
  | cons m ns ih =>
    rw [List.foldr_cons]
    rcases List.mem_cons.mp h with rfl | h
    · exact Nat.lt_succ_of_le (Nat.le_max_left _ _)
    · exact Nat.lt_of_lt_of_le (ih h) (Nat.succ_le_succ (Nat.le_max_right _ _))

@[simp] theorem mem_listActionExecutions {e : ExecutionRecord} {statuses : List ExecutionStatus} :
    e ∈ db.listActionExecutions statuses ↔
      e ∈ db.executions.rows ∧ e.profile = .actionRun ∧ e.status ∈ statuses := by
  simp [listActionExecutions]

@[simp] theorem mem_listToolCalls {id : ExecutionId} {c : ToolCallRecord}
    {statuses : List ToolCallStatus} :
    c ∈ db.listToolCalls id statuses ↔
      c ∈ db.toolCalls.rows ∧ c.executionId = id ∧ c.status ∈ statuses := by
  simp [listToolCalls]

@[simp] theorem mem_listExternalToolCalls {id : ExecutionId} {c : ToolCallRecord}
    {statuses : List ToolCallStatus} :
    c ∈ db.listExternalToolCalls id statuses ↔
      c ∈ db.toolCalls.rows ∧ c.executionId = id ∧ c.status ∈ statuses ∧
        c.effect = .externalWrite := by
  simp [listExternalToolCalls]

@[simp] theorem mem_listExternalActionClaims {c : ClaimRecord} {statuses : List ClaimStatus} :
    c ∈ db.listExternalActionClaims statuses ↔ c ∈ db.claims.rows ∧ c.status ∈ statuses := by
  simp [listExternalActionClaims]

@[simp] theorem mem_listSubagentRuns {id : ExecutionId} {r : SubagentRunRecord} :
    r ∈ db.listSubagentRuns id ↔ r ∈ db.subagentRuns.rows ∧ r.executionId = id := by
  simp [listSubagentRuns]

end Db

end Assistant
end Matinier
