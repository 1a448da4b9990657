import Matinier.Foundation.Checked
import Matinier.Foundation.Table

/-!
# Status tables of the assistant

The statuses of executions, tool calls, external action claims and subagent
runs, with the transition tables of the source and the functions that check a
requested transition against them. A request for the current status passes
every one of these checks.
-/

namespace Matinier
namespace Assistant

/-- What a function of the assistant raises. -/
inductive Fault where
  | lookup (message : String)
  | value (message : String)
  | typeError (message : String)
  | runtime (message : String)
  | stateConflict (message : String)
  | idempotencyConflict (message : String)
  | grantUnavailable (message : String)
  | grantAuthorization (code message : String)
  | integrity
  | denied (message : String)
  deriving DecidableEq, Repr

inductive ExecutionProfile where
  | fastTurn
  | actionRun
  deriving DecidableEq, Repr

inductive ExecutionStatus where
  | received
  | contextualizing
  | deciding
  | executingReads
  | responding
  | handedOff
  | queued
  | planning
  | executing
  | observing
  | waitingExternal
  | reconciling
  | needsInput
  | completed
  | partialCompletion
  | failed
  | cancelled
  deriving DecidableEq, Repr

inductive ClaimStatus where
  | reserved
  | requesting
  | unknown
  | succeeded
  | failedSafe
  deriving DecidableEq, Repr

inductive ToolCallStatus where
  | prepared
  | requesting
  | pending
  | succeeded
  | failed
  | unknown
  | reconciling
  deriving DecidableEq, Repr

inductive SubagentStatus where
  | queued
  | running
  | completed
  | failed
  | cancelled
  deriving DecidableEq, Repr

def ExecutionProfile.name : ExecutionProfile → String
  | .fastTurn => "fast_turn"
  | .actionRun => "action_run"

def ExecutionStatus.name : ExecutionStatus → String
  | .received => "received"
  | .contextualizing => "contextualizing"
  | .deciding => "deciding"
  | .executingReads => "executing_reads"
  | .responding => "responding"
  | .handedOff => "handed_off"
  | .queued => "queued"
  | .planning => "planning"
  | .executing => "executing"
  | .observing => "observing"
  | .waitingExternal => "waiting_external"
  | .reconciling => "reconciling"
  | .needsInput => "needs_input"
  | .completed => "completed"
  | .partialCompletion => "partial"
  | .failed => "failed"
  | .cancelled => "cancelled"

def ClaimStatus.name : ClaimStatus → String
  | .reserved => "reserved"
  | .requesting => "requesting"
  | .unknown => "unknown"
  | .succeeded => "succeeded"
  | .failedSafe => "failed_safe"

def ToolCallStatus.name : ToolCallStatus → String
  | .prepared => "prepared"
  | .requesting => "requesting"
  | .pending => "pending"
  | .succeeded => "succeeded"
  | .failed => "failed"
  | .unknown => "unknown"
  | .reconciling => "reconciling"

def SubagentStatus.name : SubagentStatus → String
  | .queued => "queued"
  | .running => "running"
  | .completed => "completed"
  | .failed => "failed"
  | .cancelled => "cancelled"

/-- The keys of the table and where each may go; other statuses are no keys of it. -/
def fastTurnTransitions : ExecutionStatus → Option (List ExecutionStatus)
  | .received => some [.contextualizing, .failed, .cancelled]
  | .contextualizing => some [.deciding, .failed, .cancelled]
  | .deciding => some [.responding, .executingReads, .handedOff, .failed, .cancelled]
  | .executingReads => some [.responding, .handedOff, .failed, .cancelled]
  | .responding => some [.completed, .failed, .cancelled]
  | .handedOff | .completed | .failed | .cancelled => some []
  | _ => none

def actionRunTransitions : ExecutionStatus → Option (List ExecutionStatus)
  | .queued => some [.planning, .failed, .cancelled]
  | .planning => some [.queued, .executing, .needsInput, .failed, .cancelled]
  | .executing => some [.observing, .waitingExternal, .reconciling, .failed, .cancelled]
  | .observing => some [.queued, .planning, .completed, .partialCompletion, .failed, .cancelled]
  | .waitingExternal => some [.observing, .reconciling, .failed, .cancelled]
  | .reconciling => some [.observing, .needsInput, .failed, .cancelled]
  | .needsInput => some [.planning, .failed, .cancelled]
  | .completed | .partialCompletion | .failed | .cancelled => some []
  | _ => none

def externalActionClaimTransitions : ClaimStatus → List ClaimStatus
  | .reserved => [.requesting, .failedSafe]
  | .requesting => [.unknown, .succeeded, .failedSafe]
  | .unknown => [.succeeded, .failedSafe]
  | .succeeded | .failedSafe => []

def toolCallTransitions : ToolCallStatus → List ToolCallStatus
  | .prepared => [.requesting, .failed]
  | .requesting => [.pending, .succeeded, .failed, .unknown]
  | .pending => [.reconciling, .unknown, .failed]
  | .unknown => [.reconciling, .failed]
  | .reconciling => [.pending, .succeeded, .failed, .unknown]
  | .succeeded | .failed => []

def subagentTransitions : SubagentStatus → List SubagentStatus
  | .queued => [.running, .cancelled]
  | .running => [.queued, .completed, .failed, .cancelled]
  | .completed | .failed | .cancelled => []

/-- The table of a profile. -/
def profileTransitions : ExecutionProfile → ExecutionStatus → Option (List ExecutionStatus)
  | .fastTurn => fastTurnTransitions
  | .actionRun => actionRunTransitions

/-- The status is a key of the profile's table. -/
def Declared (profile : ExecutionProfile) (status : ExecutionStatus) : Prop :=
  (profileTransitions profile status).isSome

instance (profile : ExecutionProfile) (status : ExecutionStatus) :
    Decidable (Declared profile status) :=
  inferInstanceAs (Decidable (_ = true))

/-- Where a status may go, as a table without missing keys. -/
def executionEdges (profile : ExecutionProfile) (status : ExecutionStatus) :
    List ExecutionStatus :=
  (profileTransitions profile status).getD []

def initialExecutionStatus : ExecutionProfile → ExecutionStatus
  | .fastTurn => .received
  | .actionRun => .queued

theorem initialExecutionStatus_declared (profile : ExecutionProfile) :
    Declared profile (initialExecutionStatus profile) := by
  cases profile <;> decide

def validateExecutionStatus (profile : ExecutionProfile) (status : ExecutionStatus) :
    Except Fault { s // Declared profile s } :=
  if h : Declared profile status then .ok ⟨status, h⟩
  else .error (.value s!"invalid {profile.name} status: {status.name}")

/-- The status after a transition, with the proof that the profile has it. -/
def transitionExecutionStatus (profile : ExecutionProfile) (current target : ExecutionStatus) :
    Except Fault { s // Declared profile s } := do
  let currentStatus ← validateExecutionStatus profile current
  let targetStatus ← validateExecutionStatus profile target
  if currentStatus = targetStatus then
    return currentStatus
  ensure (targetStatus.val ∈ executionEdges profile currentStatus.val)
    (.value s!"invalid {profile.name} transition: {current.name} -> {target.name}")
  return targetStatus

/-- A status that no edge leaves. -/
def isTerminalExecutionStatus (profile : ExecutionProfile) (status : ExecutionStatus) : Bool :=
  (executionEdges profile status).isEmpty

def transitionExternalActionClaim (current target : ClaimStatus) : Except Fault ClaimStatus :=
  require (StatusTable.advance externalActionClaimTransitions current target)
    (.value s!"invalid external action claim transition: {current.name} -> {target.name}")

def transitionToolCallStatus (current target : ToolCallStatus) : Except Fault ToolCallStatus :=
  require (StatusTable.advance toolCallTransitions current target)
    (.value s!"invalid ToolCall transition: {current.name} -> {target.name}")

def transitionSubagentStatus (current target : SubagentStatus) : Except Fault SubagentStatus :=
  require (StatusTable.advance subagentTransitions current target)
    (.value s!"invalid Subagent transition: {current.name} -> {target.name}")

theorem transitionExecutionStatus_eq_ok {profile : ExecutionProfile}
    {current target : ExecutionStatus} {next : { s // Declared profile s }} :
    transitionExecutionStatus profile current target = .ok next ↔
      Declared profile current ∧ next.val = target ∧
        (current = target ∨ target ∈ executionEdges profile current) := by
  obtain ⟨next, hnext⟩ := next
  unfold transitionExecutionStatus validateExecutionStatus
  by_cases hc : Declared profile current <;> by_cases ht : Declared profile target
  · by_cases hsame : current = target
    · subst hsame
      simp [hc, bind, Except.bind, pure, Except.pure, eq_comm]
    · simp only [hc, ht, dite_true, bind_eq_ok, Except.ok.injEq, exists_eq_left', Subtype.mk.injEq,
        hsame, ite_false, ensure_eq_ok, pure_eq_ok, true_and, false_or, exists_and_left,
        exists_const]
      simp only [eq_comm, and_comm]
  · have hne : next ≠ target := fun h => ht (h ▸ hnext)
    simp [hc, ht, hne, bind, Except.bind]
  · simp [hc, bind, Except.bind]
  · simp [hc, bind, Except.bind]

theorem transitionExternalActionClaim_eq_ok {current target next : ClaimStatus} :
    transitionExternalActionClaim current target = .ok next ↔
      next = target ∧ (current = target ∨ target ∈ externalActionClaimTransitions current) := by
  rw [transitionExternalActionClaim, require_eq_ok, StatusTable.advance_eq_some]

theorem transitionToolCallStatus_eq_ok {current target next : ToolCallStatus} :
    transitionToolCallStatus current target = .ok next ↔
      next = target ∧ (current = target ∨ target ∈ toolCallTransitions current) := by
  rw [transitionToolCallStatus, require_eq_ok, StatusTable.advance_eq_some]

theorem transitionSubagentStatus_eq_ok {current target next : SubagentStatus} :
    transitionSubagentStatus current target = .ok next ↔
      next = target ∧ (current = target ∨ target ∈ subagentTransitions current) := by
  rw [transitionSubagentStatus, require_eq_ok, StatusTable.advance_eq_some]

/-- No transition leads to `received`: a fast turn has it only from its insertion on. -/
theorem received_unentered (profile : ExecutionProfile) :
    StatusTable.Unentered (executionEdges profile) .received := by
  intro c
  cases profile <;> cases c <;> decide

theorem isTerminalExecutionStatus_iff {profile : ExecutionProfile} {status : ExecutionStatus} :
    isTerminalExecutionStatus profile status = true ↔
      StatusTable.Terminal (executionEdges profile) status := by
  simp [isTerminalExecutionStatus, StatusTable.Terminal]

theorem stoppable {profile : ExecutionProfile} {status : ExecutionStatus}
    (h : Declared profile status) (hopen : isTerminalExecutionStatus profile status = false) :
    ExecutionStatus.failed ∈ executionEdges profile status ∧
      ExecutionStatus.cancelled ∈ executionEdges profile status := by
  revert h hopen
  cases profile <;> cases status <;> decide

end Assistant
end Matinier
