import Matinier.Foundation.Json
import Matinier.Assistant.Status

/-!
# Durable records of the assistant

The rows the assistant keeps and the values stored in them. An identifier is a
natural number where the source has a random or hashed string, and an instant
is a natural number of time units. A record carries what its writers guarantee:
an execution has a status of its profile, and a stored result satisfies the
contract of tool results.
-/

namespace Matinier
namespace Assistant

abbrev SessionId := ℕ
abbrev ExecutionId := ℕ
abbrev SnapshotId := ℕ
abbrev StepId := ℕ
abbrev ObservationId := ℕ
abbrev ToolCallId := ℕ
abbrev ClaimId := ℕ
abbrev GrantId := ℕ
abbrev ApprovalId := ℕ
abbrev SubagentRunId := ℕ
abbrev HandoffId := ℕ
abbrev Instant := ℕ

/-- A digest of canonical arguments. -/
abbrev Digest := ℕ

inductive ToolEffect where
  | read
  | localWrite
  | externalWrite
  deriving DecidableEq, Repr

inductive ToolResultStatus where
  | succeeded
  | pending
  | failed
  | unknown
  deriving DecidableEq, Repr

inductive GrantStatus where
  | active
  | consumed
  | revoked
  | expired
  deriving DecidableEq, Repr

inductive ApprovalStatus where
  | pending
  | approved
  | rejected
  | expired
  deriving DecidableEq, Repr

inductive StepKind where
  | plan
  | tool
  | observe
  | reconcile
  | respond
  deriving DecidableEq, Repr

inductive ObservationSource where
  | tool
  | model
  | system
  | user
  deriving DecidableEq, Repr

inductive SubagentRole where
  | evidence
  | conflict
  | linearResearch
  deriving DecidableEq, Repr

def ToolResultStatus.name : ToolResultStatus → String
  | .succeeded => "succeeded"
  | .pending => "pending"
  | .failed => "failed"
  | .unknown => "unknown"

/-- The tool call status a result leaves. -/
def ToolResultStatus.toCall : ToolResultStatus → ToolCallStatus
  | .succeeded => .succeeded
  | .pending => .pending
  | .failed => .failed
  | .unknown => .unknown

/-- What every tool result satisfies, whoever produced it. -/
structure ToolResult.Contract (status : ToolResultStatus) (output : Option Json)
    (confirmedSideEffects : Option (Fin 2)) (errorCode errorMessage : Option String)
    (retryable : Bool) : Prop where
  succeeded : status = .succeeded →
    output.isSome ∧ errorCode = none ∧ errorMessage = none ∧ retryable = false
  failed : status = .failed → errorCode.isSome ∧ errorMessage.isSome ∧ output = none
  unknown : status = .unknown →
    errorCode.isSome ∧ errorMessage.isSome ∧ output = none ∧ retryable = false
  pending : status = .pending → errorCode = none ∧ errorMessage = none ∧ retryable = false
  unsettled : status = .pending ∨ status = .unknown → confirmedSideEffects = none

/-- The outcome of a tool, as it is returned and stored. -/
structure ToolResult where
  status : ToolResultStatus
  output : Option Json := none
  externalReference : Option Json := none
  confirmedSideEffects : Option (Fin 2) := none
  errorCode : Option String := none
  errorMessage : Option String := none
  retryable : Bool := false
  contract : ToolResult.Contract status output confirmedSideEffects errorCode errorMessage retryable

namespace ToolResult

/-- A success with the given output. -/
def success (output : Json) (externalReference : Option Json := none)
    (confirmedSideEffects : Option (Fin 2) := none) : ToolResult where
  status := .succeeded
  output := some output
  externalReference := externalReference
  confirmedSideEffects := confirmedSideEffects
  contract := by constructor <;> simp

/-- A failure with a safe error. -/
def failure (errorCode errorMessage : String) (externalReference : Option Json := none)
    (confirmedSideEffects : Option (Fin 2) := none) (retryable : Bool := false) : ToolResult where
  status := .failed
  externalReference := externalReference
  confirmedSideEffects := confirmedSideEffects
  errorCode := some errorCode
  errorMessage := some errorMessage
  retryable := retryable
  contract := by constructor <;> simp

/-- An outcome that is not known. -/
def unknownOutcome (errorCode errorMessage : String)
    (externalReference : Option Json := none) : ToolResult where
  status := .unknown
  externalReference := externalReference
  errorCode := some errorCode
  errorMessage := some errorMessage
  contract := by constructor <;> simp

/-- An outcome that is still to come. -/
def pendingOutcome (externalReference : Option Json := none) : ToolResult where
  status := .pending
  externalReference := externalReference
  contract := by constructor <;> simp

theorem settled_of_confirmed {r : ToolResult} {n : Fin 2} (h : r.confirmedSideEffects = some n) :
    r.status = .succeeded ∨ r.status = .failed := by
  cases hs : r.status with
  | succeeded => exact Or.inl rfl
  | failed => exact Or.inr rfl
  | pending => simp [r.contract.unsettled (Or.inl hs)] at h
  | unknown => simp [r.contract.unsettled (Or.inr hs)] at h

end ToolResult

structure EvidenceClaim where
  text : String
  evidenceRefs : List String
  deriving DecidableEq

/-- The result column of an execution; an absent key is `none`. -/
structure ExecutionResult where
  responseText : Option String := none
  claims : Option (List EvidenceClaim) := none
  question : Option String := none
  choices : Option (List String) := none
  evidenceRefs : Option (List String) := none
  errorCode : Option String := none
  pendingApprovalId : Option ApprovalId := none
  userRejected : Option Bool := none
  inputReceived : Option Bool := none
  cancelled : Option Bool := none
  confirmedExternalSideEffects : Option ℕ := none
  unknownExternalSideEffects : Option ℕ := none
  existingExternalActionsRemain : Option Bool := none
  handoffExecutionId : Option ExecutionId := none
  handoffId : Option HandoffId := none
  deriving DecidableEq

structure ExecutionRecord where
  id : ExecutionId
  sessionId : SessionId
  profile : ExecutionProfile
  rootExecutionId : ExecutionId
  parentExecutionId : Option ExecutionId := none
  snapshotId : Option SnapshotId := none
  grantId : Option GrantId := none
  clientRequestId : Option String := none
  goal : String
  status : ExecutionStatus
  stateVersion : ℕ := 1
  stepCount : ℕ := 0
  result : Option ExecutionResult := none
  errorCode : Option String := none
  errorMessage : Option String := none
  createdAt : Instant
  startedAt : Option Instant := none
  completedAt : Option Instant := none
  statusDeclared : Declared profile status

structure ToolCallRecord where
  id : ToolCallId
  executionId : ExecutionId
  stepId : Option StepId := none
  toolName : String
  toolVersion : String
  capability : String
  effect : ToolEffect
  arguments : Json
  argumentsHash : Digest
  logicalActionKey : Option String := none
  idempotencyKey : Option String := none
  status : ToolCallStatus := .prepared
  externalReference : Option Json := none
  result : Option ToolResult := none
  errorCode : Option String := none
  errorMessage : Option String := none
  attemptCount : ℕ := 0
  requestedAt : Option Instant := none
  completedAt : Option Instant := none

structure ClaimRecord where
  id : ClaimId
  provider : String
  capability : String
  logicalActionKey : String
  holderExecutionId : ExecutionId
  toolCallId : Option ToolCallId := none
  status : ClaimStatus := .reserved
  argumentsHash : Digest
  externalReference : Option Json := none
  leaseExpiresAt : Instant

structure GrantRecord where
  id : GrantId
  sessionId : SessionId
  actorId : String
  goal : String
  capabilities : List String
  resourceScope : Json
  candidateIds : List String
  linearTeamId : Option String := none
  maxSideEffects : ℕ
  usedSideEffects : ℕ := 0
  expiresAt : Instant
  status : GrantStatus := .active
  revokedAt : Option Instant := none

structure ApprovalRecord where
  id : ApprovalId
  executionId : ExecutionId
  sessionId : SessionId
  actorId : String
  capability : String
  toolName : String
  candidateId : Option String
  logicalActionKey : Option String
  resourceScope : Json
  arguments : Json
  evidenceRefs : List String
  status : ApprovalStatus := .pending
  grantId : Option GrantId := none
  expiresAt : Instant
  resolvedAt : Option Instant := none

/-- What one read-only analysis branch reports. -/
structure SubagentAnalysis where
  summary : String
  payload : Json
  evidenceRefs : List String
  modelCallCount : ℕ
  blocksExternalWrite : Bool
  modelCallCount_pos : 1 ≤ modelCallCount
  modelCallCount_le : modelCallCount ≤ 2

/-- The result column of a subagent run: an analysis, or the calls a failed run made. -/
inductive SubagentResult where
  | analysis (value : SubagentAnalysis)
  | failure (modelCallCount : ℕ)

structure SubagentRunRecord where
  id : SubagentRunId
  executionId : ExecutionId
  planningRound : ℕ
  role : SubagentRole
  status : SubagentStatus := .queued
  snapshotId : SnapshotId
  result : Option SubagentResult := none
  errorCode : Option String := none
  errorMessage : Option String := none
  startedAt : Option Instant := none
  completedAt : Option Instant := none

structure ProposedToolCall where
  toolName : String
  arguments : Json
  purpose : String
  evidenceRefs : List String

inductive CompletionStatus where
  | completed
  | partialCompletion
  deriving DecidableEq

/-- What the planner decides. -/
inductive AgentDecision where
  | respond (claims : List EvidenceClaim)
  | invokeTools (toolCalls : List ProposedToolCall)
  | handoff (goal : String)
  | needsInput (question : String) (evidenceRefs choices : List String)
  | complete (claims : List EvidenceClaim) (completionStatus : CompletionStatus)

/-- A decision with the model calls it took: one, or two after a repair. -/
structure PlannerOutcome where
  decision : AgentDecision
  modelCallCount : ℕ
  repairAttempted : Bool
  modelCallCount_pos : 1 ≤ modelCallCount
  modelCallCount_le : modelCallCount ≤ 2

structure StepRecord where
  id : StepId
  executionId : ExecutionId
  sequence : ℕ
  kind : StepKind
  output : Option PlannerOutcome := none
  decisionSummary : Option String := none

structure ObservationRecord where
  id : ObservationId
  executionId : ExecutionId
  source : ObservationSource
  sourceRef : Option ℕ := none
  observation : Json
  evidenceRefs : List String := []

structure EventRecord where
  executionId : ExecutionId
  stateVersion : ℕ
  eventType : String
  phase : ExecutionStatus
  status : ExecutionStatus
  deriving DecidableEq

structure EvidenceMessage where
  messageKind : String
  actorId : String
  deriving DecidableEq

structure ContextSnapshot where
  id : SnapshotId
  sessionId : SessionId
  evidenceRefs : List String
  evidenceMessages : List EvidenceMessage
  meetingStateVersion : ℕ := 0
  relevantContextHash : Digest := 0
  deriving DecidableEq

/-- A step of a fast turn, as it passes it on. -/
structure HandoffCompletedStep where
  kind : StepKind
  output : Option PlannerOutcome := none
  decisionSummary : Option String := none

structure HandoffObservation where
  source : ObservationSource
  observation : Json
  evidenceRefs : List String := []
  sourceRef : Option ℕ := none

structure HandoffEnvelope where
  handoffId : HandoffId
  parentExecutionId : ExecutionId
  targetExecutionId : ExecutionId
  sessionId : SessionId
  goal : String
  grantId : Option GrantId
  contextSnapshotId : SnapshotId
  meetingStateVersion : ℕ
  evidenceRefs : List String
  completedSteps : List HandoffCompletedStep
  observations : List HandoffObservation
  unresolvedConflicts : List Json
  candidatePlan : Json
  idempotencyScope : String

structure HandoffRecord where
  id : HandoffId
  sourceExecutionId : ExecutionId
  targetExecutionId : ExecutionId
  snapshotId : SnapshotId
  grantId : Option GrantId
  envelope : HandoffEnvelope

instance : Row ExecutionRecord ExecutionId (SessionId × String) where
  key := ExecutionRecord.id
  unique e := e.clientRequestId.map fun request => (e.sessionId, request)

instance : Row ToolCallRecord ToolCallId String where
  key := ToolCallRecord.id
  unique := ToolCallRecord.idempotencyKey

instance : Row ClaimRecord ClaimId (String × String × String) where
  key := ClaimRecord.id
  unique c := some (c.provider, c.capability, c.logicalActionKey)

instance : Row GrantRecord GrantId Empty where
  key := GrantRecord.id
  unique _ := none

/-- At most one pending approval an execution. -/
instance : Row ApprovalRecord ApprovalId ExecutionId where
  key := ApprovalRecord.id
  unique a := if a.status = .pending then some a.executionId else none

instance : Row SubagentRunRecord SubagentRunId (ExecutionId × ℕ × SubagentRole) where
  key := SubagentRunRecord.id
  unique r := some (r.executionId, r.planningRound, r.role)

instance : Row StepRecord StepId (ExecutionId × ℕ) where
  key := StepRecord.id
  unique s := some (s.executionId, s.sequence)

instance : Row ObservationRecord ObservationId Empty where
  key := ObservationRecord.id
  unique _ := none

instance : Row ContextSnapshot SnapshotId Empty where
  key := ContextSnapshot.id
  unique _ := none

instance : Row HandoffRecord HandoffId ExecutionId where
  key := HandoffRecord.id
  unique h := some h.sourceExecutionId

end Assistant
end Matinier
