import Matinier.Assistant.Repository.ToolCalls
import Matinier.Assistant.Repository.Grants
import Matinier.Assistant.Repository.Approvals

/-!
# Tool contracts

What a tool declares about itself, what an invocation of it carries, and what
its adapter is handed. The input and output models of a tool are functions that
validate a JSON value and dump the validated one; the adapter itself belongs to
the outside world.
-/

namespace Matinier
namespace Assistant

/-- A tool's declaration. Writing outside takes idempotency, reconciliation and an action run. -/
structure ToolSpec where
  name : String
  version : String
  capability : String
  effect : ToolEffect
  inputModel : Json → Option Json
  outputModel : Json → Option Json
  timeoutSeconds : ℕ
  supportsIdempotency : Bool
  supportsReconciliation : Bool
  allowedProfiles : List ExecutionProfile
  external_idempotent : effect = .externalWrite → supportsIdempotency = true
  external_reconcilable : effect = .externalWrite → supportsReconciliation = true
  external_profiles : effect = .externalWrite → allowedProfiles = [.actionRun]

/-- A declaration together with the provider its adapter speaks to. -/
structure RegisteredTool where
  spec : ToolSpec
  providerName : String

/-- One active version for each tool name. -/
structure ToolRegistry where
  find : String → Option RegisteredTool
  name_eq : ∀ {name tool}, find name = some tool → tool.spec.name = name

def ToolRegistry.get (registry : ToolRegistry) (name : String) : Except Fault RegisteredTool :=
  require (registry.find name) (.lookup s!"Tool is not registered: {name}")

structure ToolInvocation where
  executionId : ExecutionId
  toolName : String
  arguments : Json
  grantId : Option GrantId := none
  candidateId : Option String := none
  requestedResourceScope : Json := .obj []
  logicalActionKey : Option String := none
  idempotencyKey : Option String := none
  evidenceRefs : List String := []
  stepId : Option StepId := none
  preparedToolCallId : Option ToolCallId := none

/-- What an adapter is handed. -/
structure ToolExecutionContext where
  executionId : ExecutionId
  sessionId : SessionId
  toolCallId : ToolCallId
  arguments : Json
  grant : Option ActionGrant
  candidateId : Option String
  logicalActionKey : Option String
  idempotencyKey : Option String
  evidenceRefs : List String
  externalReference : Option Json
  attempt : ℕ
  reconciling : Bool

/-- How an adapter ends: with a result, out of time, with an exception, or with a value
that is no tool result. -/
inductive AdapterAnswer where
  | result (value : ToolResult)
  | timeout
  | raised
  | malformed

def validateResult (spec : ToolSpec) (result : ToolResult) : Except Fault ToolResult :=
  match h : result.output with
  | none => .ok result
  | some output =>
    match spec.outputModel output with
    | none => .error (.value "tool output is invalid")
    | some dumped => .ok
        { result with
          output := some dumped
          contract := by
            have hc := result.contract
            rw [h] at hc
            constructor
            · intro hs
              exact ⟨rfl, (hc.succeeded hs).2⟩
            · intro hs
              have habsurd := (hc.failed hs).2.2
              cases habsurd
            · intro hs
              have habsurd := (hc.unknown hs).2.2.1
              cases habsurd
            · exact hc.pending
            · exact hc.unsettled }

theorem validateResult_ok {spec : ToolSpec} {r s : ToolResult}
    (h : validateResult spec r = .ok s) :
    s.status = r.status ∧ s.confirmedSideEffects = r.confirmedSideEffects ∧
      s.errorCode = r.errorCode := by
  unfold validateResult at h
  split at h
  · cases h
    exact ⟨rfl, rfl, rfl⟩
  · split at h
    · cases h
    · cases h
      exact ⟨rfl, rfl, rfl⟩

theorem validateResult_reference {spec : ToolSpec} {r s : ToolResult}
    (h : validateResult spec r = .ok s) : s.externalReference = r.externalReference := by
  unfold validateResult at h
  split at h
  · cases h
    rfl
  · split at h
    · cases h
    · cases h
      rfl

/-- The result a stored call stands for. -/
def storedResult (record : ToolCallRecord) : Except Fault ToolResult :=
  match record.result with
  | some result => .ok result
  | none =>
    match record.status with
    | .prepared | .requesting | .pending => .ok (.pendingOutcome record.externalReference)
    | .unknown | .reconciling => .ok (.unknownOutcome
        (record.errorCode.getD "tool_outcome_unknown")
        (record.errorMessage.getD "The tool outcome is unknown and requires reconciliation.")
        record.externalReference)
    | .failed => .ok (.failure (record.errorCode.getD "tool_failed")
        (record.errorMessage.getD "The tool did not complete.") record.externalReference)
    | .succeeded => .error (.runtime "succeeded ToolCall is missing its persisted result")

end Assistant
end Matinier
