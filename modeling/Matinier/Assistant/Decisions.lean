import Matinier.Assistant.FastTurn
import Matinier.Foundation.JsonText
import Mathlib.Data.List.Sort
import Mathlib.Data.String.Basic

/-!
# Decisions of the planner

The answer of a model is read as one decision: an object that has the fields of its kind and no
others. The decision may cite the evidence, call the tools and name the candidates that the server
has offered, and nothing else.

What one question to the planner offers, and what of its answers is accepted: a fast turn neither
waits for input nor writes outside, an action run is not handed off, and the number of tool calls is
bounded for each of the two.
-/

namespace Matinier
namespace Assistant

/-- What the text provider returned cannot be used. -/
structure ScriptOutputError where
  message : String
  deriving DecidableEq

/-- A tool call as it was read, with the arguments the model gave. -/
structure ParsedToolCall where
  toolName : String
  arguments : List (String × JsonValue)
  purpose : String
  evidenceRefs : List String

/-- One decision as it was read. -/
inductive ParsedDecision where
  | respond (decisionSummary : String) (claims : List EvidenceClaim)
  | invokeTools (decisionSummary : String) (toolCalls : List ParsedToolCall)
  | handoff (decision : HandoffDecision)
  | needsInput (decisionSummary question : String) (evidenceRefs choices : List String)
  | complete (decisionSummary : String) (claims : List EvidenceClaim)
      (completionStatus : CompletionStatus)

abbrev Fields := List (String × JsonValue)

/-- A text that says something, of joined words, with a bound on its characters. -/
def VisibleText (limit : ℕ) := { s : String // joinedWords s ≠ "" ∧ s.length ≤ limit }

def visibleText (limit : ℕ) : JsonValue → Option (VisibleText limit)
  | .str s =>
    if h : (1 ≤ s.length ∧ s.length ≤ limit) ∧ joinedWords s ≠ "" then
      some ⟨joinedWords s, (joinedWords_visible h.2).1,
        (length_joinedWords_le s).trans h.1.2⟩
    else none
  | _ => none

theorem VisibleText.length_pos {limit : ℕ} (s : VisibleText limit) : 1 ≤ s.val.length := by
  obtain ⟨s, hvisible, -⟩ := s
  obtain ⟨c, hc, -⟩ := exists_visible hvisible
  rw [← String.length_toList]
  exact List.length_pos_of_mem hc

def text : JsonValue → Option String
  | .str s => some s
  | _ => none

def listOf {α : Type} (least most : ℕ) (read : JsonValue → Option α) : JsonValue → Option (List α)
  | .arr items =>
    if least ≤ items.length ∧ items.length ≤ most then items.mapM read else none
  | _ => none

def uniqueTexts (least most : ℕ) (v : JsonValue) : Option (List String) := do
  let values ← listOf least most text v
  if values.Nodup then some values else none

def evidenceRefs (v : JsonValue) : Option { refs : List String // refs ≠ [] } := do
  let refs ← uniqueTexts 1 32 v
  if h : refs ≠ [] then some ⟨refs, h⟩ else none

namespace Fields

variable {α : Type} (fields : Fields)

def only (names : List String) : Option Unit :=
  if ∀ field ∈ fields, field.1 ∈ names then some () else none

def required (name : String) (read : JsonValue → Option α) : Option α :=
  (JsonValue.lookup name fields).bind read

def optional (name : String) (read : JsonValue → Option α) (default : α) : Option α :=
  match JsonValue.lookup name fields with
  | some v => read v
  | none => some default

end Fields

def evidenceClaim : JsonValue → Option { claim : EvidenceClaim // claim.evidenceRefs ≠ [] }
  | .obj fields => do
    Fields.only fields ["text", "evidence_refs"]
    let text ← Fields.required fields "text" (visibleText 4000)
    let refs ← Fields.required fields "evidence_refs" evidenceRefs
    return ⟨{ text := text.val, evidenceRefs := refs.val }, refs.property⟩
  | _ => none

def evidenceClaims (v : JsonValue) : Option (List EvidenceClaim) :=
  (listOf 1 20 evidenceClaim v).map fun claims => claims.map Subtype.val

def proposedToolCall : JsonValue → Option ParsedToolCall
  | .obj fields => do
    Fields.only fields ["tool_name", "arguments", "purpose", "evidence_refs"]
    let toolName ← Fields.required fields "tool_name" (visibleText 128)
    let arguments ← Fields.required fields "arguments" fun
      | .obj arguments => some arguments
      | _ => none
    let purpose ← Fields.required fields "purpose" (visibleText 500)
    let refs ← Fields.required fields "evidence_refs" evidenceRefs
    return { toolName := toolName.val, arguments, purpose := purpose.val, evidenceRefs := refs.val }
  | _ => none

def decisionSummary (fields : Fields) : Option (VisibleText 1000) :=
  Fields.required fields "decision_summary" (visibleText 1000)

def respondDecision (fields : Fields) : Option ParsedDecision := do
  Fields.only fields ["kind", "decision_summary", "claims"]
  let summary ← decisionSummary fields
  let claims ← Fields.required fields "claims" evidenceClaims
  return .respond summary.val claims

def invokeToolsDecision (fields : Fields) : Option ParsedDecision := do
  Fields.only fields ["kind", "decision_summary", "tool_calls"]
  let summary ← decisionSummary fields
  let toolCalls ← Fields.required fields "tool_calls" (listOf 1 4 proposedToolCall)
  return .invokeTools summary.val toolCalls

/-- Identifiers of a handoff: none is blank, and no two are equal. -/
def handoffIdentifiers (most : ℕ) (v : JsonValue) : Option (List String) := do
  let values ← uniqueTexts 0 most v
  if ∀ value ∈ values, notBlank value = true then some values else none

def handoffDecision (fields : Fields) : Option HandoffDecision := do
  Fields.only fields ["kind", "decision_summary", "handoff_goal", "reason",
    "required_capabilities", "candidate_ids"]
  let summary ← decisionSummary fields
  let goal ← Fields.required fields "handoff_goal" (visibleText maxHandoffGoalChars)
  let reason ← Fields.required fields "reason" evidenceClaim
  let requiredCapabilities ←
    Fields.optional fields "required_capabilities" (handoffIdentifiers 20) []
  let candidateIds ← Fields.optional fields "candidate_ids" (handoffIdentifiers 50) []
  return {
    decisionSummary := summary.val
    handoffGoal := goal.val
    reason := reason.val
    requiredCapabilities
    candidateIds
    goal_length := ⟨goal.length_pos, goal.property.2⟩
    reason_cited := reason.property }

def needsInputDecision (fields : Fields) : Option ParsedDecision := do
  Fields.only fields ["kind", "decision_summary", "question", "evidence_refs", "choices"]
  let summary ← decisionSummary fields
  let question ← Fields.required fields "question" (visibleText 2000)
  let refs ← Fields.required fields "evidence_refs" evidenceRefs
  let choices ← Fields.optional fields "choices" (listOf 0 5 text) []
  let normalized := choices.map joinedWords
  if (∀ choice ∈ normalized, choice ≠ "") ∧ normalized.Nodup then
    some (.needsInput summary.val question.val refs.val normalized)
  else none

def completionStatus : JsonValue → Option CompletionStatus
  | .str s =>
    if s = "completed" then some .completed
    else if s = "partial" then some .partialCompletion
    else none
  | _ => none

def completeDecision (fields : Fields) : Option ParsedDecision := do
  Fields.only fields ["kind", "decision_summary", "claims", "completion_status"]
  let summary ← decisionSummary fields
  let claims ← Fields.required fields "claims" evidenceClaims
  let status ← Fields.optional fields "completion_status" completionStatus .completed
  return .complete summary.val claims status

/-- The decision of an object, by its kind. -/
def agentDecision (fields : Fields) : Option ParsedDecision := do
  let kind ← Fields.required fields "kind" text
  if kind = "respond" then respondDecision fields
  else if kind = "invoke_tools" then invokeToolsDecision fields
  else if kind = "handoff" then (handoffDecision fields).map .handoff
  else if kind = "needs_input" then needsInputDecision fields
  else if kind = "complete" then completeDecision fields
  else none

/-- The evidence a decision cites. -/
def ParsedDecision.evidenceRefs : ParsedDecision → List String
  | .respond _ claims | .complete _ claims _ => claims.flatMap EvidenceClaim.evidenceRefs
  | .invokeTools _ toolCalls => toolCalls.flatMap ParsedToolCall.evidenceRefs
  | .handoff decision => decision.reason.evidenceRefs
  | .needsInput _ _ evidenceRefs _ => evidenceRefs

def foreign (values allowed : List String) : List String :=
  values.filter fun value => value ∉ allowed

def listed (values : List String) : String :=
  ", ".intercalate (values.dedup.insertionSort fun a b => a ≤ b)

/-- The tools a decision calls that are not among the offered ones. -/
def ParsedDecision.unknownTools (available : List String) : ParsedDecision → List String
  | .invokeTools _ toolCalls => foreign (toolCalls.map ParsedToolCall.toolName) available
  | _ => []

/-- The candidates a decision names that are not among the offered ones. -/
def ParsedDecision.unknownCandidates (allowed : List String) : ParsedDecision → List String
  | .handoff decision => foreign decision.candidateIds allowed
  | _ => []

/-- Read exactly one decision that keeps to what the server has offered. -/
def parseAgentDecision (content : String)
    (allowedEvidenceRefs availableToolNames allowedCandidateIds : List String) :
    Except ScriptOutputError ParsedDecision := do
  ensure (notBlank content = true) ⟨"planner returned empty content"⟩
  let payload ← require (JsonText.loads content.toList)
    ⟨"planner output is not one valid JSON object"⟩
  let fields ← require (match payload with
    | .obj fields => some fields
    | _ => none) ⟨"planner output must be one JSON object"⟩
  let decision ← require (agentDecision fields) ⟨"planner output violates the decision schema"⟩
  let foreignEvidence := foreign decision.evidenceRefs allowedEvidenceRefs
  ensure (foreignEvidence = [])
    ⟨"planner output cites unavailable evidence: " ++ listed foreignEvidence⟩
  let unknownTools := decision.unknownTools availableToolNames
  ensure (unknownTools = [])
    ⟨"planner output requests unavailable tools: " ++ listed unknownTools⟩
  let unknownCandidates := decision.unknownCandidates allowedCandidateIds
  ensure (unknownCandidates = [])
    ⟨"planner output references unavailable Candidates: " ++ listed unknownCandidates⟩
  return decision

theorem foreign_eq_nil {values allowed : List String} :
    foreign values allowed = [] ↔ ∀ value ∈ values, value ∈ allowed := by
  simp [foreign, List.filter_eq_nil_iff]

theorem handoffGoal_visible {fields : Fields} {decision : HandoffDecision}
    (h : handoffDecision fields = some decision) : joinedWords decision.handoffGoal ≠ "" := by
  simp only [handoffDecision, Option.bind_eq_bind, Option.bind_eq_some_iff, Option.pure_def,
    Option.some.injEq] at h
  obtain ⟨_, -, summary, -, goal, -, reason, -, capabilities, -, candidates, -, rfl⟩ := h
  exact goal.property.1

theorem handoff_of_parseAgentDecision {content : String}
    {evidence toolNames candidateIds : List String} {decision : HandoffDecision}
    (h : parseAgentDecision content evidence toolNames candidateIds = .ok (.handoff decision)) :
    joinedWords decision.handoffGoal ≠ "" := by
  simp only [parseAgentDecision, bind_eq_ok, require_eq_ok, ensure_eq_ok, pure_eq_ok] at h
  obtain ⟨-, -, payload, -, fields, -, parsed, hparsed, -, -, -, -, -, -, rfl⟩ := h
  simp only [agentDecision, Option.bind_eq_bind, Option.bind_eq_some_iff] at hparsed
  obtain ⟨kind, -, hparsed⟩ := hparsed
  split_ifs at hparsed
  · simp [respondDecision, Option.bind_eq_some_iff] at hparsed
  · simp [invokeToolsDecision, Option.bind_eq_some_iff] at hparsed
  · obtain ⟨found, hfound, heq⟩ := Option.map_eq_some_iff.mp hparsed
    cases heq
    exact handoffGoal_visible hfound
  · simp [needsInputDecision, Option.bind_eq_some_iff] at hparsed
  · simp [completeDecision, Option.bind_eq_some_iff] at hparsed

structure AvailableTool where
  name : String
  version : String
  capability : String
  effect : ToolEffect
  description : String
  inputSchema : JsonValue

structure PlanningObservation where
  observationId : String
  source : ObservationSource
  summary : String
  payload : JsonValue := .obj []
  evidenceRefs : List String := []

structure PlannerLimits where
  maxInputChars : ℕ := 24000
  maxObservations : ℕ := 20
  maxTools : ℕ := 20
  fastMaxToolCalls : ℕ := 2
  actionMaxToolCalls : ℕ := 4

namespace PlannerLimits

variable (limits : PlannerLimits)

/-- The latest observations. -/
def boundedObservations (observations : List PlanningObservation) : List PlanningObservation :=
  observations.drop (observations.length - limits.maxObservations)

/-- The evidence that an answer may cite: that of the snapshot, and the observations. -/
def allowedEvidence (evidenceRefs : List String) (observations : List PlanningObservation) :
    List String :=
  evidenceRefs ++ (limits.boundedObservations observations).map PlanningObservation.observationId

def maxToolCalls : ExecutionProfile → ℕ
  | .fastTurn => limits.fastMaxToolCalls
  | .actionRun => limits.actionMaxToolCalls

/-- What a profile does not allow of a decision. -/
def checkProfile (profile : ExecutionProfile) (tools : List AvailableTool) :
    ParsedDecision → Except ScriptOutputError Unit
  | .needsInput .. => ensure (profile ≠ .fastTurn) ⟨"Fast Turn cannot enter durable NeedsInput"⟩
  | .handoff _ => ensure (profile ≠ .actionRun) ⟨"Action Run cannot hand off to another run"⟩
  | .invokeTools _ toolCalls => do
    ensure (toolCalls.length ≤ limits.maxToolCalls profile)
      ⟨"planner requested too many tools in one decision"⟩
    ensure (profile = .fastTurn → ∀ call ∈ toolCalls, ∀ tool ∈ tools,
        tool.name = call.toolName → tool.effect ≠ .externalWrite)
      ⟨"Fast Turn cannot request external writes"⟩
  | _ => .ok ()

/-- Read an answer, and hold it against the profile. -/
def parseAndValidate (profile : ExecutionProfile) (tools : List AvailableTool)
    (allowedEvidence allowedCandidateIds : List String) (content : String)
    (finishReason : Option String) : Except ScriptOutputError ParsedDecision := do
  ensure (finishReason ≠ some "length") ⟨"planner JSON output was truncated"⟩
  let decision ← parseAgentDecision content allowedEvidence (tools.map AvailableTool.name)
    allowedCandidateIds
  limits.checkProfile profile tools decision
  return decision

theorem of_parseAndValidate {limits : PlannerLimits} {profile : ExecutionProfile}
    {tools : List AvailableTool} {evidence candidateIds : List String} {content : String}
    {finishReason : Option String} {decision : ParsedDecision}
    (h : limits.parseAndValidate profile tools evidence candidateIds content finishReason =
      .ok decision) :
    parseAgentDecision content evidence (tools.map AvailableTool.name) candidateIds =
      .ok decision := by
  simp only [parseAndValidate, bind_eq_ok, pure_eq_ok] at h
  obtain ⟨-, -, parsed, hparsed, -, -, rfl⟩ := h
  exact hparsed

end PlannerLimits

end Assistant
end Matinier
