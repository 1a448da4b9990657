import Matinier.Assistant.Tools.Contracts

/-!
# The tool executor

`execute` runs a typed tool in two transactions around the adapter call: the
first one claims and requests the call, the second one persists what the
adapter answered. `reconcile` does the same around the adapter's reconciliation.
Each transaction below is one function on the database; a reply that needs no
adapter leaves the database as it was.
-/

namespace Matinier
namespace Assistant

structure ExecutorConfig where
  registry : ToolRegistry
  claimLeaseSeconds : ℕ
  canonicalArgumentsHash : Json → Digest
  normalizedText : String → String

/-- What one execution is asked to do, with the time, the identifiers it draws and the
verdict of the execution guard. -/
structure ExecuteInput where
  request : ToolInvocation
  now : Instant
  toolCallId : ToolCallId
  claimId : ClaimId
  authority : Except Fault Unit := .ok ()

inductive ExecutorPhase where
  | execute
  | reconcile
  deriving DecidableEq

/-- An adapter call under way: what the adapter was handed and what its result settles. -/
structure Flight where
  tool : RegisteredTool
  context : ToolExecutionContext
  claimId : Option ClaimId
  expectedClaimStatus : Option ClaimStatus
  phase : ExecutorPhase

/-- How the first transaction ends: with a reply, or with a call to make. -/
inductive Begun where
  | replied (result : ToolResult)
  | requested (flight : Flight)

def profileDenied : ToolResult :=
  .failure "tool_profile_denied" "This tool is unavailable for the execution profile." none (some 0)

def validateInvocationKeys (request : ToolInvocation) (spec : ToolSpec) : Except Fault Unit := do
  ensure (¬ (spec.effect = .externalWrite ∧
      (request.logicalActionKey = none ∨ request.idempotencyKey = none)))
    (.value "external-write tools require logical-action and idempotency keys")
  ensure (¬ (spec.supportsIdempotency = true ∧ request.idempotencyKey = none))
    (.value "this tool requires an idempotency key")

def CallIdentity (record : ToolCallRecord) (request : ToolInvocation) (spec : ToolSpec) : Prop :=
  record.toolName = spec.name ∧ record.toolVersion = spec.version ∧
    record.capability = spec.capability ∧ record.effect = spec.effect ∧
    record.logicalActionKey = request.logicalActionKey ∧
    record.idempotencyKey = request.idempotencyKey

instance (record : ToolCallRecord) (request : ToolInvocation) (spec : ToolSpec) :
    Decidable (CallIdentity record request spec) :=
  inferInstanceAs (Decidable (_ ∧ _))

def validateCallIdentity (record : ToolCallRecord) (request : ToolInvocation) (spec : ToolSpec) :
    Except Fault Unit :=
  ensure (CallIdentity record request spec)
    (.idempotencyConflict "persisted ToolCall identity differs from the requested tool")

/-- The validated result of a stored call. -/
def storedReply (spec : ToolSpec) (record : ToolCallRecord) : Except Fault ToolResult := do
  let stored ← storedResult record
  validateResult spec stored

/-- The reply of an earlier call under the same idempotency key, if there is one. -/
def findReplay (db : Db) (request : ToolInvocation) (spec : ToolSpec) (argumentsHash : Digest) :
    Except Fault (Option ToolResult) :=
  if request.preparedToolCallId.isSome then .ok none
  else
    match request.idempotencyKey.bind db.getToolCallByIdempotencyKey with
    | none => .ok none
    | some existing => do
      validateCallIdentity existing request spec
      ensure (existing.argumentsHash = argumentsHash)
        (.idempotencyConflict "idempotency key is already bound to different arguments")
      if existing.status = .prepared ∧ existing.executionId = request.executionId then
        return none
      else
        let reply ← storedReply spec existing
        return some reply

/-- The grant the invocation runs under: its own, else that of its execution. -/
def resolvedGrantId (execution : ExecutionRecord) (request : ToolInvocation) : Option GrantId :=
  request.grantId.or execution.grantId

def loadGrant (db : Db) : Option GrantId → Except Fault (Option ActionGrant)
  | none => .ok none
  | some id => do
    let record ← db.getGrantRequired id
    let grant ← actionGrantFromRecord record
    return some grant

def authorize (cfg : ExecutorConfig) (db : Db) (execution : ExecutionRecord)
    (request : ToolInvocation) (spec : ToolSpec) (now : Instant) :
    Except Fault (Option ActionGrant) := do
  ensure (¬ (request.grantId.isSome = true ∧ execution.grantId.isSome = true ∧
      request.grantId ≠ execution.grantId))
    (.value "invocation Grant does not match the execution Grant")
  let grant ← loadGrant db (resolvedGrantId execution request)
  authorizeToolUse cfg.normalizedText grant
    { effect := spec.effect
      capability := spec.capability
      sessionId := execution.sessionId
      executionGoal := execution.goal
      candidateId := request.candidateId
      requestedResourceScope := request.requestedResourceScope
      now }

def claimForCall (db : Db) (tool : RegisteredTool) (call : ToolCallRecord) : Option ClaimRecord :=
  if call.effect = .externalWrite then
    call.logicalActionKey.bind
      (db.observeExternalActionClaim tool.providerName tool.spec.capability)
  else none

/-- A call that was prepared before, with the arguments of this request. -/
def bindPreparedCall (db : Db) (tool : RegisteredTool) (execution : ExecutionRecord)
    (request : ToolInvocation) (arguments : Json) (argumentsHash : Digest) (id : ToolCallId) :
    Except Fault ((ToolCallRecord × Option ClaimRecord) × Db) := do
  let call ← db.getToolCallRequired id
  validateCallIdentity call request tool.spec
  ensure (call.executionId = execution.id)
    (.value "prepared ToolCall belongs to another execution")
  let claim := claimForCall db tool call
  if call.status ≠ .prepared then
    return ((call, claim), db)
  else
    ensure (tool.spec.effect = .externalWrite → ∃ k ∈ claim, k.status = .reserved)
      (.value "external ToolCall arguments require a reserved claim")
    if call.argumentsHash = argumentsHash then
      return ((call, claim), db)
    else
      let (call', db) ← db.replacePreparedToolCallArguments call.id execution.id
        call.argumentsHash arguments argumentsHash
      match claim with
      | none => return ((call', none), db)
      | some k =>
        let (k', db) ← db.replaceReservedClaimArguments k.id execution.id call.id
          call.argumentsHash argumentsHash
        return ((call', some k'), db)

/-- A new call, or the one its idempotency key already has; an external one with its claim. -/
def prepareNewCall (cfg : ExecutorConfig) (db : Db) (tool : RegisteredTool)
    (execution : ExecutionRecord) (input : ExecuteInput) (arguments : Json)
    (argumentsHash : Digest) : Except Fault ((ToolCallRecord × Option ClaimRecord) × Db) := do
  let request := input.request
  let spec := tool.spec
  let (call, db) ← db.prepareToolCall
    { executionId := execution.id
      stepId := request.stepId
      toolName := spec.name
      toolVersion := spec.version
      capability := spec.capability
      effect := spec.effect
      arguments
      argumentsHash
      logicalActionKey := request.logicalActionKey
      idempotencyKey := request.idempotencyKey } input.toolCallId
  validateCallIdentity call request spec
  ensure (call.argumentsHash = argumentsHash)
    (.idempotencyConflict "persisted ToolCall arguments differ from the request")
  if spec.effect = .externalWrite then
    let key ← require request.logicalActionKey
      (.runtime "external ToolCall has no logical action key")
    let (claim, db) ← db.reserveExternalActionClaim
      { provider := tool.providerName
        capability := spec.capability
        logicalActionKey := key
        holderExecutionId := execution.id
        toolCallId := some call.id
        argumentsHash
        leaseExpiresAt := input.now + max cfg.claimLeaseSeconds (spec.timeoutSeconds + 5) }
      input.claimId
    return ((call, some claim), db)
  else
    return ((call, none), db)

def prepareRequest (cfg : ExecutorConfig) (db : Db) (tool : RegisteredTool)
    (execution : ExecutionRecord) (input : ExecuteInput) (arguments : Json)
    (argumentsHash : Digest) : Except Fault ((ToolCallRecord × Option ClaimRecord) × Db) :=
  match input.request.preparedToolCallId with
  | some id => bindPreparedCall db tool execution input.request arguments argumentsHash id
  | none => prepareNewCall cfg db tool execution input arguments argumentsHash

/-- The reply of whoever else owns the call or its claim; nothing where the call is ours. -/
def replyOfOwner (db : Db) (spec : ToolSpec) (execution : ExecutionRecord)
    (call : ToolCallRecord) (claim : Option ClaimRecord) : Except Fault (Option ToolResult) :=
  if call.executionId ≠ execution.id ∨ call.status ≠ .prepared then do
    let reply ← storedReply spec call
    return some reply
  else
    match claim with
    | none => .ok none
    | some k =>
      if k.holderExecutionId ≠ execution.id ∨ k.toolCallId ≠ some call.id then
        match k.toolCallId.bind db.getToolCall with
        | none => .ok (some (.pendingOutcome none))
        | some source => do
          let reply ← storedReply spec source
          return some reply
      else .ok none

/-- Spend the grant and the claim of an external write. -/
def spendAuthority (db : Db) (spec : ToolSpec) (execution : ExecutionRecord)
    (grant : Option ActionGrant) (claim : Option ClaimRecord) (now : Instant) :
    Except Fault Db :=
  if spec.effect = .externalWrite then do
    let missing := Fault.runtime "authorized external write is missing state"
    let granted ← require grant missing
    let k ← require claim missing
    let (_, db) ← db.consumeGrant granted.record.id now
    let (_, db) ← db.transitionExternalActionClaim k.id execution.id .reserved .requesting
    return db
  else .ok db

def requestCall (db : Db) (tool : RegisteredTool) (execution : ExecutionRecord)
    (request : ToolInvocation) (arguments : Json) (grant : Option ActionGrant)
    (call : ToolCallRecord) (claim : Option ClaimRecord) (now : Instant) :
    Except Fault (Begun × Db) := do
  let db ← spendAuthority db tool.spec execution grant claim now
  let (call, db) ← db.updateToolCall call.id (some .prepared)
    { status := .requesting, incrementAttempt := true, changedAt := now }
  let context : ToolExecutionContext :=
    { executionId := execution.id
      sessionId := execution.sessionId
      toolCallId := call.id
      arguments
      grant
      candidateId := request.candidateId
      logicalActionKey := call.logicalActionKey
      idempotencyKey := call.idempotencyKey
      evidenceRefs := request.evidenceRefs
      externalReference := call.externalReference
      attempt := call.attemptCount
      reconciling := false }
  return (.requested
    { tool, context
      claimId := claim.map ClaimRecord.id
      expectedClaimStatus := claim.map fun _ => .requesting
      phase := .execute }, db)

def beginExecute (cfg : ExecutorConfig) (input : ExecuteInput) : Transaction Begun := fun db => do
  let request := input.request
  let tool ← cfg.registry.get request.toolName
  let spec := tool.spec
  let arguments ← require (spec.inputModel request.arguments)
    (.value "tool arguments are invalid")
  let argumentsHash := cfg.canonicalArgumentsHash arguments
  let execution ← db.getExecutionRequired request.executionId
  if execution.profile ∉ spec.allowedProfiles then
    return (.replied profileDenied, db)
  else
    validateInvocationKeys request spec
    input.authority
    match ← findReplay db request spec argumentsHash with
    | some reply => return (.replied reply, db)
    | none =>
      let grant ← authorize cfg db execution request spec input.now
      let ((call, claim), prepared) ←
        prepareRequest cfg db tool execution input arguments argumentsHash
      -- Nothing was committed before this reply, so it leaves the database as it was.
      match ← replyOfOwner prepared spec execution call claim with
      | some reply => return (.replied reply, db)
      | none => requestCall prepared tool execution request arguments grant call claim input.now

def invokeAdapter (spec : ToolSpec) (answer : AdapterAnswer) : Except Fault ToolResult :=
  match answer with
  | .result value => .ok value
  | .timeout => .ok (.unknownOutcome "tool_timeout_unknown"
      "The tool timed out without a confirmed outcome; reconciliation is required.")
  | .raised =>
    if spec.effect = .externalWrite then
      .ok (.unknownOutcome "tool_response_unknown"
        "The external action returned no confirmed outcome; reconciliation is required.")
    else
      .ok (.failure "tool_execution_failed" "The tool could not complete this request."
        none none true)
  | .malformed => .error (.value "tool result is invalid")

def reconcileAdapter (context : ToolExecutionContext) (answer : AdapterAnswer) :
    Except Fault ToolResult :=
  match answer with
  | .result value => .ok value
  | .timeout => .ok (.unknownOutcome "tool_reconciliation_pending"
      "The external outcome is still being reconciled." context.externalReference)
  | .raised => .ok (.unknownOutcome "tool_reconciliation_unknown"
      "The external outcome could not yet be confirmed." context.externalReference)
  | .malformed => .error (.value "tool result is invalid")

def adapterResult (flight : Flight) (answer : AdapterAnswer) : Except Fault ToolResult := do
  let result ← match flight.phase with
    | .execute => invokeAdapter flight.tool.spec answer
    | .reconcile => reconcileAdapter flight.context answer
  validateResult flight.tool.spec result

/-- The claim status a result calls for. -/
def claimStatusAfter (expected : ClaimStatus) : ToolResultStatus → ClaimStatus
  | .succeeded => .succeeded
  | .failed => .failedSafe
  | .unknown => .unknown
  | .pending => expected

def settleClaim (db : Db) (flight : Flight) (result : ToolResult) : Except Fault Db :=
  match flight.claimId, flight.expectedClaimStatus with
  | some claimId, some expected => do
    let (_, db) ← db.transitionExternalActionClaim claimId flight.context.executionId expected
      (claimStatusAfter expected result.status) result.externalReference
    return db
  | _, _ => .ok db

/-- The result confirms that an external write had no effect. -/
def Unspent (flight : Flight) (result : ToolResult) : Prop :=
  flight.tool.spec.effect = .externalWrite ∧ result.confirmedSideEffects = some 0

instance (flight : Flight) (result : ToolResult) : Decidable (Unspent flight result) :=
  inferInstanceAs (Decidable (_ ∧ _))

/-- Give the side effect back that an external write turned out not to have had. -/
def releaseUnspent (db : Db) (flight : Flight) (result : ToolResult) (now : Instant) :
    Except Fault Db :=
  if Unspent flight result then do
    let execution ← db.getExecutionRequired flight.context.executionId
    match execution.grantId with
    | none => return db
    | some grantId =>
      let (_, db) ← db.releaseGrantSideEffect grantId now
      return db
  else .ok db

/-- The number a confirmed side effect count is stored as. -/
def confirmedJson : Option (Fin 2) → Json
  | none => .null
  | some n => .num n.val

def resultObservation (spec : ToolSpec) (result : ToolResult) : Json := .obj
  [ ("tool_name", .str spec.name)
  , ("tool_version", .str spec.version)
  , ("status", .str result.status.name)
  , ("output", result.output.getD .null)
  , ("external_reference", result.externalReference.getD .null)
  , ("error_code", (result.errorCode.map Json.str).getD .null)
  , ("retryable", .bool result.retryable)
  , ("confirmed_side_effects", confirmedJson result.confirmedSideEffects) ]

def resultUpdate (result : ToolResult) (now : Instant) : ToolCallUpdate where
  status := result.status.toCall
  result := some result
  externalReference := result.externalReference
  errorCode := result.errorCode
  errorMessage := result.errorMessage
  changedAt := now

/-- Persist the validated result of an adapter call: the call, its claim, the grant's budget
and an observation, in one transaction. A call that is over keeps its stored result. -/
def persistResult (flight : Flight) (result : ToolResult) (now : Instant)
    (observationId : ObservationId) : Transaction ToolResult := fun db => do
  let call ← db.getToolCallRequired flight.context.toolCallId
  if call.status.isTerminal then
    let stored ← storedReply flight.tool.spec call
    return (stored, db)
  else
    let (_, db) ← db.updateToolCall flight.context.toolCallId (some call.status)
      (resultUpdate result now)
    let db ← settleClaim db flight result
    let db ← releaseUnspent db flight result now
    let (_, db) ← db.appendObservation flight.context.executionId .tool
      (resultObservation flight.tool.spec result) flight.context.evidenceRefs
      (some flight.context.toolCallId) observationId
    return (result, db)

def loadExecutionGrant (db : Db) (execution : ExecutionRecord) :
    Except Fault (Option ActionGrant) :=
  match execution.grantId.bind db.getGrant with
  | none => .ok none
  | some record => do
    let grant ← actionGrantFromRecord record
    return some grant

def reconcilingUpdate (call : ToolCallRecord) (now : Instant) : ToolCallUpdate where
  status := .reconciling
  externalReference := call.externalReference
  incrementAttempt := true
  changedAt := now

def requestReconciliation (db : Db) (tool : RegisteredTool) (execution : ExecutionRecord)
    (grant : Option ActionGrant) (arguments : Json) (evidenceRefs : List String)
    (call : ToolCallRecord) (claim : Option ClaimRecord) (now : Instant) :
    Except Fault (Begun × Db) := do
  let (call, db) ← db.updateToolCall call.id (some call.status) (reconcilingUpdate call now)
  let context : ToolExecutionContext :=
    { executionId := execution.id
      sessionId := execution.sessionId
      toolCallId := call.id
      arguments
      grant
      candidateId := none
      logicalActionKey := call.logicalActionKey
      idempotencyKey := call.idempotencyKey
      evidenceRefs
      externalReference := call.externalReference
      attempt := call.attemptCount
      reconciling := true }
  return (.requested
    { tool, context
      claimId := claim.map ClaimRecord.id
      expectedClaimStatus := claim.map ClaimRecord.status
      phase := .reconcile }, db)

def beginReconcile (cfg : ExecutorConfig) (toolCallId : ToolCallId) (evidenceRefs : List String)
    (now : Instant) : Transaction Begun := fun db => do
  let call ← db.getToolCallRequired toolCallId
  let tool ← cfg.registry.get call.toolName
  let spec := tool.spec
  ensure (call.toolVersion = spec.version)
    (.runtime "registered tool version no longer matches ToolCall")
  ensure (spec.supportsReconciliation = true)
    (.value s!"tool does not support reconciliation: {spec.name}")
  if call.status.isTerminal then
    let reply ← storedReply spec call
    return (.replied reply, db)
  else
    ensure (call.status ∈ [ToolCallStatus.pending, .unknown, .reconciling])
      (.value "only pending or unknown ToolCalls can reconcile")
    let execution ← db.getExecutionRequired call.executionId
    if execution.profile ∉ spec.allowedProfiles then
      return (.replied profileDenied, db)
    else
      let arguments ← require (spec.inputModel call.arguments)
        (.value "tool arguments are invalid")
      let grant ← loadExecutionGrant db execution
      let claim := claimForCall db tool call
      if ∃ k ∈ claim, k.status ≠ .requesting ∧ k.status ≠ .unknown then
        let reply ← storedReply spec call
        return (.replied reply, db)
      else
        requestReconciliation db tool execution grant arguments evidenceRefs call claim now

end Assistant
end Matinier
