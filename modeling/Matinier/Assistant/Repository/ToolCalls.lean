import Matinier.Assistant.Repository.Executions

/-!
# Tool calls and claims in the repository

A tool call is inserted `prepared` and an external action claim `reserved`;
every later write is a compare-and-set on the status that was read.
-/

namespace Matinier
namespace Assistant

/-- The new values of one tool call update; `none` keeps the old value. -/
structure ToolCallUpdate where
  status : ToolCallStatus
  result : Option ToolResult := none
  externalReference : Option Json := none
  errorCode : Option String := none
  errorMessage : Option String := none
  incrementAttempt : Bool := false
  changedAt : Instant

def ToolCallStatus.isTerminal (s : ToolCallStatus) : Bool := s = .succeeded ∨ s = .failed

def optionEqv : Option Json → Option Json → Bool
  | none, none => true
  | some a, some b => Json.eqv a b
  | _, _ => false

def ToolResult.eqv (a b : ToolResult) : Bool :=
  a.status = b.status && optionEqv a.output b.output &&
    optionEqv a.externalReference b.externalReference &&
    a.confirmedSideEffects = b.confirmedSideEffects && a.errorCode = b.errorCode &&
    a.errorMessage = b.errorMessage && a.retryable = b.retryable

/-- The update asks for nothing that the record does not have already. -/
def ToolCallRecord.Unchanged (record : ToolCallRecord) (u : ToolCallUpdate) : Prop :=
  u.status = record.status ∧ u.incrementAttempt = false ∧
    (u.result.isNone ∨ ∃ r ∈ u.result, ∃ s ∈ record.result, r.eqv s) ∧
    (u.externalReference.isNone ∨ optionEqv u.externalReference record.externalReference) ∧
    (u.errorCode = none ∨ u.errorCode = record.errorCode) ∧
    (u.errorMessage = none ∨ u.errorMessage = record.errorMessage)

instance ToolCallRecord.decidableUnchanged (record : ToolCallRecord) (u : ToolCallUpdate) :
    Decidable (record.Unchanged u) :=
  inferInstanceAs (Decidable (_ ∧ _))

def ToolCallRecord.updated (record : ToolCallRecord) (u : ToolCallUpdate) : ToolCallRecord :=
  { record with
    status := u.status
    result := u.result.or record.result
    externalReference := u.externalReference.or record.externalReference
    errorCode := u.errorCode.or record.errorCode
    errorMessage := u.errorMessage.or record.errorMessage
    attemptCount := record.attemptCount + if u.incrementAttempt then 1 else 0
    requestedAt :=
      if u.status = .requesting ∧ record.requestedAt.isNone then some u.changedAt
      else record.requestedAt
    completedAt := if u.status.isTerminal then some u.changedAt else record.completedAt }

/-- The later row of a call is about the same request. -/
structure SameRequest (old new : ToolCallRecord) : Prop where
  id : new.id = old.id
  executionId : new.executionId = old.executionId
  toolName : new.toolName = old.toolName
  toolVersion : new.toolVersion = old.toolVersion
  capability : new.capability = old.capability
  effect : new.effect = old.effect
  logicalActionKey : new.logicalActionKey = old.logicalActionKey
  idempotencyKey : new.idempotencyKey = old.idempotencyKey

theorem SameRequest.refl (call : ToolCallRecord) : SameRequest call call :=
  ⟨rfl, rfl, rfl, rfl, rfl, rfl, rfl, rfl⟩

theorem SameRequest.trans {a b c : ToolCallRecord} (h : SameRequest a b) (h' : SameRequest b c) :
    SameRequest a c where
  id := h'.id.trans h.id
  executionId := h'.executionId.trans h.executionId
  toolName := h'.toolName.trans h.toolName
  toolVersion := h'.toolVersion.trans h.toolVersion
  capability := h'.capability.trans h.capability
  effect := h'.effect.trans h.effect
  logicalActionKey := h'.logicalActionKey.trans h.logicalActionKey
  idempotencyKey := h'.idempotencyKey.trans h.idempotencyKey

theorem SameRequest.updated (call : ToolCallRecord) (u : ToolCallUpdate) :
    SameRequest call (call.updated u) := ⟨rfl, rfl, rfl, rfl, rfl, rfl, rfl, rfl⟩

structure ToolCallDraft where
  executionId : ExecutionId
  stepId : Option StepId
  toolName : String
  toolVersion : String
  capability : String
  effect : ToolEffect
  arguments : Json
  argumentsHash : Digest
  logicalActionKey : Option String
  idempotencyKey : Option String

def ToolCallDraft.row (draft : ToolCallDraft) (id : ToolCallId) : ToolCallRecord where
  id := id
  executionId := draft.executionId
  stepId := draft.stepId
  toolName := draft.toolName
  toolVersion := draft.toolVersion
  capability := draft.capability
  effect := draft.effect
  arguments := draft.arguments
  argumentsHash := draft.argumentsHash
  logicalActionKey := draft.logicalActionKey
  idempotencyKey := draft.idempotencyKey

/-- The later row of a claim is about the same action of the same call. -/
structure SameAction (old new : ClaimRecord) : Prop where
  id : new.id = old.id
  provider : new.provider = old.provider
  capability : new.capability = old.capability
  logicalActionKey : new.logicalActionKey = old.logicalActionKey
  holderExecutionId : new.holderExecutionId = old.holderExecutionId
  toolCallId : new.toolCallId = old.toolCallId

theorem SameAction.refl (claim : ClaimRecord) : SameAction claim claim :=
  ⟨rfl, rfl, rfl, rfl, rfl, rfl⟩

theorem SameAction.trans {a b c : ClaimRecord} (h : SameAction a b) (h' : SameAction b c) :
    SameAction a c where
  id := h'.id.trans h.id
  provider := h'.provider.trans h.provider
  capability := h'.capability.trans h.capability
  logicalActionKey := h'.logicalActionKey.trans h.logicalActionKey
  holderExecutionId := h'.holderExecutionId.trans h.holderExecutionId
  toolCallId := h'.toolCallId.trans h.toolCallId

structure ClaimDraft where
  provider : String
  capability : String
  logicalActionKey : String
  holderExecutionId : ExecutionId
  toolCallId : Option ToolCallId
  argumentsHash : Digest
  leaseExpiresAt : Instant

def ClaimDraft.row (draft : ClaimDraft) (id : ClaimId) : ClaimRecord where
  id := id
  provider := draft.provider
  capability := draft.capability
  logicalActionKey := draft.logicalActionKey
  holderExecutionId := draft.holderExecutionId
  toolCallId := draft.toolCallId
  argumentsHash := draft.argumentsHash
  leaseExpiresAt := draft.leaseExpiresAt

namespace Db

/-- Insert a tool call, or return the one its idempotency key already names. -/
def prepareToolCall (db : Db) (draft : ToolCallDraft) (id : ToolCallId) :
    Except Fault (ToolCallRecord × Db) := do
  let _ ← db.getExecutionRequired draft.executionId
  match draft.idempotencyKey.bind db.getToolCallByIdempotencyKey with
  | some existing =>
    ensure (existing.argumentsHash = draft.argumentsHash)
      (.idempotencyConflict "idempotency key is already bound to different arguments")
    return (existing, db)
  | none =>
    let toolCalls ← require (db.toolCalls.insert (draft.row id)) .integrity
    return (draft.row id, { db with toolCalls })

/-- Replace the arguments of a call that is still prepared. -/
def replacePreparedToolCallArguments (db : Db) (id : ToolCallId) (executionId : ExecutionId)
    (expectedArgumentsHash : Digest) (arguments : Json) (argumentsHash : Digest) :
    Except Fault (ToolCallRecord × Db) := do
  let conflict := Fault.stateConflict
    "prepared ToolCall changed before its arguments were replaced"
  let record ← require (db.getToolCall id) conflict
  ensure (record.executionId = executionId ∧ record.status = .prepared ∧
    record.argumentsHash = expectedArgumentsHash) conflict
  let updated := { record with arguments, argumentsHash }
  return (updated, { db with toolCalls := db.toolCalls.set updated })

/-- Update a tool call that has the expected status, along an edge or in place. -/
def updateToolCall (db : Db) (id : ToolCallId) (expectedStatus : Option ToolCallStatus)
    (u : ToolCallUpdate) : Except Fault (ToolCallRecord × Db) := do
  let record ← db.getToolCallRequired id
  ensure (expectedStatus = none ∨ expectedStatus = some record.status)
    (.stateConflict s!"ToolCall no longer has status {(expectedStatus.map ToolCallStatus.name)}")
  let _ ← transitionToolCallStatus record.status u.status
  if record.status.isTerminal then
    ensure (record.Unchanged u) (.stateConflict "terminal ToolCall cannot be changed")
    return (record, db)
  else
    return (record.updated u, { db with toolCalls := db.toolCalls.set (record.updated u) })

/-- Insert a claim, or return the one its logical action already has. -/
def reserveExternalActionClaim (db : Db) (draft : ClaimDraft) (id : ClaimId) :
    Except Fault (ClaimRecord × Db) := do
  let _ ← db.getExecutionRequired draft.holderExecutionId
  match db.observeExternalActionClaim draft.provider draft.capability draft.logicalActionKey with
  | some existing =>
    ensure (existing.argumentsHash = draft.argumentsHash)
      (.idempotencyConflict "logical action key is already bound to different arguments")
    return (existing, db)
  | none =>
    let claims ← require (db.claims.insert (draft.row id)) .integrity
    return (draft.row id, { db with claims })

/-- Replace the arguments of a claim that is still reserved. -/
def replaceReservedClaimArguments (db : Db) (id : ClaimId) (holderExecutionId : ExecutionId)
    (toolCallId : ToolCallId) (expectedArgumentsHash argumentsHash : Digest) :
    Except Fault (ClaimRecord × Db) := do
  let conflict := Fault.stateConflict
    "reserved external action claim changed before its arguments were replaced"
  let record ← require (db.claims.get id) conflict
  ensure (record.holderExecutionId = holderExecutionId ∧ record.toolCallId = some toolCallId ∧
    record.status = .reserved ∧ record.argumentsHash = expectedArgumentsHash) conflict
  let updated := { record with argumentsHash }
  return (updated, { db with claims := db.claims.set updated })

/-- Move a claim that its holder found in the expected status. -/
def transitionExternalActionClaim (db : Db) (id : ClaimId) (holderExecutionId : ExecutionId)
    (expectedStatus targetStatus : ClaimStatus) (externalReference : Option Json := none) :
    Except Fault (ClaimRecord × Db) := do
  let record ← require (db.claims.get id) (.lookup s!"External action claim not found: {id}")
  ensure (record.holderExecutionId = holderExecutionId)
    (.stateConflict "execution does not hold this claim")
  ensure (record.status = expectedStatus)
    (.stateConflict s!"claim no longer has status {expectedStatus.name}")
  let next ← Assistant.transitionExternalActionClaim expectedStatus targetStatus
  let updated := { record with
    status := next
    externalReference := externalReference.or record.externalReference }
  return (updated, { db with claims := db.claims.set updated })

theorem updateToolCall_eq_ok {db db' : Db} {id : ToolCallId} {expected : Option ToolCallStatus}
    {u : ToolCallUpdate} {record : ToolCallRecord} :
    db.updateToolCall id expected u = .ok (record, db') ↔
      ∃ old, db.getToolCall id = some old ∧ (expected = none ∨ expected = some old.status) ∧
        (old.status = u.status ∨ u.status ∈ toolCallTransitions old.status) ∧
        (old.status.isTerminal = true ∧ old.Unchanged u ∧ record = old ∧ db' = db ∨
          old.status.isTerminal = false ∧ record = old.updated u ∧
            db' = { db with toolCalls := db.toolCalls.set record }) := by
  unfold updateToolCall getToolCallRequired
  simp only [bind_eq_ok, require_eq_ok, ensure_eq_ok, transitionToolCallStatus_eq_ok]
  constructor
  · rintro ⟨old, hold, _, hexp, _, ⟨-, hedge⟩, hwrite⟩
    refine ⟨old, hold, hexp, hedge, ?_⟩
    cases hterm : old.status.isTerminal with
    | true =>
      simp only [hterm, if_true, bind_eq_ok, ensure_eq_ok, pure_eq_ok, Prod.mk.injEq] at hwrite
      obtain ⟨_, hsame, rfl, rfl⟩ := hwrite
      exact Or.inl ⟨rfl, hsame, rfl, rfl⟩
    | false =>
      simp only [hterm, Bool.false_eq_true, if_false, pure_eq_ok, Prod.mk.injEq] at hwrite
      obtain ⟨rfl, rfl⟩ := hwrite
      exact Or.inr ⟨rfl, rfl, rfl⟩
  · rintro ⟨old, hold, hexp, hedge, hwrite⟩
    refine ⟨old, hold, (), hexp, u.status, ⟨rfl, hedge⟩, ?_⟩
    rcases hwrite with ⟨hterm, hsame, rfl, rfl⟩ | ⟨hterm, rfl, rfl⟩
    · simp [hterm, hsame]
    · simp [hterm]

theorem updated_replaces (record : ToolCallRecord) (u : ToolCallUpdate) :
    Table.Replaces (record.updated u) record := ⟨rfl, Or.inr rfl⟩

/-- A call that is not over moves along an edge, or in place, from the status it has. -/
theorem updateToolCall_live {db : Db} {call : ToolCallRecord} {u : ToolCallUpdate}
    (hcall : db.getToolCall call.id = some call) (hlive : call.status.isTerminal = false)
    (hedge : call.status = u.status ∨ u.status ∈ toolCallTransitions call.status) :
    ∃ db', db.updateToolCall call.id (some call.status) u = .ok (call.updated u, db') ∧
      Table.Writes db.toolCalls db'.toolCalls (call.updated u) ∧
      db' = { db with toolCalls := db'.toolCalls } :=
  ⟨_, updateToolCall_eq_ok.mpr ⟨call, hcall, Or.inr rfl, hedge, Or.inr ⟨hlive, rfl, rfl⟩⟩,
    Table.Writes.of_set hcall (updated_replaces call u), rfl⟩

theorem prepareToolCall_eq_ok {db db' : Db} {draft : ToolCallDraft} {id : ToolCallId}
    {record : ToolCallRecord} :
    db.prepareToolCall draft id = .ok (record, db') ↔
      (∃ e, db.getExecution draft.executionId = some e) ∧
        (draft.idempotencyKey.bind db.getToolCallByIdempotencyKey = some record ∧
            record.argumentsHash = draft.argumentsHash ∧ db' = db ∨
          draft.idempotencyKey.bind db.getToolCallByIdempotencyKey = none ∧
            record = draft.row id ∧
            ∃ toolCalls, db.toolCalls.insert (draft.row id) = some toolCalls ∧
              db' = { db with toolCalls }) := by
  unfold prepareToolCall getExecutionRequired
  simp only [bind_eq_ok, require_eq_ok]
  constructor
  · rintro ⟨e, he, hrest⟩
    refine ⟨⟨e, he⟩, ?_⟩
    cases hfound : draft.idempotencyKey.bind db.getToolCallByIdempotencyKey with
    | some existing =>
      simp only [hfound, bind_eq_ok, ensure_eq_ok, pure_eq_ok, Prod.mk.injEq] at hrest
      obtain ⟨_, hhash, rfl, rfl⟩ := hrest
      exact Or.inl ⟨rfl, hhash, rfl⟩
    | none =>
      simp only [hfound, bind_eq_ok, require_eq_ok, pure_eq_ok, Prod.mk.injEq] at hrest
      obtain ⟨toolCalls, hins, rfl, rfl⟩ := hrest
      exact Or.inr ⟨rfl, rfl, toolCalls, hins, rfl⟩
  · rintro ⟨⟨e, he⟩, ⟨hfound, hhash, rfl⟩ | ⟨hfound, rfl, toolCalls, hins, rfl⟩⟩
    · exact ⟨e, he, by simp [hfound, hhash]⟩
    · exact ⟨e, he, by simp [hfound, hins]⟩

theorem reserveExternalActionClaim_eq_ok {db db' : Db} {draft : ClaimDraft} {id : ClaimId}
    {record : ClaimRecord} :
    db.reserveExternalActionClaim draft id = .ok (record, db') ↔
      (∃ e, db.getExecution draft.holderExecutionId = some e) ∧
        (db.observeExternalActionClaim draft.provider draft.capability draft.logicalActionKey =
              some record ∧ record.argumentsHash = draft.argumentsHash ∧ db' = db ∨
          db.observeExternalActionClaim draft.provider draft.capability draft.logicalActionKey =
              none ∧ record = draft.row id ∧
            ∃ claims, db.claims.insert (draft.row id) = some claims ∧
              db' = { db with claims }) := by
  unfold reserveExternalActionClaim getExecutionRequired
  simp only [bind_eq_ok, require_eq_ok]
  constructor
  · rintro ⟨e, he, hrest⟩
    refine ⟨⟨e, he⟩, ?_⟩
    cases hfound : db.observeExternalActionClaim draft.provider draft.capability
        draft.logicalActionKey with
    | some existing =>
      simp only [hfound, bind_eq_ok, ensure_eq_ok, pure_eq_ok, Prod.mk.injEq] at hrest
      obtain ⟨_, hhash, rfl, rfl⟩ := hrest
      exact Or.inl ⟨rfl, hhash, rfl⟩
    | none =>
      simp only [hfound, bind_eq_ok, require_eq_ok, pure_eq_ok, Prod.mk.injEq] at hrest
      obtain ⟨claims, hins, rfl, rfl⟩ := hrest
      exact Or.inr ⟨rfl, rfl, claims, hins, rfl⟩
  · rintro ⟨⟨e, he⟩, ⟨hfound, hhash, rfl⟩ | ⟨hfound, rfl, claims, hins, rfl⟩⟩
    · exact ⟨e, he, by simp [hfound, hhash]⟩
    · exact ⟨e, he, by simp [hfound, hins]⟩

theorem transitionExternalActionClaim_eq_ok {db db' : Db} {id : ClaimId} {holder : ExecutionId}
    {expected target : ClaimStatus} {reference : Option Json} {record : ClaimRecord} :
    db.transitionExternalActionClaim id holder expected target reference = .ok (record, db') ↔
      ∃ old, db.claims.get id = some old ∧ old.holderExecutionId = holder ∧
        old.status = expected ∧
        (expected = target ∨ target ∈ externalActionClaimTransitions expected) ∧
        record = { old with
          status := target
          externalReference := reference.or old.externalReference } ∧
        db' = { db with claims := db.claims.set record } := by
  unfold transitionExternalActionClaim
  simp only [bind_eq_ok, require_eq_ok, ensure_eq_ok,
    Assistant.transitionExternalActionClaim_eq_ok, pure_eq_ok, Prod.mk.injEq]
  constructor
  · rintro ⟨old, hold, _, hholder, _, hstatus, _, ⟨rfl, hedge⟩, rfl, rfl⟩
    exact ⟨old, hold, hholder, hstatus, hedge, rfl, rfl⟩
  · rintro ⟨old, hold, hholder, hstatus, hedge, rfl, rfl⟩
    exact ⟨old, hold, (), hholder, (), hstatus, target, ⟨rfl, hedge⟩, rfl, rfl⟩

theorem replacePreparedToolCallArguments_eq_ok {db db' : Db} {id : ToolCallId}
    {executionId : ExecutionId} {expected hash : Digest} {arguments : Json}
    {record : ToolCallRecord} :
    db.replacePreparedToolCallArguments id executionId expected arguments hash =
        .ok (record, db') ↔
      ∃ old, db.getToolCall id = some old ∧ old.executionId = executionId ∧
        old.status = .prepared ∧ old.argumentsHash = expected ∧
        record = { old with arguments, argumentsHash := hash } ∧
        db' = { db with toolCalls := db.toolCalls.set record } := by
  unfold replacePreparedToolCallArguments
  simp only [bind_eq_ok, require_eq_ok, ensure_eq_ok, pure_eq_ok, Prod.mk.injEq]
  constructor
  · rintro ⟨old, hold, _, ⟨he, hs, hh⟩, rfl, rfl⟩
    exact ⟨old, hold, he, hs, hh, rfl, rfl⟩
  · rintro ⟨old, hold, he, hs, hh, rfl, rfl⟩
    exact ⟨old, hold, (), ⟨he, hs, hh⟩, rfl, rfl⟩

theorem replaceReservedClaimArguments_eq_ok {db db' : Db} {id : ClaimId}
    {holder : ExecutionId} {toolCallId : ToolCallId} {expected hash : Digest}
    {record : ClaimRecord} :
    db.replaceReservedClaimArguments id holder toolCallId expected hash = .ok (record, db') ↔
      ∃ old, db.claims.get id = some old ∧ old.holderExecutionId = holder ∧
        old.toolCallId = some toolCallId ∧ old.status = .reserved ∧
        old.argumentsHash = expected ∧ record = { old with argumentsHash := hash } ∧
        db' = { db with claims := db.claims.set record } := by
  unfold replaceReservedClaimArguments
  simp only [bind_eq_ok, require_eq_ok, ensure_eq_ok, pure_eq_ok, Prod.mk.injEq]
  constructor
  · rintro ⟨old, hold, _, ⟨hh, ht, hs, ha⟩, rfl, rfl⟩
    exact ⟨old, hold, hh, ht, hs, ha, rfl, rfl⟩
  · rintro ⟨old, hold, hh, ht, hs, ha, rfl, rfl⟩
    exact ⟨old, hold, (), ⟨hh, ht, hs, ha⟩, rfl, rfl⟩

end Db

end Assistant
end Matinier
