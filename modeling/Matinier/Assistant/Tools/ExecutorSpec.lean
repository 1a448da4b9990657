import Matinier.Assistant.Tools.Executor

/-!
# What the executor's transactions do

One lemma for each transaction says which rows it writes and what they were
before. Everything proved about interleavings of executor calls rests on these
lemmas and unfolds no transaction again.
-/

namespace Matinier
namespace Assistant

variable {cfg : ExecutorConfig} {db db' prepared : Db} {tool : RegisteredTool}
  {execution : ExecutionRecord} {input : ExecuteInput}

/-- The call was not there, or was there prepared, for the same request. -/
def CallBefore (db : Db) (call : ToolCallRecord) : Prop :=
  (db.getToolCall call.id = none ∧ call.result = none) ∨
    ∃ old, db.getToolCall call.id = some old ∧ old.status = .prepared ∧ SameRequest old call ∧
      call.result = old.result

/-- The claim was not there, or was there reserved, for the same call and action. -/
def ClaimBefore (db : Db) (claim : ClaimRecord) : Prop :=
  db.claims.get claim.id = none ∨
    ∃ old, db.claims.get claim.id = some old ∧ old.status = .reserved ∧ SameAction old claim

/-- What preparation leaves when nobody else owns the call or its claim. -/
structure PreparedCall (db prepared : Db) (tool : RegisteredTool) (request : ToolInvocation)
    (executionId : ExecutionId) (call : ToolCallRecord) (claim : Option ClaimRecord) : Prop where
  owned : call.executionId = executionId
  isPrepared : call.status = .prepared
  identity : CallIdentity call request tool.spec
  before : CallBefore db call
  writes : Table.Writes db.toolCalls prepared.toolCalls call
  internal : tool.spec.effect ≠ .externalWrite → claim = none ∧ prepared.claims = db.claims
  external : tool.spec.effect = .externalWrite → ∃ k, claim = some k ∧
    k.holderExecutionId = executionId ∧ k.toolCallId = some call.id ∧
    k.provider = tool.providerName ∧ k.capability = tool.spec.capability ∧
    call.logicalActionKey = some k.logicalActionKey ∧
    (k.status = .reserved → ClaimBefore db k) ∧ Table.Writes db.claims prepared.claims k
  rest : prepared =
    { db with toolCalls := prepared.toolCalls, claims := prepared.claims }

theorem claimForCall_eq_some {call : ToolCallRecord} {k : ClaimRecord} :
    claimForCall db tool call = some k ↔
      call.effect = .externalWrite ∧ ∃ key, call.logicalActionKey = some key ∧
        db.observeExternalActionClaim tool.providerName tool.spec.capability key = some k := by
  unfold claimForCall
  split_ifs with h
  · simp [h, Option.bind_eq_some_iff]
  · simp [h]

/-- The claim observed for an action is stored under its own identifier and is about it. -/
theorem observeExternalActionClaim_eq_some {provider capability key : String} {k : ClaimRecord}
    (h : db.observeExternalActionClaim provider capability key = some k) :
    db.claims.get k.id = some k ∧ k.provider = provider ∧ k.capability = capability ∧
      k.logicalActionKey = key := by
  obtain ⟨hmem, hunique⟩ := Table.getUnique_eq_some.mp h
  have hkey := Option.some.inj hunique
  simp only [Prod.mk.injEq] at hkey
  exact ⟨Table.get_of_mem hmem, hkey.1, hkey.2.1, hkey.2.2⟩

/-- Nobody else owns the call or its claim exactly where there is no reply. -/
theorem replyOfOwner_eq_none {spec : ToolSpec} {call : ToolCallRecord}
    {claim : Option ClaimRecord} (h : replyOfOwner db spec execution call claim = .ok none) :
    call.executionId = execution.id ∧ call.status = .prepared ∧
      ∀ k ∈ claim, k.holderExecutionId = execution.id ∧ k.toolCallId = some call.id := by
  unfold replyOfOwner at h
  split_ifs at h with hown
  · simp at h
  · push Not at hown
    refine ⟨hown.1, hown.2, ?_⟩
    intro k hk
    cases hk
    simp only at h
    split_ifs at h with hheld
    · split at h <;> simp at h
    · push Not at hheld
      exact hheld

theorem bindPreparedCall_ok {request : ToolInvocation} {arguments : Json} {hash : Digest}
    {id : ToolCallId} {call : ToolCallRecord} {claim : Option ClaimRecord}
    (h : bindPreparedCall db tool execution request arguments hash id =
      .ok ((call, claim), prepared))
    (hown : call.executionId = execution.id ∧ call.status = .prepared ∧
      ∀ k ∈ claim, k.holderExecutionId = execution.id ∧ k.toolCallId = some call.id) :
    PreparedCall db prepared tool request execution.id call claim := by
  unfold bindPreparedCall Db.getToolCallRequired validateCallIdentity at h
  simp only [bind_eq_ok, require_eq_ok, ensure_eq_ok] at h
  obtain ⟨old, hold, _, hid, _, hexec, h⟩ := h
  have hget : db.toolCalls.get old.id = some old := by
    rw [show old.id = id from Table.key_of_get hold]
    exact hold
  split_ifs at h with hstatus hhash
  · -- The call is not prepared any more, so its owner is answered instead.
    simp only [pure_eq_ok, Prod.mk.injEq] at h
    obtain ⟨⟨rfl, -⟩, -⟩ := h
    exact absurd hown.2.1 hstatus
  · simp only [bind_eq_ok, ensure_eq_ok, pure_eq_ok, Prod.mk.injEq] at h
    obtain ⟨_, hreserved, ⟨rfl, rfl⟩, rfl⟩ := h
    refine ⟨hexec, hown.2.1, hid, Or.inr ⟨old, hget, hown.2.1, .refl old, rfl⟩,
      Table.Writes.refl hget, ?_, ?_, rfl⟩
    · intro heffect
      refine ⟨?_, rfl⟩
      rw [← hid.2.2.2.1] at heffect
      exact if_neg heffect
    · intro heffect
      obtain ⟨k, hk, hkr⟩ := hreserved heffect
      obtain ⟨-, key, hkey, hobs⟩ := claimForCall_eq_some.mp hk
      obtain ⟨hkget, hp, hc, hl⟩ := observeExternalActionClaim_eq_some hobs
      obtain ⟨hholder, hcall⟩ := hown.2.2 k hk
      exact ⟨k, hk, hholder, hcall, hp, hc, by rw [hkey, hl],
        fun _ => Or.inr ⟨k, hkget, hkr, .refl k⟩, Table.Writes.refl hkget⟩
  · simp only [bind_eq_ok, ensure_eq_ok] at h
    obtain ⟨_, hreserved, ⟨call', db₁⟩, hreplace, h⟩ := h
    obtain ⟨old', hold', -, hprep, -, rfl, rfl⟩ :=
      Db.replacePreparedToolCallArguments_eq_ok.mp hreplace
    obtain rfl : old = old' := Option.some.inj (hget.symm.trans hold')
    have hcalls : Table.Writes db.toolCalls
        (db.toolCalls.set { old with arguments := arguments, argumentsHash := hash })
        { old with arguments := arguments, argumentsHash := hash } :=
      Table.Writes.of_set hget ⟨rfl, Or.inr rfl⟩
    have hsame : SameRequest old { old with arguments := arguments, argumentsHash := hash } :=
      ⟨rfl, rfl, rfl, rfl, rfl, rfl, rfl, rfl⟩
    cases hclaim : claimForCall db tool old with
    | none =>
      simp only [hclaim, pure_eq_ok, Prod.mk.injEq] at h
      obtain ⟨⟨rfl, rfl⟩, rfl⟩ := h
      refine ⟨hexec, hprep, hid, Or.inr ⟨old, hget, hprep, hsame, rfl⟩, hcalls,
        fun _ => ⟨rfl, rfl⟩, ?_, rfl⟩
      intro heffect
      obtain ⟨k, hk, -⟩ := hreserved heffect
      rw [hclaim] at hk
      cases hk
    | some k =>
      simp only [hclaim, bind_eq_ok, pure_eq_ok, Prod.mk.injEq] at h
      obtain ⟨⟨k', db₂⟩, hkreplace, ⟨rfl, rfl⟩, rfl⟩ := h
      obtain ⟨k₀, hk₀, hholder, hcall, hres, -, rfl, rfl⟩ :=
        Db.replaceReservedClaimArguments_eq_ok.mp hkreplace
      obtain ⟨heffect, key, hkey, hobs⟩ := claimForCall_eq_some.mp hclaim
      obtain ⟨hkget, hp, hc, hl⟩ := observeExternalActionClaim_eq_some hobs
      obtain rfl : k = k₀ := Option.some.inj (hkget.symm.trans hk₀)
      refine ⟨hexec, hprep, hid, Or.inr ⟨old, hget, hprep, hsame, rfl⟩, hcalls, ?_, ?_, rfl⟩
      · intro hinternal
        rw [← hid.2.2.2.1] at hinternal
        exact absurd heffect hinternal
      · intro _
        exact ⟨_, rfl, hholder, hcall, hp, hc, by rw [← hl] at hkey; exact hkey,
          fun _ => Or.inr ⟨k, hkget, hres, ⟨rfl, rfl, rfl, rfl, rfl, rfl⟩⟩,
          Table.Writes.of_set hkget ⟨rfl, Or.inr rfl⟩⟩

theorem prepareNewCall_ok {arguments : Json} {hash : Digest} {call : ToolCallRecord}
    {claim : Option ClaimRecord}
    (h : prepareNewCall cfg db tool execution input arguments hash =
      .ok ((call, claim), prepared))
    (hown : call.executionId = execution.id ∧ call.status = .prepared ∧
      ∀ k ∈ claim, k.holderExecutionId = execution.id ∧ k.toolCallId = some call.id) :
    PreparedCall db prepared tool input.request execution.id call claim := by
  unfold prepareNewCall validateCallIdentity at h
  simp only [bind_eq_ok, ensure_eq_ok] at h
  obtain ⟨⟨call₁, db₁⟩, hprepare, _, hid, _, hhash, h⟩ := h
  -- What the call was before, and what was written, do not depend on the tool's effect.
  have hcall : call₁.executionId = execution.id → call₁.status = .prepared →
      CallBefore db call₁ ∧
        Table.Writes db.toolCalls db₁.toolCalls call₁ ∧
        db₁ = { db with toolCalls := db₁.toolCalls } := by
    intro hexec hstatus
    obtain ⟨-, ⟨hfound, -, rfl⟩ | ⟨-, rfl, toolCalls, hins, rfl⟩⟩ :=
      Db.prepareToolCall_eq_ok.mp hprepare
    · obtain ⟨key, -, hkey⟩ := Option.bind_eq_some_iff.mp hfound
      have hget := Table.get_of_mem (Table.getUnique_eq_some.mp hkey).1
      exact ⟨Or.inr ⟨call₁, hget, hstatus, .refl call₁, rfl⟩, Table.Writes.refl hget, rfl⟩
    · exact ⟨Or.inl ⟨Table.get_none_of_insert hins, rfl⟩, Table.Writes.of_insert hins, rfl⟩
  split_ifs at h with heffect
  · simp only [bind_eq_ok, require_eq_ok, pure_eq_ok, Prod.mk.injEq] at h
    obtain ⟨key, hkey, ⟨k, db₂⟩, hreserve, ⟨rfl, rfl⟩, rfl⟩ := h
    obtain ⟨hbefore, hwrites, hrest⟩ := hcall hown.1 hown.2.1
    obtain ⟨hholder, hkcall⟩ := hown.2.2 k rfl
    have hlak : call₁.logicalActionKey = some key := hid.2.2.2.2.1.trans hkey
    have hclaims : db₁.claims = db.claims := by rw [hrest]
    obtain ⟨-, ⟨hfound, -, rfl⟩ | ⟨hfree, rfl, claims, hins, rfl⟩⟩ :=
      Db.reserveExternalActionClaim_eq_ok.mp hreserve
    · obtain ⟨hget, hp, hc, hl⟩ := observeExternalActionClaim_eq_some hfound
      rw [hclaims] at hget
      refine ⟨hown.1, hown.2.1, hid, hbefore, hwrites, fun hne => absurd heffect hne, ?_, ?_⟩
      · intro _
        refine ⟨k, rfl, hholder, hkcall, hp, hc, by rw [hlak, hl], ?_, ?_⟩
        · intro hres
          exact Or.inr ⟨k, hget, hres, .refl k⟩
        · rw [hclaims]
          exact Table.Writes.refl hget
      · rw [hrest]
    · unfold Db.observeExternalActionClaim at hfree
      rw [hclaims] at hins hfree
      refine ⟨hown.1, hown.2.1, hid, hbefore, hwrites, fun hne => absurd heffect hne, ?_, ?_⟩
      · intro _
        exact ⟨_, rfl, rfl, rfl, rfl, rfl, hlak,
          fun _ => Or.inl (Table.get_none_of_insert hins), Table.Writes.of_insert hins⟩
      · rw [hrest]
  · simp only [pure_eq_ok, Prod.mk.injEq] at h
    obtain ⟨⟨rfl, rfl⟩, rfl⟩ := h
    obtain ⟨hbefore, hwrites, hrest⟩ := hcall hown.1 hown.2.1
    refine ⟨hown.1, hown.2.1, hid, hbefore, hwrites, ?_, fun he => absurd he heffect, ?_⟩
    · intro _
      exact ⟨rfl, by rw [hrest]⟩
    · rw [hrest]

theorem prepareRequest_ok {arguments : Json} {hash : Digest} {call : ToolCallRecord}
    {claim : Option ClaimRecord}
    (h : prepareRequest cfg db tool execution input arguments hash =
      .ok ((call, claim), prepared))
    (hown : call.executionId = execution.id ∧ call.status = .prepared ∧
      ∀ k ∈ claim, k.holderExecutionId = execution.id ∧ k.toolCallId = some call.id) :
    PreparedCall db prepared tool input.request execution.id call claim := by
  unfold prepareRequest at h
  split at h
  · exact bindPreparedCall_ok h hown
  · exact prepareNewCall_ok h hown

def GrantSpent (db db' : Db) (id : GrantId) : Prop :=
  ∃ old new, db.getGrant id = some old ∧ new.id = id ∧
    Table.Writes db.grants db'.grants new ∧ new.usedSideEffects = old.usedSideEffects + 1 ∧
    new.maxSideEffects = old.maxSideEffects ∧ new.usedSideEffects ≤ new.maxSideEffects

/-- What a requested external write leaves of its claim: requested, for its own call. -/
structure ClaimRequested (db db' : Db) (tool : RegisteredTool) (flight : Flight)
    (call : ToolCallRecord) (claim : ClaimRecord) : Prop where
  flightClaim : flight.claimId = some claim.id
  flightExpects : flight.expectedClaimStatus = some .requesting
  isRequesting : claim.status = .requesting
  holder : claim.holderExecutionId = call.executionId
  callId : claim.toolCallId = some call.id
  provider : claim.provider = tool.providerName
  capability : claim.capability = tool.spec.capability
  action : call.logicalActionKey = some claim.logicalActionKey
  before : ClaimBefore db claim
  writes : Table.Writes db.claims db'.claims claim

/-- What the first transaction of `execute` leaves when it requests an adapter call. -/
structure Requested (db db' : Db) (tool : RegisteredTool) (request : ToolInvocation)
    (execution : ExecutionRecord) (flight : Flight) (call : ToolCallRecord) : Prop where
  running : db.getExecution execution.id = some execution
  owned : call.executionId = execution.id
  isRequesting : call.status = .requesting
  identity : CallIdentity call request tool.spec
  before : CallBefore db call
  writes : Table.Writes db.toolCalls db'.toolCalls call
  flightTool : flight.tool = tool
  flightCall : flight.context.toolCallId = call.id
  flightExecution : flight.context.executionId = call.executionId
  flightAction : flight.context.logicalActionKey = call.logicalActionKey
  flightKey : flight.context.idempotencyKey = call.idempotencyKey
  phase : flight.phase = .execute
  internal : tool.spec.effect ≠ .externalWrite →
    flight.claimId = none ∧ db'.claims = db.claims ∧ db'.grants = db.grants
  external : tool.spec.effect = .externalWrite →
    (∃ claim, ClaimRequested db db' tool flight call claim) ∧
      ∃ grant, flight.context.grant = some grant ∧
        resolvedGrantId execution request = some grant.record.id ∧
        GrantSpent db db' grant.record.id
  rest : db' =
    { db with toolCalls := db'.toolCalls, claims := db'.claims, grants := db'.grants }

/-- The grant that authorizes an external write is the one its invocation resolves to. -/
theorem authorize_external {request : ToolInvocation} {spec : ToolSpec} {now : Instant}
    {grant : Option ActionGrant} (heffect : spec.effect = .externalWrite)
    (h : authorize cfg db execution request spec now = .ok grant) :
    ∃ g, grant = some g ∧ resolvedGrantId execution request = some g.record.id ∧
      db.getGrant g.record.id = some g.record := by
  unfold authorize at h
  simp only [bind_eq_ok, ensure_eq_ok] at h
  obtain ⟨_, -, loaded, hload, hauth⟩ := h
  obtain ⟨g, rfl, rfl, -, -⟩ := authorizeToolUse_external heffect hauth
  cases hresolved : resolvedGrantId execution request with
  | none => simp [hresolved, loadGrant] at hload
  | some id =>
    simp only [hresolved, loadGrant, Db.getGrantRequired, bind_eq_ok, require_eq_ok, pure_eq_ok,
      Option.some.injEq] at hload
    obtain ⟨record, hget, granted, hgranted, rfl⟩ := hload
    obtain rfl := actionGrantFromRecord_eq_ok.mp hgranted
    obtain rfl : granted.record.id = id := Table.key_of_get hget
    exact ⟨_, rfl, rfl, hget⟩

theorem spendAuthority_ok {spec : ToolSpec} {grant : Option ActionGrant}
    {claim : Option ClaimRecord} {now : Instant}
    (h : spendAuthority db spec execution grant claim now = .ok db') :
    (spec.effect ≠ .externalWrite → db' = db) ∧
      (spec.effect = .externalWrite → ∃ g k old, grant = some g ∧ claim = some k ∧
        GrantSpent db db' g.record.id ∧ db.claims.get k.id = some old ∧
        old.holderExecutionId = execution.id ∧ old.status = .reserved ∧
        Table.Writes db.claims db'.claims { old with status := .requesting } ∧
        db' = { db with claims := db'.claims, grants := db'.grants }) := by
  unfold spendAuthority at h
  split_ifs at h with heffect
  · refine ⟨fun hne => absurd heffect hne, fun _ => ?_⟩
    simp only [bind_eq_ok, require_eq_ok, pure_eq_ok, Prod.exists] at h
    obtain ⟨g, hg, k, hk, new, db₁, hconsume, updated, db₂, hclaim, rfl⟩ := h
    obtain ⟨old, hold, -, -, hmax, rfl, rfl⟩ := Db.consumeGrant_eq_ok.mp hconsume
    obtain ⟨kold, hkold, hholder, hres, -, rfl, rfl⟩ :=
      Db.transitionExternalActionClaim_eq_ok.mp hclaim
    have hid : old.id = g.record.id := Table.key_of_get hold
    have hkid : kold.id = k.id := Table.key_of_get hkold
    refine ⟨g, k, kold, hg, hk, ?_, hkold, hholder, hres, ?_, rfl⟩
    · rw [← hid] at hold ⊢
      let spent : GrantRecord := { old with
        usedSideEffects := old.usedSideEffects + 1
        status := if old.usedSideEffects + 1 = old.maxSideEffects then .consumed else .active }
      have hwrites : Table.Writes db.grants (db.grants.set spent) spent :=
        Table.Writes.of_set hold ⟨rfl, Or.inl rfl⟩
      exact ⟨old, spent, hold, rfl, hwrites, rfl, rfl, hmax⟩
    · rw [← hkid] at hkold
      exact Table.Writes.of_set hkold ⟨rfl, Or.inr rfl⟩
  · cases h
    exact ⟨fun _ => rfl, fun he => absurd he heffect⟩

theorem requestCall_ok {request : ToolInvocation} {arguments : Json} {now : Instant}
    {grant : Option ActionGrant} {call : ToolCallRecord} {claim : Option ClaimRecord}
    {begun : Begun} (hprep : PreparedCall db prepared tool request execution.id call claim)
    (hgrant : tool.spec.effect = .externalWrite → ∃ g, grant = some g ∧
      resolvedGrantId execution request = some g.record.id)
    (hrunning : db.getExecution execution.id = some execution)
    (h : requestCall prepared tool execution request arguments grant call claim now =
      .ok (begun, db')) :
    ∃ flight call', begun = .requested flight ∧
      Requested db db' tool request execution flight call' := by
  have hgrants : prepared.grants = db.grants := by rw [hprep.rest]
  unfold requestCall at h
  simp only [bind_eq_ok, pure_eq_ok, Prod.mk.injEq, Prod.exists] at h
  obtain ⟨db₁, hspend, call', db₂, hupdate, rfl, rfl⟩ := h
  obtain ⟨hspentNone, hspentSome⟩ := spendAuthority_ok hspend
  have hcalls : db₁.toolCalls = prepared.toolCalls := by
    by_cases heffect : tool.spec.effect = .externalWrite
    · obtain ⟨_, _, _, -, -, -, -, -, -, -, hrest⟩ := hspentSome heffect
      rw [hrest]
    · rw [hspentNone heffect]
  have hget : db₁.getToolCall call.id = some call := by
    rw [Db.getToolCall, hcalls]
    exact hprep.writes.1
  obtain ⟨old, hold, -, -, hwrite⟩ := Db.updateToolCall_eq_ok.mp hupdate
  obtain rfl : call = old := Option.some.inj (hget.symm.trans hold)
  have hlive : call.status.isTerminal = false := by rw [hprep.isPrepared]; rfl
  simp only [hlive, Bool.false_eq_true, false_and, false_or, true_and] at hwrite
  obtain ⟨rfl, rfl⟩ := hwrite
  let requested := call.updated
    { status := .requesting, incrementAttempt := true, changedAt := now }
  refine ⟨_, requested, rfl, hrunning, hprep.owned, rfl, hprep.identity, ?_, ?_, rfl, rfl,
    hprep.owned.symm, rfl, rfl, rfl, ?_, ?_, ?_⟩
  · rcases hprep.before with ⟨hnone, hres⟩ | ⟨before, hbefore, hstatus, hsame, hres⟩
    · exact Or.inl ⟨hnone, hres⟩
    · exact Or.inr ⟨before, hbefore, hstatus, hsame.trans (.updated call _), hres⟩
  · have hset : Table.Writes db₁.toolCalls (db₁.toolCalls.set requested) requested :=
      Table.Writes.of_set hget (Db.updated_replaces call _)
    rw [hcalls] at hset
    exact hcalls ▸ hprep.writes.trans hset rfl
  · intro heffect
    obtain ⟨rfl, hclaims⟩ := hprep.internal heffect
    rw [hspentNone heffect]
    exact ⟨rfl, hclaims, hgrants⟩
  · intro heffect
    obtain ⟨k, rfl, hholder, hcall, hprovider, hcapability, haction, hbefore, hkwrites⟩ :=
      hprep.external heffect
    obtain ⟨g, hg, hresolved⟩ := hgrant heffect
    obtain ⟨g', k', kold, hg', hk', hspent, hkold, -, hres, hkspent, hrest⟩ :=
      hspentSome heffect
    obtain rfl : g = g' := Option.some.inj (hg.symm.trans hg')
    obtain rfl : k = k' := Option.some.inj hk'
    obtain rfl : k = kold := Option.some.inj (hkwrites.1.symm.trans hkold)
    refine ⟨⟨{ k with status := .requesting }, rfl, rfl, rfl, ?_, hcall, hprovider, hcapability,
      haction, ?_, hkwrites.trans hkspent rfl⟩, g, hg, hresolved, ?_⟩
    · rw [hholder]
      exact hprep.owned.symm
    · rcases hbefore hres with hnone | ⟨old, hold, hreserved, hsame⟩
      · exact Or.inl hnone
      · exact Or.inr ⟨old, hold, hreserved, hsame.trans ⟨rfl, rfl, rfl, rfl, rfl, rfl⟩⟩
    · obtain ⟨gold, gnew, hgold, hgid, hgwrites, hused⟩ := hspent
      rw [Db.getGrant, hgrants] at hgold
      rw [hgrants] at hgwrites
      exact ⟨gold, gnew, hgold, hgid, hgwrites, hused⟩
  · by_cases heffect : tool.spec.effect = .externalWrite
    · obtain ⟨_, _, _, -, -, -, -, -, -, -, hrest⟩ := hspentSome heffect
      rw [hrest, hprep.rest]
    · rw [hspentNone heffect, hprep.rest]

theorem beginExecute_cases {begun : Begun} (h : beginExecute cfg input db = .ok (begun, db')) :
    (∃ r, begun = .replied r ∧ db' = db) ∨
      ∃ tool execution flight call, begun = .requested flight ∧
        cfg.registry.find input.request.toolName = some tool ∧
        db.getExecution input.request.executionId = some execution ∧
        execution.profile ∈ tool.spec.allowedProfiles ∧
        (tool.spec.effect = .externalWrite → input.request.logicalActionKey.isSome = true ∧
          input.request.idempotencyKey.isSome = true) ∧
        Requested db db' tool input.request execution flight call := by
  unfold beginExecute ToolRegistry.get Db.getExecutionRequired at h
  simp only [bind_eq_ok, require_eq_ok] at h
  obtain ⟨tool, htool, arguments, -, execution, hexec, h⟩ := h
  by_cases hprofile : execution.profile ∉ tool.spec.allowedProfiles
  · rw [if_pos hprofile, pure_eq_ok, Prod.mk.injEq] at h
    obtain ⟨rfl, rfl⟩ := h
    exact Or.inl ⟨_, rfl, rfl⟩
  rw [if_neg hprofile] at h
  simp only [validateInvocationKeys, bind_eq_ok, ensure_eq_ok] at h
  obtain ⟨_, ⟨_, hkeys, -⟩, _, -, replay, -, h⟩ := h
  cases replay with
  | some reply =>
    simp only [pure_eq_ok, Prod.mk.injEq] at h
    obtain ⟨rfl, rfl⟩ := h
    exact Or.inl ⟨_, rfl, rfl⟩
  | none =>
    simp only [bind_eq_ok, Prod.exists] at h
    obtain ⟨grant, hauth, call, claim, prepared, hprepare, reply, howner, h⟩ := h
    cases reply with
    | some reply =>
      simp only [pure_eq_ok, Prod.mk.injEq] at h
      obtain ⟨rfl, rfl⟩ := h
      exact Or.inl ⟨_, rfl, rfl⟩
    | none =>
      have hown := replyOfOwner_eq_none howner
      obtain ⟨flight, call', rfl, hreq⟩ := requestCall_ok (prepareRequest_ok hprepare hown)
        (fun he => (authorize_external he hauth).imp fun _ hg => ⟨hg.1, hg.2.1⟩)
        (by rw [show execution.id = input.request.executionId from Table.key_of_get hexec]
            exact hexec) h
      refine Or.inr ⟨tool, execution, flight, call', rfl, htool, hexec, ?_, ?_, hreq⟩
      · exact not_not.mp hprofile
      · intro heffect
        rw [not_and_or] at hkeys
        rcases hkeys with hne | hsome
        · exact absurd heffect hne
        · push Not at hsome
          exact ⟨Option.isSome_iff_ne_none.mpr hsome.1, Option.isSome_iff_ne_none.mpr hsome.2⟩

/-- What the first transaction of `reconcile` leaves when it requests a reconciliation. -/
structure ReconcileRequested (db db' : Db) (tool : RegisteredTool) (flight : Flight)
    (call : ToolCallRecord) (claim : Option ClaimRecord) : Prop where
  found : db.getToolCall call.id = some call
  running : (db.getExecution call.executionId).isSome = true
  open' : call.status ∈ [ToolCallStatus.pending, .unknown, .reconciling]
  version : call.toolVersion = tool.spec.version
  claimed : claim = claimForCall db tool call
  claimOpen : ∀ k ∈ claim, k.status = .requesting ∨ k.status = .unknown
  flightTool : flight.tool = tool
  flightCall : flight.context.toolCallId = call.id
  flightExecution : flight.context.executionId = call.executionId
  flightClaim : flight.claimId = claim.map ClaimRecord.id
  flightExpects : flight.expectedClaimStatus = claim.map ClaimRecord.status
  phase : flight.phase = .reconcile
  writes : ∃ now, Table.Writes db.toolCalls db'.toolCalls
    (call.updated (reconcilingUpdate call now))
  rest : db' = { db with toolCalls := db'.toolCalls }

theorem requestReconciliation_ok {grant : Option ActionGrant} {arguments : Json}
    {refs : List String} {call : ToolCallRecord} {claim : Option ClaimRecord} {now : Instant}
    {begun : Begun} (hfound : db.getToolCall call.id = some call)
    (hopen : call.status ∈ [ToolCallStatus.pending, .unknown, .reconciling])
    (hversion : call.toolVersion = tool.spec.version) (hclaim : claim = claimForCall db tool call)
    (hclaimOpen : ∀ k ∈ claim, k.status = .requesting ∨ k.status = .unknown)
    (hexec : db.getExecution call.executionId = some execution)
    (h : requestReconciliation db tool execution grant arguments refs call claim now =
      .ok (begun, db')) :
    ∃ flight, begun = .requested flight ∧ ReconcileRequested db db' tool flight call claim := by
  unfold requestReconciliation at h
  simp only [bind_eq_ok, pure_eq_ok, Prod.mk.injEq, Prod.exists] at h
  obtain ⟨call', db₁, hupdate, rfl, rfl⟩ := h
  obtain ⟨old, hold, -, -, hwrite⟩ := Db.updateToolCall_eq_ok.mp hupdate
  obtain rfl : call = old := Option.some.inj (hfound.symm.trans hold)
  have hlive : call.status.isTerminal = false := by
    simp only [List.mem_cons, List.not_mem_nil, or_false] at hopen
    rcases hopen with h | h | h <;> rw [h] <;> rfl
  simp only [hlive, Bool.false_eq_true, false_and, false_or, true_and] at hwrite
  obtain ⟨rfl, rfl⟩ := hwrite
  exact ⟨_, rfl, hfound, by rw [hexec]; rfl, hopen, hversion, hclaim, hclaimOpen, rfl, rfl,
    Table.key_of_get hexec, rfl, rfl, rfl,
    ⟨now, Table.Writes.of_set hfound (Db.updated_replaces call _)⟩, rfl⟩

theorem beginReconcile_cases {id : ToolCallId} {refs : List String} {now : Instant}
    {begun : Begun} (h : beginReconcile cfg id refs now db = .ok (begun, db')) :
    (∃ r, begun = .replied r ∧ db' = db) ∨
      ∃ tool flight call claim, begun = .requested flight ∧ call.id = id ∧
        cfg.registry.find call.toolName = some tool ∧
        ReconcileRequested db db' tool flight call claim := by
  unfold beginReconcile Db.getToolCallRequired ToolRegistry.get Db.getExecutionRequired at h
  simp only [bind_eq_ok, require_eq_ok, ensure_eq_ok] at h
  obtain ⟨call, hcall, tool, htool, _, hversion, _, -, h⟩ := h
  obtain rfl : call.id = id := Table.key_of_get hcall
  by_cases hover : call.status.isTerminal = true
  · rw [if_pos hover] at h
    simp only [bind_eq_ok, pure_eq_ok, Prod.mk.injEq] at h
    obtain ⟨reply, -, rfl, rfl⟩ := h
    exact Or.inl ⟨reply, rfl, rfl⟩
  rw [if_neg hover] at h
  simp only [bind_eq_ok, ensure_eq_ok, require_eq_ok] at h
  obtain ⟨_, hopen, execution, hexec, h⟩ := h
  by_cases hprofile : execution.profile ∉ tool.spec.allowedProfiles
  · rw [if_pos hprofile, pure_eq_ok, Prod.mk.injEq] at h
    obtain ⟨rfl, rfl⟩ := h
    exact Or.inl ⟨_, rfl, rfl⟩
  rw [if_neg hprofile] at h
  simp only [bind_eq_ok, require_eq_ok] at h
  obtain ⟨arguments, -, grant, -, h⟩ := h
  by_cases hclaim : ∃ k ∈ claimForCall db tool call, k.status ≠ .requesting ∧ k.status ≠ .unknown
  · rw [if_pos hclaim] at h
    simp only [bind_eq_ok, pure_eq_ok, Prod.mk.injEq] at h
    obtain ⟨reply, -, rfl, rfl⟩ := h
    exact Or.inl ⟨reply, rfl, rfl⟩
  rw [if_neg hclaim] at h
  have hclaimOpen : ∀ k ∈ claimForCall db tool call, k.status = .requesting ∨
      k.status = .unknown := by
    intro k hk
    by_contra hne
    push Not at hne
    exact hclaim ⟨k, hk, hne⟩
  obtain ⟨flight, rfl, hreq⟩ :=
    requestReconciliation_ok hcall hopen hversion rfl hclaimOpen hexec h
  exact Or.inr ⟨tool, flight, call, _, rfl, rfl, htool, hreq⟩

section Persist

variable {flight : Flight} {result : ToolResult} {now : Instant}

def ClaimRecord.settled (claim : ClaimRecord) (result : ToolResult) : ClaimRecord :=
  { claim with
    status := claimStatusAfter claim.status result.status
    externalReference := result.externalReference.or claim.externalReference }

def GrantRecord.released (grant : GrantRecord) (now : Instant) : GrantRecord :=
  { grant with
    usedSideEffects := grant.usedSideEffects - 1
    status := if grant.expiresAt ≤ now then .expired else .active }

/-- The claim is as the flight left it: held by its execution, in the status it expects. -/
def ClaimHeld (db : Db) (flight : Flight) (claim : ClaimRecord) : Prop :=
  flight.claimId = some claim.id ∧ flight.expectedClaimStatus = some claim.status ∧
    db.claims.get claim.id = some claim ∧ claim.holderExecutionId = flight.context.executionId

def Flight.Unclaimed (flight : Flight) : Prop :=
  flight.claimId = none ∨ flight.expectedClaimStatus = none

theorem settleClaim_eq_ok :
    settleClaim db flight result = .ok db' ↔
      flight.Unclaimed ∧ db' = db ∨
        ∃ claim, ClaimHeld db flight claim ∧
          (claim.status = claimStatusAfter claim.status result.status ∨
            claimStatusAfter claim.status result.status ∈
              externalActionClaimTransitions claim.status) ∧
          db' = { db with claims := db.claims.set (claim.settled result) } := by
  unfold settleClaim Flight.Unclaimed ClaimHeld
  cases hid : flight.claimId with
  | none => simp [eq_comm]
  | some id =>
    cases hexpected : flight.expectedClaimStatus with
    | none => simp [eq_comm]
    | some expected =>
      simp only [bind_eq_ok, pure_eq_ok, Prod.exists, Db.transitionExternalActionClaim_eq_ok,
        reduceCtorEq, or_self, false_and, false_or, Option.some.injEq]
      constructor
      · rintro ⟨_, _, ⟨claim, hget, hholder, rfl, hedge, rfl, rfl⟩, rfl⟩
        obtain rfl : claim.id = id := Table.key_of_get hget
        exact ⟨claim, ⟨rfl, rfl, hget, hholder⟩, hedge, rfl⟩
      · rintro ⟨claim, ⟨rfl, rfl, hget, hholder⟩, hedge, rfl⟩
        exact ⟨_, _, ⟨claim, hget, hholder, rfl, hedge, rfl, rfl⟩, rfl⟩

def GrantRecord.Releasable (grant : GrantRecord) : Prop :=
  1 ≤ grant.usedSideEffects ∧ (grant.status = .active ∨ grant.status = .consumed)

theorem releaseUnspent_eq_ok :
    releaseUnspent db flight result now = .ok db' ↔
      ¬ Unspent flight result ∧ db' = db ∨
        Unspent flight result ∧ ∃ execution,
          db.getExecution flight.context.executionId = some execution ∧
          (execution.grantId = none ∧ db' = db ∨
            ∃ grant, execution.grantId = some grant.id ∧ db.getGrant grant.id = some grant ∧
              grant.Releasable ∧
              db' = { db with grants := db.grants.set (grant.released now) }) := by
  unfold releaseUnspent Db.getExecutionRequired
  by_cases hzero : Unspent flight result
  · rw [if_pos hzero]
    simp only [hzero, not_true_eq_false, false_and, false_or, true_and, bind_eq_ok,
      require_eq_ok]
    refine exists_congr fun execution => and_congr_right fun _ => ?_
    cases hgrant : execution.grantId with
    | none =>
      simp only [pure_eq_ok, true_and, reduceCtorEq, false_and, exists_false, or_false]
      exact eq_comm
    | some id =>
      simp only [bind_eq_ok, pure_eq_ok, Prod.exists, Db.releaseGrantSideEffect_eq_ok,
        reduceCtorEq, false_and, false_or, Option.some.injEq]
      constructor
      · rintro ⟨_, _, ⟨grant, hget, hused, hstatus, rfl, rfl⟩, rfl⟩
        obtain rfl : grant.id = id := Table.key_of_get hget
        exact ⟨grant, rfl, hget, ⟨hused, hstatus⟩, rfl⟩
      · rintro ⟨grant, rfl, hget, ⟨hused, hstatus⟩, rfl⟩
        exact ⟨_, _, ⟨grant, hget, hused, hstatus, rfl, rfl⟩, rfl⟩
  · rw [if_neg hzero]
    simp [hzero, eq_comm]

/-- What settling does to the claims: nothing for a flight without one, else the claim
the flight holds is written. -/
def ClaimSettled (db db' : Db) (flight : Flight) (result : ToolResult) : Prop :=
  flight.Unclaimed ∧ db'.claims = db.claims ∨
    ∃ claim, ClaimHeld db flight claim ∧ Table.Writes db.claims db'.claims (claim.settled result)

theorem settleClaim_ok (h : settleClaim db flight result = .ok db') :
    ClaimSettled db db' flight result ∧ db' = { db with claims := db'.claims } := by
  rcases settleClaim_eq_ok.mp h with ⟨hunclaimed, rfl⟩ | ⟨claim, hheld, -, rfl⟩
  · exact ⟨Or.inl ⟨hunclaimed, rfl⟩, rfl⟩
  · exact ⟨Or.inr ⟨claim, hheld, Table.Writes.of_set hheld.2.2.1 ⟨rfl, Or.inr rfl⟩⟩, rfl⟩

/-- What releasing does to the grants: nothing, or one side effect of the grant of the
flight's execution is given back. -/
def GrantReleased (db db' : Db) (flight : Flight) (result : ToolResult) : Prop :=
  ¬ Unspent flight result ∧ db'.grants = db.grants ∨
    Unspent flight result ∧ ∃ execution,
      db.getExecution flight.context.executionId = some execution ∧
      (execution.grantId = none ∧ db'.grants = db.grants ∨
        ∃ grant now, execution.grantId = some grant.id ∧ db.getGrant grant.id = some grant ∧
          grant.Releasable ∧ Table.Writes db.grants db'.grants (grant.released now))

theorem releaseUnspent_ok (h : releaseUnspent db flight result now = .ok db') :
    GrantReleased db db' flight result ∧ db' = { db with grants := db'.grants } := by
  rcases releaseUnspent_eq_ok.mp h with
    ⟨hkept, rfl⟩ | ⟨hzero, execution, hexec, ⟨hgrant, rfl⟩ | ⟨grant, hg, hget, hrel, rfl⟩⟩
  · exact ⟨Or.inl ⟨hkept, rfl⟩, rfl⟩
  · exact ⟨Or.inr ⟨hzero, execution, hexec, Or.inl ⟨hgrant, rfl⟩⟩, rfl⟩
  · exact ⟨Or.inr ⟨hzero, execution, hexec, Or.inr ⟨grant, now, hg, hget, hrel,
      Table.Writes.of_set hget ⟨rfl, Or.inl rfl⟩⟩⟩, rfl⟩

/-- What persisting the result of a call that is not over writes. -/
structure Persisted (db db' : Db) (flight : Flight) (result : ToolResult)
    (call : ToolCallRecord) : Prop where
  found : db.getToolCall flight.context.toolCallId = some call
  live : call.status.isTerminal = false
  edge : call.status = result.status.toCall ∨
    result.status.toCall ∈ toolCallTransitions call.status
  writes : ∃ now, Table.Writes db.toolCalls db'.toolCalls (call.updated (resultUpdate result now))
  claims : ClaimSettled db db' flight result
  grants : GrantReleased db db' flight result
  rest : db' = { db with
    toolCalls := db'.toolCalls, claims := db'.claims, grants := db'.grants
    observations := db'.observations }

theorem persistResult_cases {observationId : ObservationId} {reply : ToolResult}
    (h : persistResult flight result now observationId db = .ok (reply, db')) :
    (∃ call, db.getToolCall flight.context.toolCallId = some call ∧
        call.status.isTerminal = true ∧ db' = db) ∨
      ∃ call, reply = result ∧ Persisted db db' flight result call := by
  unfold persistResult Db.getToolCallRequired at h
  simp only [bind_eq_ok, require_eq_ok] at h
  obtain ⟨call, hfound, h⟩ := h
  cases hlive : call.status.isTerminal with
  | true =>
    simp only [hlive, if_true, bind_eq_ok, pure_eq_ok, Prod.mk.injEq] at h
    obtain ⟨stored, -, rfl, rfl⟩ := h
    exact Or.inl ⟨call, hfound, hlive, rfl⟩
  | false =>
    simp only [hlive, Bool.false_eq_true, if_false, bind_eq_ok, pure_eq_ok, Prod.mk.injEq,
      Prod.exists] at h
    obtain ⟨_, db₁, hupdate, db₂, hsettle, db₃, hrelease, _, db₄, hobserve, rfl, rfl⟩ := h
    obtain ⟨old, hold, -, hedge, hwrite⟩ := Db.updateToolCall_eq_ok.mp hupdate
    obtain rfl : call = old := Option.some.inj (hfound.symm.trans hold)
    simp only [hlive, Bool.false_eq_true, false_and, false_or, true_and] at hwrite
    obtain ⟨rfl, rfl⟩ := hwrite
    obtain ⟨-, -, observations, -, rfl⟩ := Db.appendObservation_eq_ok.mp hobserve
    obtain ⟨hclaims, hrest₂⟩ := settleClaim_ok hsettle
    obtain ⟨hgrants, hrest₃⟩ := releaseUnspent_ok hrelease
    rw [hrest₂] at hrest₃
    have hid : call.id = flight.context.toolCallId := Table.key_of_get hfound
    have hget : db.getToolCall call.id = some call := hid ▸ hfound
    rw [hrest₂] at hgrants
    refine Or.inr ⟨call, rfl, hfound, hlive, hedge, ⟨now, ?_⟩, ?_, hgrants, ?_⟩
    · rw [hrest₃]
      exact Table.Writes.of_set hget (Db.updated_replaces call _)
    · rw [hrest₃]
      exact hclaims
    · rw [hrest₃]

end Persist

end Assistant
end Matinier
