import Matinier.Assistant.ExecutorInvariant

/-!
# A call and its claim agree

The status of an external call and the status of the claim on its action are
moved by the same transactions, each in its own table. The invariant below links
every claim to its call, every external call to a claim, and every flight under
way to the claim it will settle.
-/

namespace Matinier
namespace Assistant

/-- The call is over, or not begun, exactly where its claim is. -/
def Agree (call : ToolCallStatus) (claim : ClaimStatus) : Prop :=
  (call = .succeeded ↔ claim = .succeeded) ∧ (call = .failed ↔ claim = .failedSafe) ∧
    (call = .prepared ↔ claim = .reserved)

instance (call : ToolCallStatus) (claim : ClaimStatus) : Decidable (Agree call claim) :=
  inferInstanceAs (Decidable (_ ∧ _))

theorem Agree.of_underWay {old new : ToolCallStatus} {claim : ClaimStatus} (h : Agree old claim)
    (hold : old ∈ unresolvedStatuses) (hnew : new ∈ unresolvedStatuses) : Agree new claim := by
  revert h hold hnew
  cases old <;> cases new <;> cases claim <;> decide

theorem agree_outcome {expected : ClaimStatus} (result : ToolResultStatus)
    (h : expected = .requesting ∨ expected = .unknown) :
    Agree result.toCall (claimStatusAfter expected result) := by
  rcases h with rfl | rfl <;> cases result <;> decide

section Links

variable {cfg : ExecutorConfig} {db db' : Db} {claim k : ClaimRecord} {call c : ToolCallRecord}

/-- The claim is on the action of the call, an external write of a registered tool. -/
structure ClaimOf (cfg : ExecutorConfig) (db : Db) (claim : ClaimRecord)
    (call : ToolCallRecord) : Prop where
  callId : claim.toolCallId = some call.id
  found : db.getToolCall call.id = some call
  external : call.effect = .externalWrite
  action : call.logicalActionKey = some claim.logicalActionKey
  holder : claim.holderExecutionId = call.executionId
  tool : ∃ tool, ExecutorWorld.OfTool cfg call tool ∧ claim.provider = tool.providerName ∧
    claim.capability = tool.spec.capability

/-- The link survives where the row of the call stays one of the same request. -/
theorem ClaimOf.same (h : ClaimOf cfg db claim call) (hsame : SameRequest call c)
    (hfound : db'.getToolCall c.id = some c) : ClaimOf cfg db' claim c where
  callId := h.callId.trans (congrArg some hsame.id.symm)
  found := hfound
  external := hsame.effect.trans h.external
  action := hsame.logicalActionKey.trans h.action
  holder := h.holder.trans hsame.executionId.symm
  tool := h.tool.imp fun _ htool => ⟨htool.1.same hsame, htool.2⟩

theorem ClaimOf.unique (h : ClaimOf cfg db claim call) (h' : ClaimOf cfg db' k call)
    (hclaim : claim ∈ db.claims.rows) (hk : k ∈ db.claims.rows) : claim = k := by
  obtain ⟨tool, htool, hprovider, hcapability⟩ := h.tool
  obtain ⟨tool', htool', hprovider', hcapability'⟩ := h'.tool
  obtain rfl : tool = tool' := Option.some.inj (htool.1.symm.trans htool'.1)
  refine Table.eq_of_unique hclaim hk rfl (congrArg some ?_)
  rw [hprovider, hcapability, hprovider', hcapability',
    Option.some.inj (h.action.symm.trans h'.action)]

/-- Every claim is on the action of a call it agrees with. -/
def ClaimsAgree (cfg : ExecutorConfig) (db : Db) : Prop :=
  ∀ claim ∈ db.claims.rows, ∃ call, ClaimOf cfg db claim call ∧ Agree call.status claim.status

def CallsClaimed (db : Db) : Prop :=
  ∀ id call, db.getToolCall id = some call → call.effect = .externalWrite →
    ∃ claim ∈ db.claims.rows, claim.toolCallId = some id

/-- The claims stay as they are, and no external call moves out of agreement. -/
theorem ClaimsAgree.keep (h : ClaimsAgree cfg db) (hclaims : db'.claims = db.claims)
    (hcalls : ∀ id call, db.getToolCall id = some call → call.effect = .externalWrite →
      ∃ new, db'.getToolCall id = some new ∧ SameRequest call new ∧
        ∀ status, Agree call.status status → Agree new.status status) : ClaimsAgree cfg db' := by
  intro claim hclaim
  rw [hclaims] at hclaim
  obtain ⟨call, hof, hagree⟩ := h claim hclaim
  obtain ⟨new, hnew, hsame, hmoved⟩ := hcalls call.id call hof.found hof.external
  exact ⟨new, hof.same hsame (hsame.id.symm ▸ hnew), hmoved _ hagree⟩

theorem ClaimsAgree.write (h : ClaimsAgree cfg db)
    (hclaims : Table.Writes db.claims db'.claims k)
    (hcalls : Table.Writes db.toolCalls db'.toolCalls c)
    (hsame : ∀ old, db.getToolCall c.id = some old → SameRequest old c)
    (hof : ClaimOf cfg db' k c) (hagree : Agree c.status k.status) : ClaimsAgree cfg db' := by
  intro claim hclaim
  rcases hclaims.mem.mp hclaim with rfl | ⟨hold, hne⟩
  · exact ⟨c, hof, hagree⟩
  · obtain ⟨call, hof', hagree'⟩ := h claim hold
    by_cases hid : call.id = c.id
    · -- The claim would be on the action of the written call, which has its own.
      have hlink : ClaimOf cfg db' claim c :=
        hof'.same (hsame call (hid ▸ hof'.found)) hof.found
      rw [hlink.unique hof hclaim (Table.mem_of_get hclaims.1)] at hne
      exact absurd rfl hne
    · have hkept : db'.getToolCall call.id = some call := (hcalls.2 call.id hid).trans hof'.found
      exact ⟨call, hof'.same (.refl call) hkept, hagree'⟩

structure FlightClaimed (cfg : ExecutorConfig) (db : Db) (flight : Flight) : Prop where
  external : flight.tool.spec.effect = .externalWrite → ∃ claim call,
    flight.claimId = some claim.id ∧ db.claims.get claim.id = some claim ∧
      flight.context.toolCallId = call.id ∧ ClaimOf cfg db claim call ∧
      flight.expectedClaimStatus.isSome = true
  internal : flight.tool.spec.effect ≠ .externalWrite → flight.claimId = none

theorem FlightClaimed.onward {flight : Flight} (h : FlightClaimed cfg db flight)
    (honward : Onward db db') : FlightClaimed cfg db' flight := by
  refine ⟨fun heffect => ?_, h.internal⟩
  obtain ⟨claim, call, hid, hclaim, hcall, hof, hexpects⟩ := h.external heffect
  obtain ⟨new, hnew, hsame, -⟩ := honward.claims claim.id claim hclaim
  obtain ⟨row, hrow, hrequest, -⟩ := honward.calls call.id call hof.found
  refine ⟨new, row, hid.trans (congrArg some hsame.id.symm), hsame.id.symm ▸ hnew,
    hcall.trans hrequest.id.symm, ?_, hexpects⟩
  have hlink : ClaimOf cfg db' claim row := hof.same hrequest (hrequest.id.symm ▸ hrow)
  exact
    { callId := hsame.toolCallId.trans hlink.callId
      found := hlink.found
      external := hlink.external
      action := hlink.action.trans (congrArg some hsame.logicalActionKey.symm)
      holder := hsame.holderExecutionId.trans hlink.holder
      tool := hlink.tool.imp fun _ htool =>
        ⟨htool.1, hsame.provider.trans htool.2.1, hsame.capability.trans htool.2.2⟩ }

/-- A step keeps the calls claimed where every external call it leaves was one before or has
a claim now. -/
theorem CallsClaimed.keep (h : CallsClaimed db) (honward : Onward db db')
    (hback : ∀ id new, db'.getToolCall id = some new → new.effect = .externalWrite →
      (∃ old, db.getToolCall id = some old ∧ old.effect = .externalWrite) ∨
        ∃ claim ∈ db'.claims.rows, claim.toolCallId = some id) : CallsClaimed db' := by
  intro id new hnew heffect
  rcases hback id new hnew heffect with ⟨old, hold, hexternal⟩ | hclaimed
  · obtain ⟨claim, hclaim, hcall⟩ := h id old hold hexternal
    obtain ⟨k, hk, hsame, -⟩ := honward.claims claim.id claim (Table.get_of_mem hclaim)
    exact ⟨k, Table.mem_of_get hk, hsame.toolCallId.trans hcall⟩
  · exact hclaimed

theorem external_before (hcalls : Table.Writes db.toolCalls db'.toolCalls c)
    (hbefore : ∃ old, db.getToolCall c.id = some old ∧ SameRequest old c) {id : ToolCallId}
    {new : ToolCallRecord} (hnew : db'.getToolCall id = some new)
    (heffect : new.effect = .externalWrite) :
    ∃ old, db.getToolCall id = some old ∧ old.effect = .externalWrite := by
  rw [Db.getToolCall, hcalls.get] at hnew
  split_ifs at hnew with hid
  · cases hnew
    obtain ⟨old, hold, hsame⟩ := hbefore
    exact ⟨old, by rw [hid]; exact hold, hsame.effect ▸ heffect⟩
  · exact ⟨new, hnew, heffect⟩

end Links

namespace ExecutorWorld

variable {cfg : ExecutorConfig} {w w' : ExecutorWorld} {a : ExecutorAction}

/-- Calls, claims and flights are linked, and linked calls and claims agree. -/
structure Agreed (cfg : ExecutorConfig) (w : ExecutorWorld) : Prop where
  known : Known cfg w
  claims : ClaimsAgree cfg w.db
  calls : CallsClaimed w.db
  flights : ∀ f ∈ w.underWay, FlightClaimed cfg w.db f

theorem Agreed.background {db : Db} (hw : Agreed cfg w) (h : Background w.db db) :
    ClaimsAgree cfg db ∧ CallsClaimed db := by
  refine ⟨hw.claims.keep h.claims fun id call hcall heffect => ?_,
    hw.calls.keep (.of_background h) fun id new hnew heffect => Or.inl ?_⟩
  · obtain ⟨new, hnew, hmoved⟩ := h.moved id call hcall
    refine ⟨new, hnew, hmoved.same, fun status hagree => ?_⟩
    cases hmoved with
    | kept _ hstatus => rwa [hstatus]
    | takenUp _ _ hbefore hafter =>
      refine hagree.of_underWay hbefore ?_
      rcases hafter with hafter | hafter <;> rw [hafter] <;> decide
    | failed _ hinternal => exact absurd heffect hinternal
  · cases hold : w.db.getToolCall id with
    | none =>
      rw [h.absent id hold] at hnew
      cases hnew
    | some old =>
      obtain ⟨row, hrow, hmoved⟩ := h.moved id old hold
      obtain rfl : row = new := Option.some.inj (hrow.symm.trans hnew)
      exact ⟨old, rfl, hmoved.same.effect ▸ heffect⟩

section Request

variable {db : Db} {tool : RegisteredTool} {request : ToolInvocation}
  {execution : ExecutionRecord} {flight : Flight} {call : ToolCallRecord}

theorem claimOf_requested {claim : ClaimRecord}
    (htool : cfg.registry.find request.toolName = some tool)
    (h : Requested w.db db tool request execution flight call)
    (heffect : tool.spec.effect = .externalWrite)
    (hclaim : ClaimRequested w.db db tool flight call claim) : ClaimOf cfg db claim call where
  callId := hclaim.callId
  found := h.writes.1
  external := h.identity.2.2.2.1.trans heffect
  action := hclaim.action
  holder := hclaim.holder
  tool := ⟨tool, Requested.ofTool htool h, hclaim.provider, hclaim.capability⟩

theorem Requested.same_before (h : Requested w.db db tool request execution flight call)
    (old : ToolCallRecord) (hold : w.db.getToolCall call.id = some old) :
    SameRequest old call := by
  rcases h.before with ⟨hnone, -⟩ | ⟨row, hrow, -, hsame, -⟩
  · rw [hnone] at hold
    cases hold
  · obtain rfl : row = old := Option.some.inj (hrow.symm.trans hold)
    exact hsame

theorem Agreed.requested (hw : Agreed cfg w)
    (htool : cfg.registry.find request.toolName = some tool)
    (h : Requested w.db db tool request execution flight call) :
    ClaimsAgree cfg db ∧ CallsClaimed db ∧ FlightClaimed cfg db flight := by
  have hsame := Requested.same_before h
  have heffect' : call.effect = tool.spec.effect := h.identity.2.2.2.1
  by_cases heffect : tool.spec.effect = .externalWrite
  · obtain ⟨⟨claim, hclaim⟩, -⟩ := h.external heffect
    have hof := claimOf_requested htool h heffect hclaim
    refine ⟨hw.claims.write hclaim.writes h.writes hsame hof ?_,
      hw.calls.keep h.onward fun id new hnew hexternal => ?_, fun _ => ?_, fun hinternal => ?_⟩
    · rw [h.isRequesting, hclaim.isRequesting]
      decide
    · rw [Db.getToolCall, h.writes.get] at hnew
      split_ifs at hnew with hid
      · exact Or.inr ⟨claim, Table.mem_of_get hclaim.writes.1, by rw [hid]; exact hclaim.callId⟩
      · exact Or.inl ⟨new, hnew, hexternal⟩
    · exact ⟨claim, call, hclaim.flightClaim, hclaim.writes.1, h.flightCall, hof,
        by rw [hclaim.flightExpects]; rfl⟩
    · rw [h.flightTool] at hinternal
      exact absurd heffect hinternal
  · obtain ⟨hunclaimed, hclaims, -⟩ := h.internal heffect
    refine ⟨hw.claims.keep hclaims fun id old hold hexternal => ?_,
      hw.calls.keep h.onward fun id new hnew hexternal => Or.inl ?_, fun hexternal => ?_,
      fun _ => hunclaimed⟩
    · have hid : id ≠ call.id := by
        rintro rfl
        exact heffect (heffect'.symm.trans ((hsame old hold).effect.trans hexternal))
      exact ⟨old, (h.writes.2 id hid).trans hold, .refl old, fun _ h => h⟩
    · rw [Db.getToolCall, h.writes.get] at hnew
      split_ifs at hnew
      · cases hnew
        exact absurd (heffect'.symm.trans hexternal) heffect
      · exact ⟨new, hnew, hexternal⟩
    · rw [h.flightTool] at hexternal
      exact absurd hexternal heffect

end Request

section Reconcile

variable {db : Db} {tool : RegisteredTool} {flight : Flight} {call : ToolCallRecord}
  {claim : Option ClaimRecord}

theorem Agreed.finds_claim (hw : Agreed cfg w) (htool : OfTool cfg call tool)
    (hcall : w.db.getToolCall call.id = some call) (heffect : call.effect = .externalWrite) :
    ∃ claim ∈ w.db.claims.rows, claimForCall w.db tool call = some claim ∧
      ClaimOf cfg w.db claim call ∧ Agree call.status claim.status := by
  obtain ⟨claim, hclaim, hid⟩ := hw.calls call.id call hcall heffect
  obtain ⟨row, hof, hagree⟩ := hw.claims claim hclaim
  have hrow : row.id = call.id := Option.some.inj (hof.callId.symm.trans hid)
  obtain rfl : row = call := Option.some.inj (hof.found.symm.trans (hrow ▸ hcall))
  obtain ⟨tool', htool', hprovider, hcapability⟩ := hof.tool
  obtain rfl : tool = tool' := Option.some.inj (htool.1.symm.trans htool'.1)
  refine ⟨claim, hclaim, claimForCall_eq_some.mpr ⟨heffect, claim.logicalActionKey, hof.action,
    Table.getUnique_eq_some.mpr ⟨hclaim, ?_⟩⟩, hof, hagree⟩
  rw [← hprovider, ← hcapability]
  rfl

theorem Agreed.reconcileRequested (hw : Agreed cfg w)
    (htool : cfg.registry.find call.toolName = some tool)
    (h : ReconcileRequested w.db db tool flight call claim) :
    ClaimsAgree cfg db ∧ CallsClaimed db ∧ FlightClaimed cfg db flight := by
  obtain ⟨now, hwrites⟩ := h.writes
  have hclaims : db.claims = w.db.claims := by rw [h.rest]
  obtain ⟨tool', hoftool⟩ := hw.known.calls call.id call h.found
  obtain rfl : tool' = tool := Option.some.inj (hoftool.1.symm.trans htool)
  have hopen : call.status ∈ unresolvedStatuses := by
    have hstatus := h.open'
    revert hstatus
    cases call.status <;> decide
  have hsame : SameRequest call (call.updated (reconcilingUpdate call now)) := .updated call _
  refine ⟨hw.claims.keep hclaims fun id old hold _ => ?_, hw.calls.keep h.onward
    fun id new hnew hexternal => Or.inl
      (external_before hwrites ⟨call, h.found, hsame⟩ hnew hexternal), fun hexternal => ?_,
    fun hinternal => ?_⟩
  · by_cases hid : id = call.id
    · subst hid
      obtain rfl : call = old := Option.some.inj (h.found.symm.trans hold)
      exact ⟨call.updated (reconcilingUpdate call now), hwrites.1, hsame,
        fun _ hagree => hagree.of_underWay hopen
          (show ToolCallStatus.reconciling ∈ unresolvedStatuses by decide)⟩
    · exact ⟨old, (hwrites.2 id hid).trans hold, .refl old, fun _ h => h⟩
  · rw [h.flightTool] at hexternal
    obtain ⟨k, hk, hfound, hof, -⟩ := hw.finds_claim hoftool h.found
      (hoftool.2.1.trans hexternal)
    refine ⟨k, call.updated (reconcilingUpdate call now), ?_, ?_, h.flightCall,
      hof.same hsame hwrites.1, ?_⟩
    · rw [h.flightClaim, h.claimed, hfound]
      rfl
    · rw [hclaims]
      exact Table.get_of_mem hk
    · rw [h.flightExpects, h.claimed, hfound]
      rfl
  · rw [h.flightTool] at hinternal
    have hunclaimed : claimForCall w.db tool' call = none :=
      if_neg fun heffect => hinternal (hoftool.2.1.symm.trans heffect)
    rw [h.flightClaim, h.claimed, hunclaimed]
    rfl

end Reconcile

theorem Agreed.persisted {db : Db} {flight : Flight} {result : ToolResult}
    {call : ToolCallRecord} (hw : Agreed cfg w) (hflight : flight ∈ w.underWay)
    (h : Persisted w.db db flight result call) : ClaimsAgree cfg db ∧ CallsClaimed db := by
  obtain ⟨now, hwrites⟩ := h.writes
  have hid : call.id = flight.context.toolCallId := Table.key_of_get h.found
  have hget : w.db.getToolCall call.id = some call := hid ▸ h.found
  have hsame : SameRequest call (call.updated (resultUpdate result now)) := .updated call _
  have htracked := hw.known.flights flight hflight
  have hclaimed := hw.flights flight hflight
  refine ⟨?_, hw.calls.keep h.onward fun id new hnew hexternal => Or.inl
    (external_before hwrites ⟨call, hget, hsame⟩ hnew hexternal)⟩
  obtain ⟨row, hrow, -, -, -, heffect, -⟩ := htracked.call
  obtain rfl : call = row := Option.some.inj (h.found.symm.trans hrow)
  by_cases hexternal : flight.tool.spec.effect = .externalWrite
  · obtain ⟨claim, c, hclaimId, hclaim, hcallId, hof, hexpects⟩ := hclaimed.external hexternal
    obtain rfl : c = call := Option.some.inj (hof.found.symm.trans (hcallId ▸ h.found))
    rcases h.claims with ⟨hnone | hnone, -⟩ | ⟨k, hheld, hclaims⟩
    · rw [hnone] at hclaimId
      cases hclaimId
    · rw [hnone] at hexpects
      cases hexpects
    · have hk : k.id = claim.id := Option.some.inj (hheld.1.symm.trans hclaimId)
      obtain rfl : k = claim := Option.some.inj (hheld.2.2.1.symm.trans (hk ▸ hclaim))
      have hlink : ClaimOf cfg db k (c.updated (resultUpdate result now)) :=
        hof.same hsame hwrites.1
      refine hw.claims.write hclaims hwrites (fun old hold => ?_)
        { callId := hlink.callId, found := hlink.found, external := hlink.external
          action := hlink.action, holder := hlink.holder, tool := hlink.tool }
        (agree_outcome result.status (htracked.expects _ _ hheld.1 hheld.2.1))
      obtain rfl : c = old := Option.some.inj (hget.symm.trans hold)
      exact hsame
  · have hclaims : db.claims = w.db.claims := by
      rcases h.claims with ⟨-, hclaims⟩ | ⟨k, hheld, -⟩
      · exact hclaims
      · have hclaimId := hheld.1
        rw [hclaimed.internal hexternal] at hclaimId
        cases hclaimId
    refine hw.claims.keep hclaims fun id old hold heffect' => ?_
    have hne : id ≠ call.id := by
      rintro rfl
      obtain rfl : call = old := Option.some.inj (hget.symm.trans hold)
      exact hexternal (heffect.symm.trans heffect')
    exact ⟨old, (hwrites.2 id hne).trans hold, .refl old, fun _ h => h⟩

theorem Agreed.step (hw : Agreed cfg w) (h : Stepped cfg w a w') : Agreed cfg w' := by
  have honward := h.onward
  have hknown := hw.known.step h
  have hkept : ∀ f ∈ w.underWay, FlightClaimed cfg w'.db f :=
    fun f hf => (hw.flights f hf).onward honward
  cases h with
  | background db h =>
    obtain ⟨hclaims, hcalls⟩ := hw.background h
    exact ⟨hknown, hclaims, hcalls, hkept⟩
  | executed request tool execution flight call db htool h =>
    obtain ⟨hclaims, hcalls, hflight⟩ := hw.requested htool h
    refine ⟨hknown, hclaims, hcalls, fun f hf => ?_⟩
    rcases mem_underWay_append hf with hf | rfl
    · exact hkept f hf
    · exact hflight
  | reconciled tool flight call claim db htool h =>
    obtain ⟨hclaims, hcalls, hflight⟩ := hw.reconcileRequested htool h
    refine ⟨hknown, hclaims, hcalls, fun f hf => ?_⟩
    rcases mem_underWay_append hf with hf | rfl
    · exact hkept f hf
    · exact hflight
  | called i flight answer h =>
    exact ⟨hknown, hw.claims, hw.calls, fun f hf => hkept f (underWay_called h hf)⟩
  | persisted i flight answer result call db hi _ h =>
    obtain ⟨hclaims, hcalls⟩ := hw.persisted
      (List.mem_append_right _ (List.mem_map_of_mem (List.mem_of_getElem? hi))) h
    exact ⟨hknown, hclaims, hcalls, fun f hf => hkept f (underWay_erased hf)⟩
  | lost requested answered hrequested hanswered =>
    exact ⟨hknown, hw.claims, hw.calls,
      fun f hf => hkept f ((hrequested.append (hanswered.map _)).subset hf)⟩

theorem Initial.agreed (hw : w.Initial) : Agreed cfg w := by
  refine ⟨hw.known, fun claim hclaim => ?_, fun id call hcall => ?_, fun f hf => ?_⟩
  · rw [hw.claims] at hclaim
    cases hclaim
  · rw [hw.no_calls] at hcall
    cases hcall
  · simp [underWay, hw.idle.1, hw.idle.2.1] at hf

/-- Every external call agrees with every claim linked to it. -/
def LinkedAgree (db : Db) : Prop :=
  ∀ claim ∈ db.claims.rows, ∀ call, claim.toolCallId = some call.id →
    db.getToolCall call.id = some call → call.effect = .externalWrite →
      Agree call.status claim.status

/-- A linked call enters or leaves the end or the beginning of its life exactly where its
claim does. -/
def MovedTogether (db db' : Db) : Prop :=
  ∀ claim k call c, db.claims.get claim.id = some claim → db'.claims.get claim.id = some k →
    claim.toolCallId = some call.id → db.getToolCall call.id = some call →
    db'.getToolCall call.id = some c → call.effect = .externalWrite →
    ∀ p ∈ [(ToolCallStatus.succeeded, ClaimStatus.succeeded), (.failed, .failedSafe),
        (.prepared, .reserved)],
      (call.status ≠ p.1 ∧ c.status = p.1 ↔ claim.status ≠ p.2 ∧ k.status = p.2) ∧
        (call.status = p.1 ∧ c.status ≠ p.1 ↔ claim.status = p.2 ∧ k.status ≠ p.2)

theorem Agreed.linked (hw : Agreed cfg w) : LinkedAgree w.db := by
  intro claim hclaim call hid hcall _
  obtain ⟨row, hof, hagree⟩ := hw.claims claim hclaim
  have hrow : row.id = call.id := Option.some.inj (hof.callId.symm.trans hid)
  obtain rfl : row = call := Option.some.inj (hof.found.symm.trans (hrow ▸ hcall))
  exact hagree

theorem LinkedAgree.movedTogether {db db' : Db} (h : LinkedAgree db) (h' : LinkedAgree db')
    (honward : Onward db db') : MovedTogether db db' := by
  intro claim k call c hclaim hk hid hcall hc heffect p hp
  obtain ⟨row, hrow, hsame, -⟩ := honward.calls call.id call hcall
  obtain rfl : row = c := Option.some.inj (hrow.symm.trans hc)
  obtain ⟨new, hnew, haction, -⟩ := honward.claims claim.id claim hclaim
  obtain rfl : new = k := Option.some.inj (hnew.symm.trans hk)
  have hbefore := h claim (Table.mem_of_get hclaim) call hid hcall heffect
  have hafter := h' new (Table.mem_of_get hk) row
    ((haction.toolCallId.trans hid).trans (congrArg some hsame.id.symm))
    (hsame.id.symm ▸ hc) (hsame.effect.trans heffect)
  have hpairs : (call.status = p.1 ↔ claim.status = p.2) ∧
    (row.status = p.1 ↔ new.status = p.2) := by
    simp only [List.mem_cons, List.not_mem_nil, or_false] at hp
    rcases hp with rfl | rfl | rfl
    · exact ⟨hbefore.1, hafter.1⟩
    · exact ⟨hbefore.2.1, hafter.2.1⟩
    · exact ⟨hbefore.2.2, hafter.2.2⟩
  rw [Ne, Ne, Ne, Ne, hpairs.1, hpairs.2]
  exact ⟨Iff.rfl, Iff.rfl⟩

/-- In every reachable state every external call agrees with its claim, and every committed
transaction from there moves the two together. -/
theorem run_linkedAgree {ls : List ExecutorAction} (hw : w.Initial)
    (h : Run (Steps cfg) w ls w') :
    LinkedAgree w'.db ∧ ∀ a v, w'.next cfg a = some v → MovedTogether w'.db v.db := by
  have hagreed : Agreed cfg w' :=
    h.invariant (fun _ _ _ hi hs => hi.step (stepped_of_next hs)) hw.agreed
  refine ⟨hagreed.linked, fun a v hv => ?_⟩
  have hstepped := stepped_of_next hv
  exact hagreed.linked.movedTogether (hagreed.step hstepped).linked hstepped.onward

/-- A task is filed while its execution is cancelled: its claim succeeds with its call. -/
theorem filedTask_linkedAgree :
    ∃ w', Run (Steps fileTaskConfig) (filingWorld (some 1))
      [.execute (fileTaskInput none), .service (.cancel 1 1 2),
        .callAdapter 0 (.result (.success (.obj []))), .persist 0 3] w' ∧
      w'.db.claims.rows.map ClaimRecord.status = [.succeeded] ∧ LinkedAgree w'.db ∧
      ∀ a v, w'.next fileTaskConfig a = some v → MovedTogether w'.db v.db := by
  have hrun := run_to_get (fun w a => next fileTaskConfig w a)
    [.execute (fileTaskInput none), .service (.cancel 1 1 2),
      .callAdapter 0 (.result (.success (.obj []))), .persist 0 3]
    (filingWorld (some 1)) (by decide)
  exact ⟨_, hrun, by decide, run_linkedAgree (filingWorld_initial (some 1)) hrun⟩

end ExecutorWorld

end Assistant
end Matinier
