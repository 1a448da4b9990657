import Matinier.Assistant.ExecutorMachine

/-!
# What every step of the executor keeps

A call and a claim stay about the same request and the same action, and never
come back to the status they were inserted with. A call is one of a registered
tool, and each flight under way knows its call.
-/

namespace Matinier
namespace Assistant

theorem SameAction.settled (claim : ClaimRecord) (result : ToolResult) :
    SameAction claim (claim.settled result) := ⟨rfl, rfl, rfl, rfl, rfl, rfl⟩

/-- Calls stay requested and claims stay taken, each for what it was made for. -/
structure Onward (db db' : Db) : Prop where
  calls : ∀ id call, db.getToolCall id = some call → ∃ new, db'.getToolCall id = some new ∧
    SameRequest call new ∧ (call.status ≠ .prepared → new.status ≠ .prepared)
  claims : ∀ id claim, db.claims.get id = some claim → ∃ new, db'.claims.get id = some new ∧
    SameAction claim new ∧ (claim.status ≠ .reserved → new.status ≠ .reserved)
  executions : ∀ id, (db.getExecution id).isSome = true → (db'.getExecution id).isSome = true

namespace Onward

variable {db db' db'' : Db}

theorem refl (db : Db) : Onward db db :=
  ⟨fun _ call hcall => ⟨call, hcall, .refl call, id⟩,
    fun _ claim hclaim => ⟨claim, hclaim, .refl claim, id⟩, fun _ h => h⟩

theorem trans (h : Onward db db') (h' : Onward db' db'') : Onward db db'' := by
  refine ⟨fun id call hcall => ?_, fun id claim hclaim => ?_,
    fun id hid => h'.executions id (h.executions id hid)⟩
  · obtain ⟨mid, hmid, hsame, hrequested⟩ := h.calls id call hcall
    obtain ⟨new, hnew, hsame', hrequested'⟩ := h'.calls id mid hmid
    exact ⟨new, hnew, hsame.trans hsame', fun hs => hrequested' (hrequested hs)⟩
  · obtain ⟨mid, hmid, hsame, htaken⟩ := h.claims id claim hclaim
    obtain ⟨new, hnew, hsame', htaken'⟩ := h'.claims id mid hmid
    exact ⟨new, hnew, hsame.trans hsame', fun hs => htaken' (htaken hs)⟩

theorem of_background (h : Background db db') : Onward db db' := by
  refine ⟨fun id call hcall => ?_, fun id claim hclaim => ?_, h.executions⟩
  · obtain ⟨new, hnew, hmoved⟩ := h.moved id call hcall
    exact ⟨new, hnew, hmoved.same, hmoved.not_prepared⟩
  · exact ⟨claim, by rw [h.claims]; exact hclaim, .refl claim, fun hs => hs⟩

end Onward

/-- No result leads a call back to `prepared`. -/
theorem toCall_ne_prepared (status : ToolResultStatus) : status.toCall ≠ .prepared := by
  cases status <;> simp [ToolResultStatus.toCall]

/-- No result leads a claim back to `reserved`. -/
theorem claimStatusAfter_ne_reserved {expected : ClaimStatus} (status : ToolResultStatus)
    (h : expected ≠ .reserved) : claimStatusAfter expected status ≠ .reserved := by
  cases status <;> simp [claimStatusAfter, h]

section Transactions

variable {db db' : Db} {tool : RegisteredTool} {flight : Flight} {call : ToolCallRecord}

/-- The rows a request finds are rows of the same requests and actions afterwards. -/
theorem Requested.onward {request : ToolInvocation} {execution : ExecutionRecord}
    (h : Requested db db' tool request execution flight call) : Onward db db' := by
  refine ⟨fun id old hold => ?_, fun id old hold => ?_, by rw [h.rest]; exact fun _ h => h⟩
  · by_cases hid : id = call.id
    · subst hid
      rcases h.before with ⟨hnone, -⟩ | ⟨row, hrow, -, hsame, -⟩
      · rw [hnone] at hold
        cases hold
      · obtain rfl : row = old := Option.some.inj (hrow.symm.trans hold)
        exact ⟨call, h.writes.1, hsame, fun _ => by simp [h.isRequesting]⟩
    · exact ⟨old, (h.writes.2 id hid).trans hold, .refl old, fun hs => hs⟩
  · by_cases heffect : tool.spec.effect = .externalWrite
    · obtain ⟨⟨claim, hclaim⟩, -⟩ := h.external heffect
      by_cases hid : id = claim.id
      · subst hid
        rcases hclaim.before with hnone | ⟨row, hrow, -, hsame⟩
        · rw [hnone] at hold
          cases hold
        · obtain rfl : row = old := Option.some.inj (hrow.symm.trans hold)
          exact ⟨claim, hclaim.writes.1, hsame, fun _ => by simp [hclaim.isRequesting]⟩
      · exact ⟨old, (hclaim.writes.2 id hid).trans hold, .refl old, fun hs => hs⟩
    · exact ⟨old, by rw [(h.internal heffect).2.1]; exact hold, .refl old, fun hs => hs⟩

theorem ReconcileRequested.onward {claim : Option ClaimRecord}
    (h : ReconcileRequested db db' tool flight call claim) : Onward db db' := by
  obtain ⟨now, hwrites⟩ := h.writes
  refine ⟨fun id old hold => ?_, fun id old hold => ?_, by rw [h.rest]; exact fun _ h => h⟩
  · by_cases hid : id = call.id
    · subst hid
      obtain rfl : call = old := Option.some.inj (h.found.symm.trans hold)
      exact ⟨call.updated (reconcilingUpdate call now), hwrites.1, .updated call _,
        fun _ hprepared => by cases hprepared⟩
    · exact ⟨old, (hwrites.2 id hid).trans hold, .refl old, fun hs => hs⟩
  · exact ⟨old, by rw [h.rest]; exact hold, .refl old, fun hs => hs⟩

theorem Persisted.onward {result : ToolResult} (h : Persisted db db' flight result call) :
    Onward db db' := by
  obtain ⟨now, hwrites⟩ := h.writes
  have hcallid : call.id = flight.context.toolCallId := Table.key_of_get h.found
  refine ⟨fun id old hold => ?_, fun id old hold => ?_, by rw [h.rest]; exact fun _ h => h⟩
  · by_cases hid : id = call.id
    · rw [hid, hcallid, h.found] at hold
      obtain rfl := Option.some.inj hold
      rw [hid]
      exact ⟨call.updated (resultUpdate result now), hwrites.1, .updated call _,
        fun _ => toCall_ne_prepared result.status⟩
    · exact ⟨old, (hwrites.2 id hid).trans hold, .refl old, fun hs => hs⟩
  · rcases h.claims with ⟨-, hsame⟩ | ⟨claim, ⟨-, -, hget, -⟩, hwrites⟩
    · exact ⟨old, by rw [hsame]; exact hold, .refl old, fun hs => hs⟩
    · by_cases hid : id = claim.id
      · rw [hid, hget] at hold
        obtain rfl := Option.some.inj hold
        rw [hid]
        exact ⟨claim.settled result, hwrites.1, .settled claim result,
          claimStatusAfter_ne_reserved result.status⟩
      · exact ⟨old, (hwrites.2 id hid).trans hold, .refl old, fun hs => hs⟩

end Transactions

/-- A call that is not over has no settled result stored. -/
def Unsettled (db : Db) : Prop :=
  ∀ id call, db.getToolCall id = some call → call.status.isTerminal = false →
    ∀ result ∈ call.result, result.status = .pending ∨ result.status = .unknown

namespace Unsettled

variable {db db' : Db} {tool : RegisteredTool} {flight : Flight} {call : ToolCallRecord}

/-- One row is written, with no settled result unless the call is over. -/
theorem of_writes (hdb : Unsettled db) (hwrites : Table.Writes db.toolCalls db'.toolCalls call)
    (hcall : call.status.isTerminal = false →
      ∀ result ∈ call.result, result.status = .pending ∨ result.status = .unknown) :
    Unsettled db' := by
  intro id new hnew hlive
  rw [Db.getToolCall, hwrites.get] at hnew
  split_ifs at hnew
  · cases hnew
    exact hcall hlive
  · exact hdb id new hnew hlive

theorem background (hdb : Unsettled db) (h : Background db db') : Unsettled db' := by
  intro id new hnew hlive result hresult
  cases hold : db.getToolCall id with
  | none =>
    rw [h.absent id hold] at hnew
    cases hnew
  | some old =>
    obtain ⟨row, hrow, hmoved⟩ := h.moved id old hold
    obtain rfl : row = new := Option.some.inj (hrow.symm.trans hnew)
    cases hmoved with
    | kept _ hstatus hsame =>
      rw [hstatus] at hlive
      rw [hsame] at hresult
      exact hdb id old hold hlive result hresult
    | takenUp _ _ hbefore _ hsame =>
      have hopen : old.status.isTerminal = false := by
        revert hbefore
        cases old.status <;> decide
      rw [hsame] at hresult
      exact hdb id old hold hopen result hresult
    | failed _ _ _ hfailed =>
      rw [hfailed] at hlive
      cases hlive

theorem requested {request : ToolInvocation} {execution : ExecutionRecord} (hdb : Unsettled db)
    (h : Requested db db' tool request execution flight call) : Unsettled db' := by
  refine hdb.of_writes h.writes fun _ result hresult => ?_
  rcases h.before with ⟨-, hnone⟩ | ⟨old, hold, hprepared, -, hsame⟩
  · rw [hnone] at hresult
    cases hresult
  · rw [hsame] at hresult
    exact hdb _ old hold (by rw [hprepared]; rfl) result hresult

theorem reconcileRequested {claim : Option ClaimRecord} (hdb : Unsettled db)
    (h : ReconcileRequested db db' tool flight call claim) : Unsettled db' := by
  obtain ⟨now, hwrites⟩ := h.writes
  refine hdb.of_writes hwrites fun _ result hresult => ?_
  have hopen : call.status.isTerminal = false := by
    have hstatus := h.open'
    revert hstatus
    cases call.status <;> decide
  exact hdb _ call h.found hopen result hresult

theorem persisted {result : ToolResult} (hdb : Unsettled db)
    (h : Persisted db db' flight result call) : Unsettled db' := by
  obtain ⟨now, hwrites⟩ := h.writes
  refine hdb.of_writes hwrites fun hlive stored hstored => ?_
  obtain rfl : result = stored := Option.some.inj hstored
  change result.status.toCall.isTerminal = false at hlive
  revert hlive
  cases result.status <;> decide

end Unsettled

namespace ExecutorWorld

variable {cfg : ExecutorConfig} {w w' : ExecutorWorld} {a : ExecutorAction}

theorem Stepped.onward (h : Stepped cfg w a w') : Onward w.db w'.db := by
  cases h with
  | background db h => exact .of_background h
  | executed request tool execution flight call db _ h => exact h.onward
  | reconciled tool flight call claim db _ h => exact h.onward
  | called => exact .refl _
  | persisted i flight answer result call db _ _ h => exact h.onward
  | lost => exact .refl _

theorem onward_run {ls : List ExecutorAction} (h : Run (Steps cfg) w ls w') :
    Onward w.db w'.db := by
  induction h with
  | done u => exact .refl u.db
  | more hstep _ ih => exact (stepped_of_next hstep).onward.trans ih

/-- The calls under way. -/
def underWay (w : ExecutorWorld) : List Flight := w.requested ++ w.answered.map Prod.fst

/-- The call is one of a registered tool, as that declares itself. -/
def OfTool (cfg : ExecutorConfig) (call : ToolCallRecord) (tool : RegisteredTool) : Prop :=
  cfg.registry.find call.toolName = some tool ∧ call.effect = tool.spec.effect ∧
    call.capability = tool.spec.capability

theorem OfTool.same {call new : ToolCallRecord} {tool : RegisteredTool}
    (h : OfTool cfg call tool) (hsame : SameRequest call new) : OfTool cfg new tool :=
  ⟨by rw [hsame.toolName]; exact h.1, hsame.effect.trans h.2.1, hsame.capability.trans h.2.2⟩

/-- A flight under way knows the call it is for, which was requested, and the execution; a
claim it settles was requested or unknown. -/
structure Tracked (cfg : ExecutorConfig) (db : Db) (flight : Flight) : Prop where
  call : ∃ call, db.getToolCall flight.context.toolCallId = some call ∧
    call.status ≠ .prepared ∧ call.executionId = flight.context.executionId ∧
    OfTool cfg call flight.tool
  execution : (db.getExecution flight.context.executionId).isSome = true
  expects : ∀ id status, flight.claimId = some id → flight.expectedClaimStatus = some status →
    status = .requesting ∨ status = .unknown

theorem Tracked.onward {db db' : Db} {flight : Flight} (h : Tracked cfg db flight)
    (honward : Onward db db') : Tracked cfg db' flight := by
  refine ⟨?_, honward.executions _ h.execution, h.expects⟩
  obtain ⟨call, hcall, hstatus, hexec, htool⟩ := h.call
  obtain ⟨new, hnew, hsame, hrequested⟩ := honward.calls _ call hcall
  exact ⟨new, hnew, hrequested hstatus, hsame.executionId.trans hexec, htool.same hsame⟩

/-- Every call is one of a registered tool, and every flight under way knows its call. -/
structure Known (cfg : ExecutorConfig) (w : ExecutorWorld) : Prop where
  calls : ∀ id call, w.db.getToolCall id = some call → ∃ tool, OfTool cfg call tool
  flights : ∀ f ∈ w.underWay, Tracked cfg w.db f

theorem Requested.ofTool {db db' : Db} {tool : RegisteredTool} {request : ToolInvocation}
    {execution : ExecutionRecord} {flight : Flight} {call : ToolCallRecord}
    (htool : cfg.registry.find request.toolName = some tool)
    (h : Requested db db' tool request execution flight call) : OfTool cfg call tool := by
  refine ⟨?_, h.identity.2.2.2.1, h.identity.2.2.1⟩
  rw [h.identity.1, cfg.registry.name_eq htool]
  exact htool

theorem Requested.tracked {db db' : Db} {tool : RegisteredTool} {request : ToolInvocation}
    {execution : ExecutionRecord} {flight : Flight} {call : ToolCallRecord}
    (htool : cfg.registry.find request.toolName = some tool)
    (h : Requested db db' tool request execution flight call) : Tracked cfg db' flight := by
  refine ⟨⟨call, ?_, by simp [h.isRequesting], h.flightExecution.symm, ?_⟩, ?_, ?_⟩
  · rw [h.flightCall]
    exact h.writes.1
  · rw [h.flightTool]
    exact Requested.ofTool htool h
  · refine h.onward.executions _ ?_
    rw [h.flightExecution, h.owned, h.running]
    rfl
  · intro id status hid hstatus
    by_cases heffect : tool.spec.effect = .externalWrite
    · obtain ⟨⟨claim, hclaim⟩, -⟩ := h.external heffect
      rw [hclaim.flightExpects] at hstatus
      exact Or.inl (Option.some.inj hstatus).symm
    · rw [(h.internal heffect).1] at hid
      cases hid

theorem ReconcileRequested.tracked {db db' : Db} {tool : RegisteredTool} {flight : Flight}
    {call : ToolCallRecord} {claim : Option ClaimRecord} (htool : OfTool cfg call tool)
    (h : ReconcileRequested db db' tool flight call claim) : Tracked cfg db' flight := by
  obtain ⟨now, hwrites⟩ := h.writes
  have hstatus : (call.updated (reconcilingUpdate call now)).status ≠ .prepared := nofun
  refine ⟨⟨call.updated (reconcilingUpdate call now), ?_, hstatus, h.flightExecution.symm, ?_⟩,
    ?_, ?_⟩
  · rw [h.flightCall]
    exact hwrites.1
  · rw [h.flightTool]
    exact htool.same (.updated call _)
  · rw [h.flightExecution]
    exact h.onward.executions _ h.running
  · intro id status hid hexpects
    rw [h.flightExpects] at hexpects
    obtain ⟨k, hk, rfl⟩ := Option.map_eq_some_iff.mp hexpects
    exact h.claimOpen k hk

theorem underWay_called {i : ℕ} {flight f : Flight} {answer : AdapterAnswer}
    (h : w.requested[i]? = some flight)
    (hf : f ∈ w.requested.eraseIdx i ++ (w.answered ++ [(flight, answer)]).map Prod.fst) :
    f ∈ w.underWay := by
  simp only [List.map_append, List.map_cons, List.map_nil, List.mem_append,
    List.mem_singleton] at hf
  rcases hf with hf | hf | rfl
  · exact List.mem_append_left _ (List.mem_of_mem_eraseIdx hf)
  · exact List.mem_append_right _ hf
  · exact List.mem_append_left _ (List.mem_of_getElem? h)

/-- The flights under way after a request are those before it, and the requested one. -/
theorem mem_underWay_append {f flight : Flight}
    (hf : f ∈ (w.requested ++ [flight]) ++ w.answered.map Prod.fst) :
    f ∈ w.underWay ∨ f = flight := by
  simp only [List.append_assoc, List.mem_append, List.mem_singleton] at hf
  rcases hf with hf | rfl | hf
  · exact Or.inl (List.mem_append_left _ hf)
  · exact Or.inr rfl
  · exact Or.inl (List.mem_append_right _ hf)

/-- A flight that is still under way after an answer was persisted was so before. -/
theorem underWay_erased {f : Flight} {i : ℕ}
    (hf : f ∈ w.requested ++ (w.answered.eraseIdx i).map Prod.fst) : f ∈ w.underWay :=
  ((List.eraseIdx_sublist _ _).map Prod.fst).append_left w.requested |>.subset hf

theorem Known.step (hw : Known cfg w) (h : Stepped cfg w a w') : Known cfg w' := by
  have honward := h.onward
  have hkept : ∀ f ∈ w.underWay, Tracked cfg w'.db f := fun f hf => (hw.flights f hf).onward honward
  cases h with
  | background db h =>
    refine ⟨fun id call hcall => ?_, hkept⟩
    cases hold : w.db.getToolCall id with
    | none =>
      rw [show db.getToolCall id = none from h.absent id hold] at hcall
      cases hcall
    | some old =>
      obtain ⟨new, hnew, hmoved⟩ := h.moved id old hold
      obtain rfl : new = call := Option.some.inj (hnew.symm.trans hcall)
      exact (hw.calls id old hold).imp fun tool htool => htool.same hmoved.same
  | executed request tool execution flight call db htool h =>
    have hoftool := Requested.ofTool htool h
    refine ⟨fun id new hnew => ?_, fun f hf => ?_⟩
    · change db.toolCalls.get id = some new at hnew
      rw [h.writes.get] at hnew
      split_ifs at hnew
      · cases hnew
        exact ⟨tool, hoftool⟩
      · exact hw.calls id new hnew
    · rcases mem_underWay_append hf with hf | rfl
      · exact hkept f hf
      · exact Requested.tracked htool h
  | reconciled tool flight call claim db htool h =>
    obtain ⟨now, hwrites⟩ := h.writes
    obtain ⟨tool', htool'⟩ := hw.calls call.id call h.found
    obtain rfl : tool' = tool := Option.some.inj (htool'.1.symm.trans htool)
    refine ⟨fun id new hnew => ?_, fun f hf => ?_⟩
    · change db.toolCalls.get id = some new at hnew
      rw [hwrites.get] at hnew
      split_ifs at hnew
      · cases hnew
        exact ⟨tool', htool'.same (.updated call _)⟩
      · exact hw.calls id new hnew
    · rcases mem_underWay_append hf with hf | rfl
      · exact hkept f hf
      · exact ReconcileRequested.tracked htool' h
  | called i flight answer h =>
    exact ⟨hw.calls, fun f hf => hkept f (underWay_called h hf)⟩
  | persisted i flight answer result call db hi _ h =>
    obtain ⟨now, hwrites⟩ := h.writes
    refine ⟨fun id new hnew => ?_, fun f hf => hkept f (underWay_erased hf)⟩
    change db.toolCalls.get id = some new at hnew
    rw [hwrites.get] at hnew
    split_ifs at hnew
    · cases hnew
      exact (hw.calls _ call h.found).imp fun tool htool => htool.same (.updated call _)
    · exact hw.calls id new hnew
  | lost requested answered hrequested hanswered =>
    exact ⟨hw.calls, fun f hf => hkept f ((hrequested.append (hanswered.map _)).subset hf)⟩

theorem Known.run {ls : List ExecutorAction} (hw : Known cfg w)
    (h : Run (Steps cfg) w ls w') : Known cfg w' :=
  h.invariant (fun _ _ _ hi hs => hi.step (stepped_of_next hs)) hw

/-- Nothing was called yet: nothing is under way, and no call and no claim is recorded. -/
structure Initial (w : ExecutorWorld) : Prop where
  idle : w.Idle
  calls : w.db.toolCalls.rows = []
  claims : w.db.claims.rows = []

theorem Initial.no_calls (hw : w.Initial) (id : ToolCallId) : w.db.getToolCall id = none := by
  simp [Db.getToolCall, Table.get, hw.calls]

theorem Initial.known (hw : w.Initial) : Known cfg w := by
  refine ⟨fun id call h => ?_, fun f hf => ?_⟩
  · rw [hw.no_calls] at h
    cases h
  · simp [underWay, hw.idle.1, hw.idle.2.1] at hf

theorem filingWorld_initial (grantId : Option GrantId) : (filingWorld grantId).Initial :=
  ⟨⟨rfl, rfl, rfl, rfl⟩, rfl, rfl⟩

end ExecutorWorld

end Assistant
end Matinier
