import Matinier.Assistant.ExecutorInvariant

/-!
# The contract of stored outcomes

A tool result has an error just where it failed or is unknown, and an output only where it has
none. The row of a call is written from one result after the other, and keeps the error of an
earlier one where a later one has none.
-/

namespace Matinier
namespace Assistant

/-- The row of a call is as a result of its status has to be. -/
structure ToolCallRecord.Agrees (call : ToolCallRecord) : Prop where
  succeeded : call.status = .succeeded →
    (∃ result ∈ call.result, result.output.isSome = true) ∧ call.errorCode = none ∧
      call.errorMessage = none
  erroneous : call.status = .failed ∨ call.status = .unknown →
    call.errorCode.isSome = true ∧ call.errorMessage.isSome = true ∧
      ∀ result ∈ call.result, result.output = none
  pending : call.status = .pending → call.errorCode = none ∧ call.errorMessage = none

def ToolCallRecord.ErrorFree (call : ToolCallRecord) : Prop :=
  call.errorCode = none ∧ call.errorMessage = none

def ToolResultStatus.Plain (status : ToolResultStatus) : Prop :=
  status = .succeeded ∨ status = .pending

def ContractKept (db : Db) : Prop :=
  ∀ id call, db.getToolCall id = some call → call.Agrees

section Update

variable {call : ToolCallRecord} {result : ToolResult} {now : Instant}

theorem ToolCallRecord.Agrees.of_open
    (h : call.status ∉ [ToolCallStatus.succeeded, .failed, .unknown, .pending]) : call.Agrees where
  succeeded hs := absurd hs fun hs => h (by simp [hs])
  erroneous hs := absurd hs fun hs => h (by rcases hs with hs | hs <;> simp [hs])
  pending hs := absurd hs fun hs => h (by simp [hs])

theorem ToolResult.errors_of_plain (h : result.status.Plain) :
    result.errorCode = none ∧ result.errorMessage = none := by
  rcases h with hs | hs
  · exact ⟨(result.contract.succeeded hs).2.1, (result.contract.succeeded hs).2.2.1⟩
  · exact ⟨(result.contract.pending hs).1, (result.contract.pending hs).2.1⟩

theorem ToolResult.errors_of_erroneous (h : result.status = .failed ∨ result.status = .unknown) :
    result.errorCode.isSome = true ∧ result.errorMessage.isSome = true ∧
      result.output = none := by
  rcases h with hs | hs
  · exact result.contract.failed hs
  · obtain ⟨hcode, hmessage, houtput, -⟩ := result.contract.unknown hs
    exact ⟨hcode, hmessage, houtput⟩

theorem updated_errorFree (h : result.status.Plain) :
    (call.updated (resultUpdate result now)).ErrorFree ↔ call.ErrorFree := by
  obtain ⟨hcode, hmessage⟩ := result.errors_of_plain h
  simp only [ToolCallRecord.ErrorFree, ToolCallRecord.updated, resultUpdate, hcode, hmessage,
    Option.none_or]

/-- The row that a result is stored in agrees just where a result without an error finds none. -/
theorem agrees_resultUpdate_iff :
    (call.updated (resultUpdate result now)).Agrees ↔ (result.status.Plain → call.ErrorFree) := by
  have hstatus : (call.updated (resultUpdate result now)).status = result.status.toCall := rfl
  constructor
  · intro hagrees hplain
    have hupdated : (call.updated (resultUpdate result now)).ErrorFree ↔ call.ErrorFree :=
      updated_errorFree hplain
    rw [← hupdated]
    rcases hplain with hs | hs
    · exact (hagrees.succeeded (by rw [hstatus, hs]; rfl)).2
    · exact hagrees.pending (by rw [hstatus, hs]; rfl)
  · intro hfree
    refine ⟨fun hs => ?_, fun hs => ?_, fun hs => ?_⟩
    · have hsucceeded : result.status = .succeeded := by
        rw [hstatus] at hs
        revert hs
        cases result.status <;> simp [ToolResultStatus.toCall]
      have hplain : result.status.Plain := Or.inl hsucceeded
      exact ⟨⟨result, rfl, (result.contract.succeeded hsucceeded).1⟩,
        (updated_errorFree hplain).mpr (hfree hplain)⟩
    · have herroneous : result.status = .failed ∨ result.status = .unknown := by
        rw [hstatus] at hs
        revert hs
        cases result.status <;> simp [ToolResultStatus.toCall]
      obtain ⟨hcode, hmessage, houtput⟩ := result.errors_of_erroneous herroneous
      refine ⟨?_, ?_, ?_⟩
      · exact Option.isSome_or.trans (by rw [resultUpdate, hcode]; rfl)
      · exact Option.isSome_or.trans (by rw [resultUpdate, hmessage]; rfl)
      · intro stored hstored
        obtain rfl : result = stored := Option.some.inj hstored
        exact houtput
    · have hpending : result.status = .pending := by
        rw [hstatus] at hs
        revert hs
        cases result.status <;> simp [ToolResultStatus.toCall]
      have hplain : result.status.Plain := Or.inr hpending
      exact (updated_errorFree hplain).mpr (hfree hplain)

end Update

section Transactions

variable {db db' : Db} {flight : Flight} {call : ToolCallRecord}

theorem ContractKept.of_writes (h : ContractKept db)
    (hwrites : Table.Writes db.toolCalls db'.toolCalls call) (hcall : call.Agrees) :
    ContractKept db' := by
  intro id new hnew
  rw [Db.getToolCall, hwrites.get] at hnew
  split_ifs at hnew
  · cases hnew
    exact hcall
  · exact h id new hnew

/-- An answer that a tool succeeded or is still pending comes to a call without an error, or to one
that is over. -/
def ErrorFreeFor (db : Db) (flight : Flight) (answer : AdapterAnswer) : Prop :=
  ∀ value, answer = .result value → value.status.Plain →
    ∀ call, db.getToolCall flight.context.toolCallId = some call →
      call.status.isTerminal = false → call.ErrorFree

/-- Only an answer with a result can turn out to be one without an error. -/
theorem plain_of_adapterResult {answer : AdapterAnswer} {result : ToolResult}
    (h : adapterResult flight answer = .ok result) (hplain : result.status.Plain) :
    ∃ value, answer = .result value ∧ value.status.Plain := by
  unfold adapterResult at h
  split at h
  · obtain ⟨invoked, hinvoked, hvalidated⟩ := bind_eq_ok.mp h
    rw [(validateResult_ok hvalidated).1] at hplain
    cases answer with
    | result value =>
      cases hinvoked
      exact ⟨invoked, rfl, hplain⟩
    | timeout =>
      cases hinvoked
      rcases hplain with hs | hs <;> cases hs
    | raised =>
      unfold invokeAdapter at hinvoked
      split_ifs at hinvoked
      · cases hinvoked
        rcases hplain with hs | hs <;> cases hs
      · cases hinvoked
        rcases hplain with hs | hs <;> cases hs
    | malformed => cases hinvoked
  · obtain ⟨reconciled, hreconciled, hvalidated⟩ := bind_eq_ok.mp h
    rw [(validateResult_ok hvalidated).1] at hplain
    cases answer with
    | result value =>
      cases hreconciled
      exact ⟨reconciled, rfl, hplain⟩
    | timeout =>
      cases hreconciled
      rcases hplain with hs | hs <;> cases hs
    | raised =>
      cases hreconciled
      rcases hplain with hs | hs <;> cases hs
    | malformed => cases hreconciled

end Transactions

/-- The action is one of the executor, not of the rest of the service. -/
def ExecutorAction.own : ExecutorAction → Bool
  | .service _ => false
  | _ => true

namespace ExecutorWorld

variable {cfg : ExecutorConfig} {u w w' : ExecutorWorld} {a : ExecutorAction}

abbrev OwnSteps (cfg : ExecutorConfig) : ExecutorWorld → ExecutorAction → ExecutorWorld → Prop :=
  Under (fun _ a => a.own = true) (Steps cfg)

/-- An answer that is persisted without an error comes to a call that has none stored. -/
def PersistsErrorFree (w : ExecutorWorld) (a : ExecutorAction) : Prop :=
  ∀ i now, a = .persist i now → ∀ flight answer, w.answered[i]? = some (flight, answer) →
    ErrorFreeFor w.db flight answer

theorem settle_contractKept {flight : Flight} {answer : AdapterAnswer} {now : Instant}
    (hw : ContractKept w.db) (hfree : ErrorFreeFor w.db flight answer) :
    ContractKept (w.settle flight answer now) := by
  rcases settle_cases w flight answer now with hsame | ⟨result, call, hresult, hpersisted⟩
  · rw [hsame]
    exact hw
  · obtain ⟨stored, hwrites⟩ := hpersisted.writes
    refine hw.of_writes hwrites (agrees_resultUpdate_iff.mpr fun hplain => ?_)
    obtain ⟨value, hvalue, hplain⟩ := plain_of_adapterResult hresult hplain
    exact hfree value hvalue hplain call hpersisted.found hpersisted.live

/-- A step of the executor keeps the contract where it persists an answer without an error for a
call without one. -/
theorem contractKept_step (hw : ContractKept w.db) (hfree : w.PersistsErrorFree a)
    (h : OwnSteps cfg w a w') : ContractKept w'.db := by
  obtain ⟨hown, h⟩ := h
  cases a with
  | execute input =>
    simp only [Steps, next] at h
    split at h
    · rename_i flight db hbegin
      cases h
      rcases beginExecute_cases hbegin with ⟨r, hr, -⟩ |
        ⟨tool, execution, flight', call, -, -, -, -, -, hreq⟩
      · cases hr
      · exact hw.of_writes hreq.writes (.of_open (by simp [hreq.isRequesting]))
    · cases h
      exact hw
  | reconcile id refs now =>
    simp only [Steps, next] at h
    split at h
    · rename_i flight db hbegin
      cases h
      rcases beginReconcile_cases hbegin with ⟨r, hr, -⟩ |
        ⟨tool, flight', call, claim, -, -, -, hreq⟩
      · cases hr
      · obtain ⟨now, hwrites⟩ := hreq.writes
        exact hw.of_writes hwrites (.of_open (by simp [ToolCallRecord.updated, reconcilingUpdate]))
    · cases h
      exact hw
  | callAdapter i answer =>
    obtain ⟨flight, -, rfl⟩ := Option.map_eq_some_iff.mp h
    exact hw
  | persist i now =>
    obtain ⟨⟨flight, answer⟩, hi, rfl⟩ := Option.map_eq_some_iff.mp h
    exact settle_contractKept hw (hfree i now rfl flight answer hi)
  | abandonRequested i =>
    cases h
    exact hw
  | abandonAnswered i =>
    cases h
    exact hw
  | crash =>
    cases h
    exact hw
  | service action => cases hown

/-- In every run of the executor in which no answer without an error is persisted for a call with
one stored, each state that is reached keeps the contract of the stored outcomes. -/
theorem contractKept_of_run {ls : List ExecutorAction} (hu : ContractKept u.db)
    (hrun : Run (Under PersistsErrorFree (OwnSteps cfg)) u ls w) : ContractKept w.db :=
  hrun.invariant (I := fun w => ContractKept w.db)
    (fun _ _ _ hs h => contractKept_step hs h.1 h.2) hu

def KeptIn (db : Db) (id : ToolCallId) (call : ToolCallRecord) : Prop :=
  ∃ new, db.getToolCall id = some new ∧ SameRequest call new ∧ new.status = call.status ∧
    new.result = call.result

theorem Stepped.keptIn {a : ExecutorAction} (h : Stepped cfg w a w') {id : ToolCallId}
    {call : ToolCallRecord} (hcall : w.db.getToolCall id = some call)
    (hover : call.status.isTerminal = true) : KeptIn w'.db id call := by
  have hclosed : call.status ∉ [ToolCallStatus.prepared, .requesting, .pending, .unknown,
      .reconciling] := by
    cases hstatus : call.status <;> simp_all [ToolCallStatus.isTerminal]
  cases h with
  | background db h =>
    obtain ⟨new, hnew, hmoved⟩ := h.moved id call hcall
    cases hmoved with
    | kept same status result => exact ⟨new, hnew, same, status, result⟩
    | takenUp _ _ before => exact absurd (List.mem_cons_of_mem _ before) hclosed
    | failed _ _ live =>
      rw [live] at hover
      cases hover
  | executed request tool execution flight made db _ h =>
    refine ⟨call, (h.writes.2 id ?_).trans hcall, .refl call, rfl, rfl⟩
    rintro rfl
    rcases h.before with ⟨hnone, -⟩ | ⟨old, hold, hprepared, -⟩
    · cases hnone.symm.trans hcall
    · obtain rfl := Option.some.inj (hold.symm.trans hcall)
      simp [hprepared] at hclosed
  | reconciled tool flight made claim db _ h =>
    obtain ⟨now, hwrites⟩ := h.writes
    refine ⟨call, (hwrites.2 id ?_).trans hcall, .refl call, rfl, rfl⟩
    rintro rfl
    obtain rfl := Option.some.inj (h.found.symm.trans hcall)
    exact hclosed (List.mem_cons_of_mem _ (List.mem_cons_of_mem _ h.open'))
  | called | lost => exact ⟨call, hcall, .refl call, rfl, rfl⟩
  | persisted i flight answer result made db _ _ h =>
    obtain ⟨now, hwrites⟩ := h.writes
    refine ⟨call, (hwrites.2 id ?_).trans hcall, .refl call, rfl, rfl⟩
    rintro rfl
    have hfound := h.found
    rw [← show made.id = flight.context.toolCallId from Table.key_of_get hfound] at hfound
    obtain rfl := Option.some.inj (hfound.symm.trans hcall)
    rw [h.live] at hover
    cases hover

/-- In every run, whatever is executed, reconciled or recovered and wherever it crashes: a call
that has succeeded or failed keeps its request, its status and its result. -/
theorem outcome_final {ls : List ExecutorAction} (h : Run (Steps cfg) w ls w') {id : ToolCallId}
    {call : ToolCallRecord} (hcall : w.db.getToolCall id = some call)
    (hover : call.status.isTerminal = true) : KeptIn w'.db id call := by
  refine h.invariant (I := fun v => KeptIn v.db id call) (fun v a v' hv hstep => ?_)
    ⟨call, hcall, .refl call, rfl, rfl⟩
  obtain ⟨mid, hmid, hsame, hstatus, hresult⟩ := hv
  obtain ⟨new, hnew, hsame', hstatus', hresult'⟩ :=
    (stepped_of_next hstep).keptIn hmid (hstatus ▸ hover)
  exact ⟨new, hnew, hsame.trans hsame', hstatus'.trans hstatus, hresult'.trans hresult⟩

section Example

def filed : AdapterAnswer := .result (.success (.obj []))

def requestedWorld : ExecutorWorld :=
  ((filingWorld (some 1)).next fileTaskConfig (.execute (fileTaskInput none))).get (by decide)

def filedWorld : ExecutorWorld :=
  (requestedWorld.next fileTaskConfig (.callAdapter 0 filed)).get (by decide)

def persistedWorld : ExecutorWorld :=
  (filedWorld.next fileTaskConfig (.persist 0 2)).get (by decide)

theorem filingWorld_contractKept : ContractKept (filingWorld (some 1)).db := by
  intro id call hcall
  rw [(filingWorld_initial (some 1)).no_calls id] at hcall
  cases hcall

/-- A task that is filed at once keeps the contract. -/
theorem persistedWorld_contractKept : ContractKept persistedWorld.db := by
  have hflight : ∀ answered ∈ filedWorld.answered[0]?,
      ∀ call ∈ filedWorld.db.getToolCall answered.1.context.toolCallId,
        call.errorCode = none ∧ call.errorMessage = none := by decide
  have hfree : filedWorld.PersistsErrorFree (.persist 0 2) := by
    intro i now heq flight answer hi value _ _ call hcall _
    cases heq
    exact hflight (flight, answer) hi call hcall
  have hrun : Run (Under PersistsErrorFree (OwnSteps fileTaskConfig)) (filingWorld (some 1))
      [.execute (fileTaskInput none), .callAdapter 0 filed, .persist 0 2] persistedWorld :=
    .more ⟨nofun, rfl, (Option.some_get _).symm⟩ (.more ⟨nofun, rfl, (Option.some_get _).symm⟩
      (.single ⟨hfree, rfl, (Option.some_get _).symm⟩))
  exact contractKept_of_run filingWorld_contractKept hrun

/-- The task that is filed stays so when it is asked for once more. -/
theorem persistedWorld_final : ∃ w call, call.status = .succeeded ∧
    Run (Steps fileTaskConfig) persistedWorld [.execute (fileTaskInput none), .crash] w ∧
    KeptIn w.db 1 call := by
  have hrun := run_to_get (fun w a => next fileTaskConfig w a)
    [.execute (fileTaskInput none), .crash] persistedWorld (by decide)
  have hcall : (persistedWorld.db.getToolCall 1).isSome = true := by decide
  have hstatus : ((persistedWorld.db.getToolCall 1).get hcall).status = .succeeded := by
    decide +revert
  exact ⟨_, _, hstatus, hrun,
    outcome_final hrun (Option.some_get hcall).symm (by rw [hstatus]; rfl)⟩

def askedAgain : List ExecutorAction :=
  [.execute (fileTaskInput none), .callAdapter 0 .timeout, .persist 0 2, .reconcile 1 [] 3,
    .callAdapter 0 filed, .persist 0 4]

/-- A task that turns out to be filed after its call timed out keeps the error of that call. -/
theorem askedAgain_keeps_error : ¬ ∀ cfg u ls w, ContractKept u.db → Run (OwnSteps cfg) u ls w →
    ContractKept w.db := by
  intro h
  have hkept := h _ _ _ _ filingWorld_contractKept (run_under_to_get (fun _ a => a.own = true)
    (fun w a => next fileTaskConfig w a) askedAgain (filingWorld (some 1)) (by decide))
  have herror : ∃ call, ((follow (guarded (fun _ a => a.own = true) fun w a =>
      next fileTaskConfig w a) askedAgain (filingWorld (some 1))).get (by decide)).db.getToolCall
        1 =
        some call ∧ call.status = .succeeded ∧ call.errorCode ≠ none :=
    ⟨_, (Option.some_get (by decide)).symm, by decide⟩
  obtain ⟨call, hcall, hstatus, hcode⟩ := herror
  exact hcode ((hkept 1 call hcall).succeeded hstatus).2.1

end Example

end ExecutorWorld

end Assistant
end Matinier
