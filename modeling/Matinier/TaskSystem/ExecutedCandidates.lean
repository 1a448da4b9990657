import Matinier.TaskSystem.TaskMachine

/-!
# Candidates of created tasks

The workflow of a call that creates a task ends with its candidate marked executed; a
reconciliation that finds the task marks nothing. So in every run in which a reconciliation
succeeds only where the workflow of its call had marked the candidate before its answer was lost,
every call that succeeded refers to a task that the tracker gave it, and its candidate is executed.
-/

namespace Matinier
namespace TaskSystem

open Assistant Meeting

namespace TaskWorld

/-- The call that a flight is for ended with this result: its candidate is executed, and it
refers to a task that the tracker gave the call, under the key of the candidate's lineage or, where
the task was found, under the key that the task has. -/
def Settled (cfg : TaskToolConfig) (w : TaskWorld) (flight : Flight) (result : ToolResult) : Prop :=
  ∃ request record task actionKey,
    cfg.createInput flight.context.arguments = some request ∧
    w.traced.state.candidates.get request.candidateId = some record ∧
    record.executionStatus = .executed ∧
    result.externalReference = some (taskReference task actionKey) ∧
    .task task ∈ w.toldTo flight ∧
    (flight.phase = .execute → actionKey = cfg.actionKey cfg.teamId record.lineageRootId) ∧
    (flight.phase = .reconcile → ∀ key ∈ task.actionKey, actionKey = key)

/-- Every call that succeeded to create a task replied so, and its candidate is executed. -/
def Accounted (cfg : TaskSystemConfig) (w : TaskWorld) : Prop :=
  ∀ id call, w.executor.db.getToolCall id = some call → call.toolName = "task.create" →
    call.status = .succeeded →
    ∃ flight result, (flight, result) ∈ w.replied ∧ flight.context.toolCallId = id ∧
      call.result = some result ∧ Settled cfg.tools w flight result

/-- The workflow of the call marked its candidate executed. -/
def MarkedExecuted (cfg : TaskToolConfig) (w : TaskWorld) (flight : Flight) : Prop :=
  ∀ request ∈ cfg.createInput flight.context.arguments,
    (flight.context.toolCallId, request.candidateId) ∈ w.marked

instance (cfg : TaskToolConfig) (w : TaskWorld) (flight : Flight) :
    Decidable (MarkedExecuted cfg w flight) :=
  inferInstanceAs (Decidable (∀ request ∈ cfg.createInput flight.context.arguments, _ ∈ w.marked))

def Succeeds (flight : Flight) (answer : AdapterAnswer) : Prop :=
  ∃ result ∈ (adapterResult flight answer).toOption, result.status = .succeeded

instance (flight : Flight) (answer : AdapterAnswer) : Decidable (Succeeds flight answer) :=
  inferInstanceAs (Decidable (∃ result ∈ (adapterResult flight answer).toOption, _))

/-- A reconciliation succeeds where the workflow of its call had marked the candidate executed
before its answer was lost. -/
def ReconcilesMarked (cfg : TaskSystemConfig) (w : TaskWorld) : TaskAction → Prop
  | .executor (.persist i _) =>
    ∀ entry ∈ w.executor.answered[i]?, IsCreate entry.1 → entry.1.phase = .reconcile →
      Succeeds entry.1 entry.2 → MarkedExecuted cfg.tools w entry.1
  | _ => True

instance (cfg : TaskSystemConfig) (w : TaskWorld) :
    (a : TaskAction) → Decidable (w.ReconcilesMarked cfg a)
  | .executor (.persist i _) => inferInstanceAs (Decidable (∀ entry ∈ w.executor.answered[i]?,
      IsCreate entry.1 → entry.1.phase = .reconcile →
        Succeeds entry.1 entry.2 → MarkedExecuted cfg.tools w entry.1))
  | .executor (.execute _) | .executor (.reconcile ..) | .executor (.callAdapter ..)
  | .executor (.abandonRequested _) | .executor (.abandonAnswered _) | .executor .crash
  | .executor (.service _) | .delta .. | .conclude .. | .begin _ | .command .. | .answer _ =>
    .isTrue trivial

variable {cfg : TaskSystemConfig} {u w w' : TaskWorld} {a : TaskAction}

theorem Settled.of_proceeds {flight : Flight} {result : ToolResult}
    (h : Settled cfg.tools w flight result) (hproceeds : Proceeds False w.traced w'.traced)
    (hheard : w.heard ⊆ w'.heard) : Settled cfg.tools w' flight result := by
  obtain ⟨request, record, task, actionKey, hrequest, hrecord, hstatus, hreference, htold, hkey,
    hfound⟩ := h
  obtain ⟨later, hlater, hkept⟩ := hproceeds.rows.kept _ record hrecord
  refine ⟨request, later, task, actionKey, hrequest, hlater, hkept.executed hstatus, hreference,
    hheard htold, fun hphase => ?_, hfound⟩
  rw [hkept.root]
  exact hkey hphase

theorem Accounted.of_proceeds (h : w.Accounted cfg)
    (hproceeds : Proceeds False w.traced w'.traced) (hexecutor : w'.executor = w.executor)
    (hreplied : w'.replied = w.replied) (hheard : w.heard ⊆ w'.heard) : w'.Accounted cfg := by
  intro id call hcall hname hstatus
  rw [hexecutor] at hcall
  obtain ⟨flight, result, hmem, hid, hresult, hsettled⟩ := h id call hcall hname hstatus
  rw [← hreplied] at hmem
  exact ⟨flight, result, hmem, hid, hresult, hsettled.of_proceeds hproceeds hheard⟩

/-- What succeeded after a step of the executor succeeded before, with the same result, or was
persisted in it. -/
theorem succeeded_of_stepped {executor : ExecutorWorld} {action : ExecutorAction}
    (h : ExecutorWorld.Stepped cfg.executor w.executor action executor) {id : ToolCallId}
    {call : ToolCallRecord} (hcall : executor.db.getToolCall id = some call)
    (hstatus : call.status = .succeeded) :
    (∃ old, w.executor.db.getToolCall id = some old ∧ old.status = .succeeded ∧
      old.toolName = call.toolName ∧ old.result = call.result) ∨
    ∃ i now flight answer result old, action = .persist i now ∧
      w.executor.answered[i]? = some (flight, answer) ∧
      adapterResult flight answer = .ok result ∧ result.status = .succeeded ∧
      flight.context.toolCallId = id ∧ call.result = some result ∧
      Persisted w.executor.db executor.db flight result old ∧ old.toolName = call.toolName := by
  cases h with
  | background db h =>
    cases hold : w.executor.db.getToolCall id with
    | none =>
      rw [h.absent id hold] at hcall
      cases hcall
    | some old =>
      obtain ⟨row, hrow, hmoved⟩ := h.moved id old hold
      obtain rfl : row = call := Option.some.inj (hrow.symm.trans hcall)
      cases hmoved with
      | kept same status result =>
        exact Or.inl ⟨old, rfl, status.symm.trans hstatus, same.toolName.symm, result.symm⟩
      | takenUp _ _ _ after =>
        rw [hstatus] at after
        rcases after with after | after <;> cases after
      | failed _ _ _ status =>
        rw [hstatus] at status
        cases status
  | executed request tool execution flight requested db _ h =>
    rw [Db.getToolCall, h.writes.get] at hcall
    split_ifs at hcall
    · cases hcall
      rw [h.isRequesting] at hstatus
      cases hstatus
    · exact Or.inl ⟨call, hcall, hstatus, rfl, rfl⟩
  | reconciled tool flight requested claim db _ h =>
    obtain ⟨now, hwrites⟩ := h.writes
    rw [Db.getToolCall, hwrites.get] at hcall
    split_ifs at hcall
    · cases hcall
      cases hstatus
    · exact Or.inl ⟨call, hcall, hstatus, rfl, rfl⟩
  | called => exact Or.inl ⟨call, hcall, hstatus, rfl, rfl⟩
  | lost => exact Or.inl ⟨call, hcall, hstatus, rfl, rfl⟩
  | persisted i flight answer result old db hi hresult h =>
    obtain ⟨now, hwrites⟩ := h.writes
    have hold : old.id = flight.context.toolCallId := Table.key_of_get h.found
    rw [Db.getToolCall, hwrites.get] at hcall
    split_ifs at hcall with hid
    · cases hcall
      refine Or.inr ⟨i, _, flight, answer, result, old, rfl, hi, hresult, ?_, ?_, rfl, h, rfl⟩
      · change result.status.toCall = .succeeded at hstatus
        revert hstatus
        cases result.status <;> decide
      · rw [hid, ← hold]
        rfl
    · exact Or.inl ⟨call, hcall, hstatus, rfl, rfl⟩

theorem replies_of_persisted {executor : ExecutorWorld} {i : ℕ} {now : Instant} {flight : Flight}
    {answer : AdapterAnswer} {result : ToolResult} {call : ToolCallRecord}
    (hnext : w.executor.next cfg.executor (.persist i now) = some executor)
    (hi : w.executor.answered[i]? = some (flight, answer))
    (hresult : adapterResult flight answer = .ok result) (hstatus : result.status = .succeeded)
    (hpersisted : Persisted w.executor.db executor.db flight result call) :
    (flight, result) ∈ replies w.executor (.persist i now) := by
  simp only [ExecutorWorld.next, hi, Option.map_some, Option.some.injEq] at hnext
  subst hnext
  simp only [ExecutorWorld.settle, hresult] at hpersisted
  simp only [replies, hi]
  have hrun : (adapterResult flight answer >>= fun result => persistResult flight result now
      w.executor.db.newObservationId w.executor.db) = persistResult flight result now
        w.executor.db.newObservationId w.executor.db := by rw [hresult]; rfl
  rw [hrun]
  cases hpersist : persistResult flight result now w.executor.db.newObservationId
    w.executor.db with
  | error e =>
    -- Nothing was written then, and the call was not over before.
    simp only [hpersist] at hpersisted
    obtain ⟨now, hwrites⟩ := hpersisted.writes
    have hid : call.id = flight.context.toolCallId := Table.key_of_get hpersisted.found
    have hsame : some call = some (call.updated (resultUpdate result now)) := by
      rw [← hpersisted.found, ← hid]
      exact hwrites.1
    have hlive := hpersisted.live
    rw [Option.some.inj hsame] at hlive
    change result.status.toCall.isTerminal = false at hlive
    rw [hstatus] at hlive
    cases hlive
  | ok reply =>
    obtain ⟨reply, db⟩ := reply
    rcases persistResult_cases hpersist with ⟨row, hrow, hover, -⟩ | ⟨row, rfl, -⟩
    · obtain rfl : row = call := Option.some.inj (hrow.symm.trans hpersisted.found)
      rw [hpersisted.live] at hover
      cases hover
    · exact List.mem_singleton.mpr rfl

theorem adapterResult_success {flight : Flight} {answer : AdapterAnswer} {result : ToolResult}
    (h : adapterResult flight answer = .ok result) (hstatus : result.status = .succeeded) :
    ∃ value, answer = .result value ∧ value.status = .succeeded ∧
      result.externalReference = value.externalReference := by
  cases hphase : flight.phase with
  | execute =>
    simp only [adapterResult, hphase, bind_eq_ok] at h
    obtain ⟨value, hvalue, hvalid⟩ := h
    have hsuccess : value.status = .succeeded := (validateResult_ok hvalid).1.symm.trans hstatus
    refine ⟨value, ?_, hsuccess, validateResult_reference hvalid⟩
    cases answer with
    | result value' =>
      cases hvalue
      rfl
    | timeout =>
      cases hvalue
      cases hsuccess
    | raised =>
      simp only [invokeAdapter] at hvalue
      split_ifs at hvalue <;> cases hvalue <;> cases hsuccess
    | malformed => cases hvalue
  | reconcile =>
    simp only [adapterResult, hphase, bind_eq_ok] at h
    obtain ⟨value, hvalue, hvalid⟩ := h
    have hsuccess : value.status = .succeeded := (validateResult_ok hvalid).1.symm.trans hstatus
    refine ⟨value, ?_, hsuccess, validateResult_reference hvalid⟩
    cases answer with
    | result value' =>
      cases hvalue
      rfl
    | timeout | raised =>
      cases hvalue
      cases hsuccess
    | malformed => cases hvalue

theorem taskReference_key {task task' : ExternalTask} {actionKey actionKey' : String}
    (h : taskReference task actionKey = taskReference task' actionKey') :
      actionKey = actionKey' := by
  simp only [taskReference, Json.obj.injEq, List.cons.injEq, Prod.mk.injEq, Json.str.injEq] at h
  exact h.2.2.2.1.2

/-- What an adapter's success says, where the candidate of the call is executed. -/
theorem settled_of_answer {flight : Flight} {result value : ToolResult}
    {request : TaskCreateInput} (hanswered : Answered cfg.tools flight value w.traced)
    (hrefers : Refers flight value (w.toldTo flight)) (hsuccess : value.status = .succeeded)
    (hsame : result.externalReference = value.externalReference)
    (hrequest : cfg.tools.createInput flight.context.arguments = some request)
    (hexecuted : Executed request.candidateId w.traced) : Settled cfg.tools w flight result := by
  obtain ⟨record, hrecord, hstatus⟩ := hexecuted
  obtain ⟨task, actionKey, hreference, htold, hfound⟩ := hrefers hsuccess
  refine ⟨request, record, task, actionKey, hrequest, hrecord, hstatus, hsame.trans hreference,
    htold, fun hphase => ?_, hfound⟩
  obtain ⟨request', hrequest', hdone⟩ := hanswered hsuccess
  obtain rfl : request = request' := Option.some.inj (hrequest.symm.trans hrequest')
  obtain ⟨-, other, key, hother, keyed, hkeyed, rfl⟩ := hdone hphase
  obtain rfl : record = keyed := Option.some.inj (hrecord.symm.trans hkeyed)
  exact taskReference_key (Option.some.inj (hreference.symm.trans hother))

/-- Where the workflow of a call marked its candidate, or answers itself, its candidate is
executed. -/
theorem settled_of_answered {i : ℕ} {flight : Flight} {answer : AdapterAnswer}
    {result : ToolResult} (h : w.Disciplined False cfg)
    (hi : w.executor.answered[i]? = some (flight, answer))
    (hresult : adapterResult flight answer = .ok result) (hcreate : IsCreate flight)
    (hstatus : result.status = .succeeded)
    (hmarked : flight.phase = .reconcile → MarkedExecuted cfg.tools w flight) :
    Settled cfg.tools w flight result := by
  obtain ⟨value, rfl, hsuccess, hsame⟩ := adapterResult_success hresult hstatus
  obtain ⟨hanswered, hrefers⟩ := h.answers flight value (List.mem_of_getElem? hi) hcreate
  obtain ⟨request, hrequest, hdone⟩ := hanswered hsuccess
  refine settled_of_answer hanswered hrefers hsuccess hsame hrequest ?_
  cases hphase : flight.phase with
  | execute => exact (hdone hphase).1
  | reconcile => exact h.marked _ _ (hmarked hphase request hrequest)

def Settles (cfg : TaskSystemConfig) (w : TaskWorld) : Prop :=
  w.Disciplined False cfg ∧ w.Accounted cfg

/-- A step of the executor in which a reconciliation succeeds only for a candidate that its
workflow marked accounts for every success. -/
theorem Settles.executor {executor : ExecutorWorld} {action : ExecutorAction}
    {running : List (Option (TaskProgram ToolResult))} (h : w.Settles cfg)
    (hreconciles : w.ReconcilesMarked cfg (.executor action))
    (hnext : w.executor.next cfg.executor action = some executor) :
    ({ w with executor, running, replied := w.replied ++ replies w.executor action } :
      TaskWorld).Accounted cfg := by
  intro id call hcall hname hstatus
  have hstepped := ExecutorWorld.stepped_of_next hnext
  rcases succeeded_of_stepped hstepped hcall hstatus with
    ⟨old, hold, hbefore, hsame, hresult⟩ |
    ⟨i, now, flight, answer, result, old, rfl, hi, hadapter, hsuccess, hid, hresult, hpersisted,
      hsame⟩
  · obtain ⟨flight, result, hmem, hid, hstored, hsettled⟩ :=
      h.2 id old hold (hsame.trans hname) hbefore
    exact ⟨flight, result, List.mem_append_left _ hmem, hid, hresult.symm.trans hstored, hsettled⟩
  · have hreply := replies_of_persisted hnext hi hadapter hsuccess hpersisted
    refine ⟨flight, result, List.mem_append_right _ hreply, hid, hresult, ?_⟩
    -- The call is one of this adapter, which answered with the success that was validated.
    have hflight : flight ∈ w.executor.underWay :=
      List.mem_append_right _ (List.mem_map_of_mem (List.mem_of_getElem? hi))
    obtain ⟨row, hrow, -, -, htool⟩ := (h.1.known.flights flight hflight).call
    obtain rfl : row = old := Option.some.inj (hrow.symm.trans hpersisted.found)
    have hcreate : IsCreate flight := by
      rw [IsCreate, cfg.executor.registry.name_eq htool.1, hsame]
      exact hname
    have hsettled : Settled cfg.tools w flight result :=
      settled_of_answered h.1 hi hadapter hcreate hsuccess fun hphase =>
        hreconciles (flight, answer) hi hcreate hphase
          ⟨result, toOption_eq_some.mpr hadapter, hsuccess⟩
    exact hsettled

theorem Settles.step (h : w.Settles cfg)
    (hstep : Under (ReconcilesMarked cfg) (Steps cfg) w a w') : w'.Settles cfg := by
  obtain ⟨hreconciles, hstep⟩ : w.ReconcilesMarked cfg a ∧ w.next cfg a = some w' := hstep
  obtain ⟨hlater, hproceeds⟩ := h.1.step False.elim hstep
  refine ⟨hlater, ?_⟩
  cases a with
  | delta | conclude =>
    cases hstep
    exact h.2.of_proceeds hproceeds rfl rfl (List.Subset.refl _)
  | executor action =>
    simp only [next] at hstep
    split_ifs at hstep
    obtain ⟨executor, hnext, rfl⟩ := Option.map_eq_some_iff.mp hstep
    exact h.executor hreconciles hnext
  | begin i =>
    simp only [next] at hstep
    split at hstep
    · split_ifs at hstep
      cases hstep
      exact h.2.of_proceeds hproceeds rfl rfl (List.Subset.refl _)
    · cases hstep
  | command i choice =>
    simp only [next] at hstep
    split at hstep
    · obtain ⟨step, -, rfl⟩ := Option.map_eq_some_iff.mp hstep
      exact h.2.of_proceeds hproceeds rfl rfl (List.subset_append_right _ _)
    · cases hstep
  | answer i =>
    simp only [next] at hstep
    split at hstep
    · obtain ⟨answer, -, hstep⟩ := Option.bind_eq_some_iff.mp hstep
      obtain ⟨executor, hnext, rfl⟩ := Option.map_eq_some_iff.mp hstep
      have hcalled : ({ w with
          executor, running := w.running.eraseIdx i,
          replied := w.replied ++ replies w.executor (.callAdapter i answer) } :
          TaskWorld).Accounted cfg := h.executor trivial hnext
      simpa only [replies, List.append_nil] using hcalled
    · cases hstep

theorem Initial.settles (h : u.Initial) : u.Settles cfg := by
  refine ⟨h.disciplined, fun id call hcall => ?_⟩
  rw [h.executor.no_calls] at hcall
  cases hcall

/-- Where a reconciliation succeeds only after the workflow of its call had marked the candidate,
every call that succeeded refers to a task that the tracker gave it, and its candidate is executed.
-/
theorem creations_executed {ls : List TaskAction} (hstart : u.Initial)
    (hrun : Run (Under (ReconcilesMarked cfg) (Steps cfg)) u ls w) : w.Accounted cfg :=
  (hrun.invariant (fun _ _ _ hi hs => hi.step hs) hstart.settles).2

/-- The workflow marks the candidate executed, its answer is lost to the timeout, and what it did
is found later. -/
def createdTrace : List TaskAction :=
  sendTrace ++ sentTrace ++ [.executor (.callAdapter 0 .timeout), .executor (.persist 0 2),
    .executor (.reconcile 1 [] 3), .begin 0, .command 0 .commit,
    .command 0 (.answer (.tasks [sentTask])), .command 0 (.answer (.task sentTask)), .answer 0,
    .executor (.persist 0 4)]

def createdWorld : TaskWorld :=
  (follow (guarded (ReconcilesMarked plainSystem) (next plainSystem)) createdTrace
    sendStart).get (by decide)

theorem createdWorld_accounted :
    Run (Under (ReconcilesMarked plainSystem) (Steps plainSystem)) sendStart createdTrace
        createdWorld ∧
      (∃ call, createdWorld.executor.db.getToolCall 1 = some call ∧ call.status = .succeeded) ∧
      createdWorld.Accounted plainSystem := by
  have hrun : Run (Under (ReconcilesMarked plainSystem) (Steps plainSystem)) sendStart
      createdTrace createdWorld :=
    run_under_to_get (ReconcilesMarked plainSystem) (next plainSystem) createdTrace _ _
  exact ⟨hrun, ⟨_, (Option.some_get (by decide)).symm, by decide⟩,
    creations_executed sendStart_initial hrun⟩

/-- The call runs out of time while its task is created, and the task is found later. -/
def reconciledTrace : List TaskAction :=
  sendTrace ++ [.executor (.callAdapter 0 .timeout), .executor (.persist 0 2),
    .executor (.reconcile 1 [] 3), .begin 0, .command 0 .commit,
    .command 0 (.answer (.tasks [sentTask])), .command 0 (.answer (.task sentTask)), .answer 0,
    .executor (.persist 0 4)]

def reconciledWorld : TaskWorld :=
  (follow (next plainSystem) reconciledTrace sendStart).get (by decide)

/-- The reconciliation succeeds, and its candidate goes on executing. -/
theorem not_every_creation_executed :
    ¬ ∀ (cfg : TaskSystemConfig) (u w : TaskWorld) (ls : List TaskAction), u.Initial →
      Run (Steps cfg) u ls w → w.Accounted cfg := by
  intro hall
  have haccounted := hall plainSystem sendStart reconciledWorld reconciledTrace sendStart_initial
    (run_to_get (next plainSystem) reconciledTrace _ _)
  have hsucceeded : ∃ call ∈ reconciledWorld.executor.db.getToolCall 1,
      call.toolName = "task.create" ∧ call.status = .succeeded := by decide
  have hexecuting : ∀ record ∈ reconciledWorld.traced.state.candidates.get "csend",
      record.executionStatus = .executing := by decide
  obtain ⟨call, hcall, hname, hstatus⟩ := hsucceeded
  obtain ⟨flight, result, -, -, -, request, record, -, -, hrequest, hrecord, hexecuted, -⟩ :=
    haccounted 1 call hcall hname hstatus
  cases hrequest
  rw [hexecuting record hrecord] at hexecuted
  cases hexecuted

end TaskWorld

end TaskSystem
end Matinier
