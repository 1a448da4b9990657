import Matinier.Plugins.SingleExecution

/-!
# Runs of the broker

Every handler was run for a call that was authorized in the step that reserved it. In runs whose
handlers return, no key is run for twice, and what was stored under a key answers every later
call of it.
-/

namespace Matinier
namespace Plugins

open Assistant

variable {registry : CapabilityRegistry} {w w' w₀ : BrokerWorld} {a : BrokerAction}
  {actions later : List BrokerAction} {e : Execution}

/-- The step authorized and reserved the execution. -/
def BrokerAction.Reserves (registry : CapabilityRegistry) (a : BrokerAction) (db : BrokerDb)
    (e : Execution) : Prop :=
  match a with
  | .invoke c call env _ | .beginModel c call env => ∃ record db',
      beginInvocation registry c call env db = .ok (.reserved record e, db')
  | _ => False

/-- One step of the run reserved the execution, and what was stored then allowed it. -/
def ReservedDuring (registry : CapabilityRegistry) (w : BrokerWorld) (actions : List BrokerAction)
    (w' : BrokerWorld) (e : Execution) : Prop :=
  ∃ before a after m, actions = before ++ a :: after ∧ Run (BrokerSteps registry) w before m ∧
    Run (BrokerSteps registry) m (a :: after) w' ∧ a.Reserves registry m.db e ∧
    e.AuthorizedIn m.db

theorem BrokerAction.Reserves.authorized {db : BrokerDb} (h : a.Reserves registry db e) :
    e.AuthorizedIn db := by
  cases a with
  | invoke c call env run =>
    obtain ⟨record, db', h⟩ := h
    exact (begin_reserved h).authorized
  | beginModel c call env =>
    obtain ⟨record, db', h⟩ := h
    exact (begin_reserved h).authorized
  | startModel i | settleModel i run | dropModel i | authority a | uninstall pluginId =>
    exact h.elim

namespace BrokerWorld

/-- The handlers that were run, and those of the model's calls that wait. -/
def planned (w : BrokerWorld) : List Execution :=
  w.executions ++ w.modelCalls.map ModelCall.execution

theorem mem_planned : e ∈ w.planned ↔
    e ∈ w.executions ∨ ∃ call ∈ w.modelCalls, call.execution = e := by
  simp [planned]

theorem planned_next (h : w.next registry a = some w') (he : e ∈ w'.planned) :
    e ∈ w.planned ∨ a.Reserves registry w.db e := by
  rw [mem_planned] at he ⊢
  cases a with
  | invoke c call env run =>
    simp only [next] at h
    split_ifs at h
    cases h
    rcases he with he | he
    · rcases List.mem_append.mp he with he | he
      · exact Or.inl (Or.inl he)
      · exact Or.inr (hostInvoke_executed (Option.mem_toList.mp he))
    · exact Or.inl (Or.inr he)
  | beginModel c call env =>
    simp only [next] at h
    split_ifs at h
    cases h
    unfold beginModel at he
    split at he
    · exact Or.inl he
    · split at he
      · exact Or.inl he
      · exact Or.inl he
    · rename_i record execution reserved hbegin
      rcases he with he | ⟨waiting, hwaiting, rfl⟩
      · exact Or.inl (Or.inl he)
      · rcases List.mem_append.mp hwaiting with hwaiting | hwaiting
        · exact Or.inl (Or.inr ⟨waiting, hwaiting, rfl⟩)
        · obtain rfl := List.mem_singleton.mp hwaiting
          exact Or.inr ⟨record, reserved, hbegin⟩
  | startModel i =>
    simp only [next, Option.bind_eq_bind, Option.bind_eq_some_iff] at h
    obtain ⟨call, hcall, h⟩ := h
    have hmem := List.mem_of_getElem? hcall
    split_ifs at h
    cases h
    rcases he with he | ⟨waiting, hwaiting, rfl⟩
    · rcases List.mem_append.mp he with he | he
      · exact Or.inl (Or.inl he)
      · exact Or.inl (Or.inr ⟨call, hmem, (List.mem_singleton.mp he).symm⟩)
    · rcases List.mem_or_eq_of_mem_set hwaiting with hwaiting | rfl
      · exact Or.inl (Or.inr ⟨waiting, hwaiting, rfl⟩)
      · exact Or.inl (Or.inr ⟨call, hmem, rfl⟩)
  | settleModel i run =>
    simp only [next, Option.bind_eq_bind, Option.bind_eq_some_iff] at h
    obtain ⟨call, hcall, h⟩ := h
    split_ifs at h
    cases h
    exact Or.inl (he.imp_right fun ⟨waiting, hwaiting, heq⟩ =>
      ⟨waiting, List.mem_of_mem_eraseIdx hwaiting, heq⟩)
  | dropModel i =>
    cases h
    exact Or.inl (he.imp_right fun ⟨waiting, hwaiting, heq⟩ =>
      ⟨waiting, List.mem_of_mem_eraseIdx hwaiting, heq⟩)
  | authority a =>
    cases h
    exact Or.inl he
  | uninstall pluginId =>
    cases h
    exact Or.inl (he.imp List.mem_of_mem_filter fun ⟨waiting, hwaiting, heq⟩ =>
      ⟨waiting, List.mem_of_mem_filter hwaiting, heq⟩)

/-- What is planned at the end of a run was planned before it, or reserved by one of its steps. -/
theorem planned_run (h : Run (BrokerSteps registry) w actions w') (he : e ∈ w'.planned) :
    e ∈ w.planned ∨ ReservedDuring registry w actions w' e := by
  induction h with
  | done w => exact Or.inl he
  | @more w m w' a after hstep hrest ih =>
    rcases ih he with hplanned | ⟨before, b, rest, n, rfl, hbefore, hafter, hreserves, hauthorized⟩
    · rcases planned_next hstep hplanned with hplanned | hreserves
      · exact Or.inl hplanned
      · exact Or.inr ⟨[], a, after, w, rfl, .done w, .more hstep hrest, hreserves,
          hreserves.authorized⟩
    · exact Or.inr ⟨a :: before, b, rest, n, rfl, .more hstep hbefore, hafter, hreserves,
        hauthorized⟩

/-- A call whose key has a record is answered in one step, whatever its capability. -/
theorem beginModel_recorded {c : BrokerConnection} {call : CapabilityCall} {env : Surroundings}
    {existing : InvocationRecord}
    (hget : w.db.invocations.get (c.pluginId, call.effectiveKey env) = some existing)
    (run : HandlerRun) :
    w.beginModel registry c call env =
      { w with db := (hostInvoke registry c call env run w.db).db } := by
  unfold beginModel hostInvoke
  cases hbegin : beginInvocation registry c call env w.db with
  | error fault => rfl
  | ok begun =>
    obtain ⟨begun, found⟩ := begun
    cases begun with
    | existing record =>
      simp only
      cases resumeExisting registry call.capability record env found with
      | error fault => rfl
      | ok resumed => rfl
    | reserved record execution =>
      have hreserved := begin_reserved hbegin
      have hnone := hreserved.free
      rw [hreserved.key, hget] at hnone
      cases hnone

/-- A step whose handler returns leaves the world sound, and keeps the records of the plugins that
stay installed. -/
theorem Sound.next (h : w.Sound) (hreturns : a.Returns) (hnext : w.next registry a = some w') :
    w'.Sound ∧ (KeepsRecords w.db w'.db ∨ ∃ pluginId, a = .uninstall pluginId) := by
  cases a with
  | invoke c call env run =>
    simp only [BrokerWorld.next] at hnext
    split_ifs at hnext
    cases hnext
    have hrun : run.handled = true → ∃ result, run = .returned result := by
      cases run with
      | refused fault => exact fun h => by cases h
      | returned result => exact fun _ => ⟨result, rfl⟩
      | raised fault => exact hreturns.elim
      | outcomeUnknown => exact hreturns.elim
      | lost => exact hreturns.elim
    have hcommitted : Committed w.db (hostInvoke registry c call env run w.db).db
        (hostInvoke registry c call env run w.db).executed := hostInvoke_committed hrun
    exact ⟨h.committed hcommitted, Or.inl hcommitted.keeps⟩
  | beginModel c call env =>
    simp only [BrokerWorld.next] at hnext
    split_ifs at hnext
    cases hnext
    unfold beginModel
    split
    · exact ⟨h, Or.inl (.refl _)⟩
    · rename_i record found hbegin
      obtain ⟨rfl, hrecord, -⟩ := begin_existing hbegin
      have hget := Table.get_of_mem (Table.mem_of_get hrecord)
      split
      · exact ⟨h, Or.inl (.refl _)⟩
      · rename_i result resumed hresume
        have hcommitted := resume_committed hget hresume
        exact ⟨by simpa using h.committed hcommitted, Or.inl hcommitted.keeps⟩
    · rename_i record execution reserved hbegin
      have hreserved := begin_reserved hbegin
      exact ⟨h.reserved hreserved, Or.inl hreserved.keeps⟩
  | startModel i =>
    simp only [BrokerWorld.next, Option.bind_eq_bind, Option.bind_eq_some_iff] at hnext
    obtain ⟨call, hcall, hnext⟩ := hnext
    split_ifs at hnext with hstarted
    cases hnext
    exact ⟨h.started hcall (by simpa using hstarted), Or.inl (.refl _)⟩
  | settleModel i run =>
    simp only [BrokerWorld.next, Option.bind_eq_bind, Option.bind_eq_some_iff] at hnext
    obtain ⟨call, hcall, hnext⟩ := hnext
    split_ifs at hnext
    cases hnext
    obtain ⟨hsettled, hkept⟩ := h.settled hcall run
    exact ⟨hsettled, Or.inl hkept⟩
  | dropModel i =>
    cases hnext
    exact ⟨h.dropped i, Or.inl (.refl _)⟩
  | authority a =>
    cases hnext
    exact ⟨⟨h.once, h.recorded, fun call hcall =>
      let ⟨hstored, hpending, hknown, hexecution, hfresh⟩ := h.waiting call hcall
      ⟨hstored, hpending, hknown, hexecution, hfresh⟩, h.different⟩,
      Or.inl ⟨fun _ h => h, fun _ _ _ h _ => h⟩⟩
  | uninstall pluginId =>
    cases hnext
    exact ⟨h.uninstalled pluginId, Or.inr ⟨pluginId, rfl⟩⟩

structure Initial (w : BrokerWorld) : Prop where
  invocations : w.db.invocations = .empty
  modelCalls : w.modelCalls = []
  executions : w.executions = []

theorem Initial.sound (h : w.Initial) : w.Sound := by
  obtain ⟨-, hcalls, hexecutions⟩ := h
  refine ⟨?_, ?_, ?_, ?_⟩ <;> simp [hcalls, hexecutions]

theorem results_kept {call : String × InvocationKey} {record : InvocationRecord} {result : Json}
    (h : Run (Under (fun _ a => a.Returns) (BrokerSteps registry)) w later w') (hsound : w.Sound)
    (hget : w.db.invocations.get call = some record) (hcompleted : record.Completed result)
    (hinstalled : .uninstall call.1 ∉ later) : w'.db.invocations.get call = some record := by
  induction h with
  | done w => exact hget
  | more hstep _ ih =>
    obtain ⟨hreturns, hnext⟩ := hstep
    obtain ⟨hfirst, hrest⟩ := not_or.mp (mt List.mem_cons.mpr hinstalled)
    obtain ⟨hsound', hkept⟩ := hsound.next hreturns hnext
    refine ih hsound' ?_ hrest
    rcases hkept with hkept | ⟨pluginId, rfl⟩
    · exact hkept.results call record result hget hcompleted
    · have hother : call.1 ≠ pluginId := fun heq => hfirst (heq ▸ rfl)
      cases hnext
      exact (get_deletePlugin _ pluginId call).trans ((if_neg hother).trans hget)

end BrokerWorld

/-- How a call is answered whose key has a record: no handler is run for it, whatever it would
do; another request is refused; the same one gets the stored result, and one whose outcome is
unknown what reconciliation finds. -/
structure Answered (registry : CapabilityRegistry) (w : BrokerWorld) (c : BrokerConnection)
    (call : CapabilityCall) (env : Surroundings) (record : InvocationRecord) : Prop where
  model : ∀ run, w.beginModel registry c call env =
    { w with db := (hostInvoke registry c call env run w.db).db }
  unexecuted : ∀ run, (hostInvoke registry c call env run w.db).executed = none
  same : ∀ run result, (hostInvoke registry c call env run w.db).result = .ok result →
    ∃ checked, checkCall registry c call env = .ok checked ∧ record.Same checked.record
  answer : ∀ run result, (hostInvoke registry c call env run w.db).result = .ok result →
    record.Completed result ∨ record.outcomeUnknown = true ∧ env.reconciled = .ok result
  replay : ∀ run checked result, checkCall registry c call env = .ok checked →
    record.Same checked.record → c.principal ∈ w.db.packages → record.Completed result →
    (hostInvoke registry c call env run w.db).result = .ok result

/-- What holds of a broker, after the run that led to it and in every one that goes on. -/
structure SinglyExecuted (registry : CapabilityRegistry) (w₀ : BrokerWorld)
    (actions : List BrokerAction) (w : BrokerWorld) : Prop where
  once : w.executions.Pairwise fun e e' => e.call ≠ e'.call
  recorded : ∀ e ∈ w.executions, (w.db.invocations.get e.call).isSome = true
  authorized : ∀ e ∈ w.executions, ReservedDuring registry w₀ actions w e
  answered : ∀ c call env record,
    w.db.invocations.get (c.pluginId, call.effectiveKey env) = some record →
    Answered registry w c call env record
  kept : ∀ call record result later w',
    w.db.invocations.get call = some record → record.Completed result →
    Run (Under (fun _ a => a.Returns) (BrokerSteps registry)) w later w' →
    .uninstall call.1 ∉ later → w'.db.invocations.get call = some record

theorem answered_of_record {c : BrokerConnection} {call : CapabilityCall} {env : Surroundings}
    {record : InvocationRecord}
    (h : w.db.invocations.get (c.pluginId, call.effectiveKey env) = some record) :
    Answered registry w c call env record where
  model := BrokerWorld.beginModel_recorded h
  unexecuted _ := (hostInvoke_recorded h).1
  same _ result hresult := ((hostInvoke_recorded h).2 result hresult).1
  answer _ result hresult := ((hostInvoke_recorded h).2 result hresult).2
  replay _ _ _ hchecked hsame hpackage hcompleted :=
    hostInvoke_again hchecked hpackage h hsame hcompleted

/-- In every run in which only the model's calls end with their handler not returned, every
handler was authorized and is run once for its key, which answers for it from then on. -/
theorem executed_once (hinitial : w₀.Initial)
    (h : Run (Under (fun _ a => a.Returns) (BrokerSteps registry)) w₀ actions w) :
    SinglyExecuted registry w₀ actions w := by
  have hsound : w.Sound :=
    h.invariant (fun _ _ _ hsound hstep => (hsound.next hstep.1 hstep.2).1) hinitial.sound
  refine ⟨hsound.once, hsound.recorded, fun e he => ?_, fun _ _ _ _ hget =>
    answered_of_record hget, fun _ _ _ _ _ hget hcompleted hlater =>
      BrokerWorld.results_kept hlater hsound hget hcompleted⟩
  have hplanned : e ∈ w.planned := BrokerWorld.mem_planned.mpr (Or.inl he)
  refine (BrokerWorld.planned_run h.forget hplanned).resolve_left fun hbefore => ?_
  simp [BrokerWorld.planned, hinitial.executions, hinitial.modelCalls] at hbefore

def smallRegistry : CapabilityRegistry
  | "network.fetch" => some {
      effect := .network, supportsIdempotency := false, hasReconciler := false
      validate := fun _ => .ok ⟨.networkFetch "example.com" "POST", "POST example.com"⟩ }
  | "model.invoke" => some {
      effect := .read, supportsIdempotency := false, hasReconciler := false
      validate := fun _ => .ok ⟨.modelInvoke "notes", "notes"⟩ }
  | _ => none

def fetchGrant : PluginGrant where
  grantId := 0
  pluginId := "p"
  pluginVersion := "1"
  mediaSessionId := none
  capability := "network.fetch"
  effect := .network
  scope := .obj [("destinations", .arr [.str "example.com"]), ("methods", .arr [.str "POST"])]
  expiresAt := 10

def installedWorld : BrokerWorld where
  db := {
    packages := [⟨"p", "1"⟩]
    permissions := [(⟨"p", "1"⟩, "network.fetch"), (⟨"p", "1"⟩, modelCapability)]
    grants := [fetchGrant] }

theorem installedWorld_initial : installedWorld.Initial := ⟨rfl, rfl, rfl⟩

def smallConnection : BrokerConnection := ⟨"p", "1", []⟩

def fetchCall : CapabilityCall :=
  { capability := "network.fetch", params := .obj [], idempotencyKey := some "k" }

def modelCall : CapabilityCall := { capability := modelCapability, params := .obj [] }

def fetchedTrace : List BrokerAction :=
  [.invoke smallConnection fetchCall {} (.returned .null),
    .beginModel smallConnection modelCall {}, .startModel 0,
    .invoke smallConnection fetchCall {} (.returned (.str "again")),
    .settleModel 0 (.raised (.value "late"))]

def fetchedWorld : BrokerWorld :=
  (follow (guarded (fun _ a => a.Returns) (BrokerWorld.next smallRegistry)) fetchedTrace
    installedWorld).get (by decide +kernel)

theorem fetchedWorld_executed_once :
    SinglyExecuted smallRegistry installedWorld fetchedTrace fetchedWorld :=
  executed_once installedWorld_initial
    (run_under_to_get (fun _ a => a.Returns) _ fetchedTrace _ (by decide +kernel))

def refetchedTrace : List BrokerAction :=
  [.invoke smallConnection fetchCall {} .outcomeUnknown,
    .invoke smallConnection fetchCall {} (.returned .null)]

def refetchedWorld : BrokerWorld :=
  (follow (BrokerWorld.next smallRegistry) refetchedTrace installedWorld).get (by decide +kernel)

/-- The record of the first fetch is rolled back, so the handler runs again. -/
theorem refetchedWorld_executed_twice : installedWorld.Initial ∧
    Run (BrokerSteps smallRegistry) installedWorld refetchedTrace refetchedWorld ∧
    refetchedWorld.executions.map Execution.call = [("p", .given "k"), ("p", .given "k")] ∧
    ¬ SinglyExecuted smallRegistry installedWorld refetchedTrace refetchedWorld := by
  have htwice : refetchedWorld.executions.map Execution.call =
      [("p", .given "k"), ("p", .given "k")] := by decide +kernel
  refine ⟨installedWorld_initial, run_to_get _ refetchedTrace _ (by decide +kernel), htwice,
    fun h => ?_⟩
  have honce := List.pairwise_map.mpr h.once
  rw [htwice] at honce
  simp at honce

end Plugins
end Matinier
