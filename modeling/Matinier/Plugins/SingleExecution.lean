import Matinier.Plugins.Broker

/-!
# One execution for each key

What has a record is answered from it, and its handler is not run again. While no handler of a
call other than the model's fails, every run of a handler leaves its record behind: so each
plugin and key has one run at most, each was authorized, and a stored result stays.
-/

namespace Matinier
namespace Plugins

open Assistant

/-- Two records are of the same call. -/
structure InvocationRecord.Same (existing record : InvocationRecord) : Prop where
  request : existing.request = record.request
  pluginVersion : existing.pluginVersion = record.pluginVersion
  mediaSessionId : existing.mediaSessionId = record.mediaSessionId
  capability : existing.capability = record.capability
  effect : existing.effect = record.effect

def InvocationRecord.Completed (record : InvocationRecord) (result : Json) : Prop :=
  record.status = .completed ∧ record.result = some result

/-- What was stored then allowed the execution. -/
def Execution.AuthorizedIn (e : Execution) (db : BrokerDb) : Prop :=
  Authorized e.request (db.listBasePermissions e.request.principal)
    (db.listCapabilityGrants e.request.principal e.request.capability) e.now

section Transactions

variable {registry : CapabilityRegistry} {c : BrokerConnection} {call : CapabilityCall}
  {env : Surroundings} {run : HandlerRun} {db db' : BrokerDb} {record existing : InvocationRecord}
  {checked : CheckedCall} {execution : Execution} {result : Json}

theorem checkCall_record (h : checkCall registry c call env = .ok checked) :
    Row.key checked.record = (c.pluginId, call.effectiveKey env) ∧
      checked.record.pluginVersion = c.pluginVersion ∧ checked.record.status = .pending ∧
      checked.record.outcomeUnknown = false := by
  unfold checkCall at h
  simp only [bind_eq_ok, pure_eq_ok] at h
  obtain ⟨_, -, _, -, _, -, _, -, _, -, _, -, _, -, _, -, rfl⟩ := h
  exact ⟨rfl, rfl, rfl, rfl⟩

theorem createCapabilityInvocation_existing
    (hget : db.invocations.get (Row.key record) = some existing) {created : InvocationRecord}
    (h : db.createCapabilityInvocation record = .ok (created, db')) :
    created = existing ∧ db' = db ∧ existing.Same record := by
  unfold BrokerDb.createCapabilityInvocation at h
  simp only [hget, bind_eq_ok, ensure_eq_ok, pure_eq_ok, Prod.mk.injEq] at h
  obtain ⟨_, -, _, hrequest, _, ⟨hversion, hsession, hcapability, heffect⟩, rfl, rfl⟩ := h
  exact ⟨rfl, rfl, hrequest, hversion, hsession, hcapability, heffect⟩

theorem createCapabilityInvocation_new (hget : db.invocations.get (Row.key record) = none)
    {created : InvocationRecord} (h : db.createCapabilityInvocation record = .ok (created, db')) :
    created = record ∧ ∃ invocations, Table.Writes db.invocations invocations record ∧
      db' = { db with invocations := invocations } := by
  unfold BrokerDb.createCapabilityInvocation at h
  simp only [hget, bind_eq_ok, require_eq_ok, pure_eq_ok, Prod.mk.injEq] at h
  obtain ⟨_, -, invocations, hinsert, rfl, rfl⟩ := h
  exact ⟨rfl, invocations, .of_insert hinsert, rfl⟩

theorem begin_existing
    (h : beginInvocation registry c call env db = .ok (.existing existing, db')) :
    db' = db ∧ db.invocations.get (c.pluginId, call.effectiveKey env) = some existing ∧
      ∃ checked, checkCall registry c call env = .ok checked ∧ existing.Same checked.record := by
  unfold beginInvocation at h
  simp only [bind_eq_ok] at h
  obtain ⟨checked, hchecked, h⟩ := h
  have hkey := (checkCall_record hchecked).1
  split at h
  · rename_i row hget
    simp only [bind_eq_ok, Prod.exists, pure_eq_ok, Prod.mk.injEq, Begun.existing.injEq] at h
    obtain ⟨created, created', hcreate, rfl, rfl⟩ := h
    obtain ⟨rfl, rfl, hsame⟩ := createCapabilityInvocation_existing hget hcreate
    exact ⟨rfl, hkey ▸ hget, checked, hchecked, hsame⟩
  · simp only [bind_eq_ok, pure_eq_ok, Prod.mk.injEq, reduceCtorEq, false_and, and_false,
      exists_false] at h

/-- What a reservation does: a pending record under a new key, for an authorized execution. -/
structure Reserved (c : BrokerConnection) (call : CapabilityCall) (env : Surroundings)
    (db db' : BrokerDb) (record : InvocationRecord) (execution : Execution) : Prop where
  free : db.invocations.get (Row.key record) = none
  key : Row.key record = (c.pluginId, call.effectiveKey env)
  pending : record.status = .pending
  known : record.outcomeUnknown = false
  writes : Table.Writes db.invocations db'.invocations record
  call : execution.call = Row.key record
  authorized : execution.AuthorizedIn db

theorem begin_reserved
    (h : beginInvocation registry c call env db = .ok (.reserved record execution, db')) :
    Reserved c call env db db' record execution := by
  unfold beginInvocation at h
  simp only [bind_eq_ok] at h
  obtain ⟨checked, hchecked, h⟩ := h
  obtain ⟨hkey, hversion, hpending, hknown⟩ := checkCall_record hchecked
  split at h
  · simp only [bind_eq_ok, pure_eq_ok, Prod.mk.injEq, reduceCtorEq, false_and, and_false,
      exists_false] at h
  · rename_i hget
    simp only [bind_eq_ok, Prod.exists, pure_eq_ok, Prod.mk.injEq, Begun.reserved.injEq] at h
    obtain ⟨_, -, decision, hdecision, created, created', hcreate, ⟨rfl, rfl⟩, rfl⟩ := h
    obtain ⟨rfl, invocations, hwrites, rfl⟩ := createCapabilityInvocation_new hget hcreate
    have hplugin : checked.record.pluginId = c.pluginId := congrArg Prod.fst hkey
    exact ⟨hget, hkey, hpending, hknown, hwrites, Prod.ext hplugin.symm rfl,
      authorized_of_authorize hdecision⟩

/-- What is answered from a record: its result, or what was found to have happened. -/
theorem resumeExisting_cases {capability : String}
    (h : resumeExisting registry capability record env db = .ok (result, db')) :
    record.Completed result ∧ db' = db ∨
      record.outcomeUnknown = true ∧ (¬ ∃ result, record.Completed result) ∧
        env.reconciled = .ok result ∧ db' = db.completeCapabilityInvocation record result := by
  unfold resumeExisting at h
  split at h
  · rename_i stored hstatus hresult
    obtain ⟨rfl, rfl⟩ := Prod.mk.inj (pure_eq_ok.mp h)
    exact Or.inl ⟨⟨hstatus, hresult⟩, rfl⟩
  · rename_i hnot
    simp only [bind_eq_ok, ensure_eq_ok, pure_eq_ok, Prod.mk.injEq] at h
    obtain ⟨_, hunknown, binding, -, _, -, reconciled, hreconciled, rfl, rfl⟩ := h
    refine Or.inr ⟨hunknown, ?_, hreconciled, rfl⟩
    rintro ⟨stored, hstatus, hresult⟩
    exact hnot stored hstatus hresult

theorem resumeExisting_completed {capability : String} (h : record.Completed result) :
    resumeExisting registry capability record env db = .ok (result, db) := by
  obtain ⟨hstatus, hresult⟩ := h
  simp only [resumeExisting, hstatus, hresult]
  rfl

/-- A call that has a record runs no handler, and returns only as a call of that record: its
result, or what reconciliation of an unknown outcome found. -/
theorem hostInvoke_recorded
    (hget : db.invocations.get (c.pluginId, call.effectiveKey env) = some existing) :
    (hostInvoke registry c call env run db).executed = none ∧
      ∀ result, (hostInvoke registry c call env run db).result = .ok result →
        (∃ checked, checkCall registry c call env = .ok checked ∧
          existing.Same checked.record) ∧
        (existing.Completed result ∨
          existing.outcomeUnknown = true ∧ env.reconciled = .ok result) := by
  cases hbegin : beginInvocation registry c call env db with
  | error fault =>
    simp only [hostInvoke, hbegin]
    exact ⟨trivial, fun result h => by cases h⟩
  | ok begun =>
    obtain ⟨begun, found⟩ := begun
    cases begun with
    | existing record =>
      obtain ⟨rfl, hrecord, hchecked⟩ := begin_existing hbegin
      obtain rfl : existing = record := Option.some.inj (hget.symm.trans hrecord)
      cases hresume : resumeExisting registry call.capability existing env found with
      | error fault =>
        simp only [hostInvoke, hbegin, hresume]
        exact ⟨trivial, fun result h => by cases h⟩
      | ok resumed =>
        obtain ⟨stored, resumed⟩ := resumed
        simp only [hostInvoke, hbegin, hresume]
        refine ⟨trivial, fun result h => ?_⟩
        cases h
        refine ⟨hchecked, ?_⟩
        rcases resumeExisting_cases hresume with ⟨hcompleted, -⟩ | ⟨hunknown, -, hreconciled, -⟩
        · exact Or.inl hcompleted
        · exact Or.inr ⟨hunknown, hreconciled⟩
    | reserved record execution =>
      have hreserved := begin_reserved hbegin
      have hnone := hreserved.free
      rw [hreserved.key, hget] at hnone
      cases hnone

theorem hostInvoke_executed
    (h : (hostInvoke registry c call env run db).executed = some execution) : ∃ record db',
      beginInvocation registry c call env db = .ok (.reserved record execution, db') := by
  cases hbegin : beginInvocation registry c call env db with
  | error fault =>
    simp only [hostInvoke, hbegin] at h
    cases h
  | ok begun =>
    obtain ⟨begun, found⟩ := begun
    cases begun with
    | existing record =>
      simp only [hostInvoke, hbegin] at h
      split at h <;> cases h
    | reserved record reserved =>
      simp only [hostInvoke, hbegin] at h
      refine ⟨record, found, ?_⟩
      have hexecution : (if run.handled then some reserved else none) = some execution := by
        split at h <;> exact h
      split_ifs at hexecution
      rw [Option.some.inj hexecution]

theorem hostInvoke_again (hchecked : checkCall registry c call env = .ok checked)
    (hpackage : c.principal ∈ db.packages)
    (hget : db.invocations.get (c.pluginId, call.effectiveKey env) = some existing)
    (hsame : existing.Same checked.record) (hcompleted : existing.Completed result) :
    (hostInvoke registry c call env run db).result = .ok result := by
  obtain ⟨hkey, hversion, -, -⟩ := checkCall_record hchecked
  have hrow : db.invocations.get (Row.key checked.record) = some existing := hkey.symm ▸ hget
  have hrequired : db.requirePackage ⟨checked.record.pluginId, checked.record.pluginVersion⟩ =
      .ok () := by
    have hplugin : checked.record.pluginId = c.pluginId := congrArg Prod.fst hkey
    rw [hplugin, hversion]
    exact ensure_eq_ok.mpr hpackage
  have hcreate : db.createCapabilityInvocation checked.record = .ok (existing, db) := by
    obtain ⟨hrequest, hv, hs, hc, he⟩ := hsame
    simp [BrokerDb.createCapabilityInvocation, hrequired, hrow, hrequest, hv, hs, hc, he, ensure,
      bind, Except.bind, pure, Except.pure]
  have hbegin : beginInvocation registry c call env db = .ok (.existing existing, db) := by
    simp [beginInvocation, hchecked, hrow, hcreate, bind, Except.bind, pure, Except.pure]
  simp only [hostInvoke, hbegin, resumeExisting_completed hcompleted]

theorem complete_writes (hget : db.invocations.get (Row.key record) = some existing)
    (hkey : Row.key existing = Row.key record) (result : Json) :
    ∃ completed : InvocationRecord, Row.key completed = Row.key record ∧
      Table.Writes db.invocations (db.completeCapabilityInvocation record result).invocations
        completed := by
  let completed : InvocationRecord := { record with
    status := .completed, result := some result, errorCode := none, outcomeUnknown := false }
  have hold : db.invocations.get (Row.key completed) = some existing := hget
  exact ⟨completed, rfl, .of_set hold ⟨hkey, Or.inl rfl⟩⟩

/-- What a call commits, and the handler it has run. -/
inductive Committed (db db' : BrokerDb) : Option Execution → Prop
  | unchanged (h : db' = db) : Committed db db' none
  | resolved (old new : InvocationRecord) (hget : db.invocations.get (Row.key new) = some old)
      (hunknown : old.outcomeUnknown = true) (hopen : ¬ ∃ result, old.Completed result)
      (hwrites : Table.Writes db.invocations db'.invocations new) : Committed db db' none
  | executed (record : InvocationRecord) (execution : Execution)
      (hfree : db.invocations.get execution.call = none)
      (hkey : Row.key record = execution.call)
      (hwrites : Table.Writes db.invocations db'.invocations record) :
      Committed db db' (some execution)

theorem resume_committed {capability : String}
    (hget : db.invocations.get (Row.key record) = some record)
    (h : resumeExisting registry capability record env db = .ok (result, db')) :
    Committed db db' none := by
  rcases resumeExisting_cases h with ⟨-, rfl⟩ | ⟨hunknown, hopen, -, rfl⟩
  · exact .unchanged rfl
  · obtain ⟨completed, hkey, hwrites⟩ := complete_writes hget rfl result
    exact .resolved record completed (hkey ▸ hget) hunknown hopen hwrites

/-- A call whose handler returns, if it is called at all, commits what it has run. -/
theorem hostInvoke_committed (hreturns : run.handled = true → ∃ result, run = .returned result) :
    Committed db (hostInvoke registry c call env run db).db
      (hostInvoke registry c call env run db).executed := by
  cases hbegin : beginInvocation registry c call env db with
  | error fault =>
    simp only [hostInvoke, hbegin]
    exact .unchanged rfl
  | ok begun =>
    obtain ⟨begun, found⟩ := begun
    cases begun with
    | existing record =>
      obtain ⟨rfl, hrecord, -⟩ := begin_existing hbegin
      have hget : found.invocations.get (Row.key record) = some record :=
        Table.get_of_mem (Table.mem_of_get hrecord)
      cases hresume : resumeExisting registry call.capability record env found with
      | error fault =>
        simp only [hostInvoke, hbegin, hresume]
        exact .unchanged rfl
      | ok resumed =>
        simp only [hostInvoke, hbegin, hresume]
        exact resume_committed hget hresume
    | reserved record execution =>
      have hreserved := begin_reserved hbegin
      cases run with
      | returned result =>
        obtain ⟨completed, hkey, hwrites⟩ := complete_writes hreserved.writes.1 rfl result
        simp only [hostInvoke, hbegin, settle, HandlerRun.handled, if_true]
        exact .executed completed execution (hreserved.call ▸ hreserved.free)
          (hkey.trans hreserved.call.symm) (hreserved.writes.trans hwrites hkey)
      | refused fault =>
        have hfails : (settle record (.refused fault) found).1 = .error fault := by
          cases fault <;> rfl
        have hsettle : settle record (.refused fault) found =
            (.error fault, (settle record (.refused fault) found).2) := Prod.ext hfails rfl
        simp only [hostInvoke, hbegin]
        rw [hsettle]
        exact .unchanged rfl
      | raised fault | outcomeUnknown | lost => exact absurd (hreturns rfl) (by simp)

end Transactions

/-- No record goes, and no completed one changes. -/
structure KeepsRecords (db db' : BrokerDb) : Prop where
  records : ∀ key, (db.invocations.get key).isSome = true → (db'.invocations.get key).isSome = true
  results : ∀ key record result, db.invocations.get key = some record →
    record.Completed result → db'.invocations.get key = some record

theorem KeepsRecords.refl (db : BrokerDb) : KeepsRecords db db :=
  ⟨fun _ h => h, fun _ _ _ h _ => h⟩

theorem KeepsRecords.of_writes {db db' : BrokerDb} {record : InvocationRecord}
    (hwrites : Table.Writes db.invocations db'.invocations record)
    (hopen : ∀ old, db.invocations.get (Row.key record) = some old →
      ¬ ∃ result, old.Completed result) : KeepsRecords db db' := by
  refine ⟨fun key hkey => ?_, fun key old result hget hcompleted => ?_⟩
  · rw [hwrites.get]
    split_ifs
    · rfl
    · exact hkey
  · rw [hwrites.get, if_neg, hget]
    rintro rfl
    exact hopen old hget ⟨result, hcompleted⟩

theorem Reserved.keeps {c : BrokerConnection} {call : CapabilityCall} {env : Surroundings}
    {db db' : BrokerDb} {record : InvocationRecord} {execution : Execution}
    (h : Reserved c call env db db' record execution) : KeepsRecords db db' :=
  .of_writes h.writes fun old hold => by
    rw [h.free] at hold
    cases hold

theorem Committed.keeps {db db' : BrokerDb} {executed : Option Execution}
    (h : Committed db db' executed) : KeepsRecords db db' := by
  cases h with
  | unchanged h => exact h ▸ .refl db
  | resolved old new hget hunknown hopen hwrites =>
    refine .of_writes hwrites fun row hrow => ?_
    obtain rfl : old = row := Option.some.inj (hget.symm.trans hrow)
    exact hopen
  | executed record execution hfree hkey hwrites =>
    refine .of_writes hwrites fun row hrow => ?_
    rw [hkey, hfree] at hrow
    cases hrow

namespace BrokerWorld

variable {registry : CapabilityRegistry} {w w' : BrokerWorld} {a : BrokerAction}

/-- A call of the model that waits has its pending record, and its handler has not run before it
is started. -/
structure Waiting (w : BrokerWorld) (call : ModelCall) : Prop where
  stored : w.db.invocations.get (Row.key call.record) = some call.record
  pending : call.record.status = .pending
  known : call.record.outcomeUnknown = false
  execution : call.execution.call = Row.key call.record
  fresh : call.started = false → ∀ e ∈ w.executions, e.call ≠ Row.key call.record

structure Sound (w : BrokerWorld) : Prop where
  once : w.executions.Pairwise fun e e' => e.call ≠ e'.call
  recorded : ∀ e ∈ w.executions, (w.db.invocations.get e.call).isSome = true
  waiting : ∀ call ∈ w.modelCalls, w.Waiting call
  different : (w.modelCalls.map fun call => Row.key call.record).Nodup

/-- What is committed for other calls than one of the model leaves that one waiting. -/
theorem Waiting.committed {call : ModelCall} {db : BrokerDb} {executed : Option Execution}
    (h : w.Waiting call) (hcommitted : Committed w.db db executed) :
    Waiting { w with db := db, executions := w.executions ++ executed.toList } call := by
  obtain ⟨hstored, hpending, hknown, hexecution, hfresh⟩ := h
  cases hcommitted with
  | unchanged h =>
    subst h
    exact ⟨hstored, hpending, hknown, hexecution, by simpa using hfresh⟩
  | resolved old new hget hunknown hopen hwrites =>
    have hother : Row.key call.record ≠ Row.key new := fun heq => by
      rw [heq, hget] at hstored
      cases hstored
      rw [hknown] at hunknown
      cases hunknown
    exact ⟨(hwrites.2 _ hother).trans hstored, hpending, hknown, hexecution,
      by simpa using hfresh⟩
  | executed record execution hfree hkey hwrites =>
    have hother : execution.call ≠ Row.key call.record := fun heq => by
      rw [heq, hstored] at hfree
      cases hfree
    refine ⟨(hwrites.2 _ (hkey ▸ hother.symm)).trans hstored, hpending, hknown, hexecution,
      fun hwaits e he => ?_⟩
    rcases List.mem_append.mp he with he | he
    · exact hfresh hwaits e he
    · obtain rfl := Option.some.inj (Option.mem_toList.mp he)
      exact hother

theorem Sound.committed {db : BrokerDb} {executed : Option Execution} (h : w.Sound)
    (hcommitted : Committed w.db db executed) :
    Sound { w with db := db, executions := w.executions ++ executed.toList } := by
  have hwaiting := fun call hcall => (h.waiting call hcall).committed hcommitted
  have hkept := hcommitted.keeps
  cases hcommitted with
  | unchanged heq =>
    subst heq
    simpa using h
  | resolved =>
    exact ⟨by simpa using h.once, fun e he => hkept.records _ (h.recorded e (by simpa using he)),
      hwaiting, h.different⟩
  | executed record execution hfree hkey hwrites =>
    have hnew : ∀ e ∈ w.executions, e.call ≠ execution.call := fun e he heq => by
      have hrecorded := h.recorded e he
      rw [heq, hfree] at hrecorded
      cases hrecorded
    refine ⟨?_, fun e he => ?_, hwaiting, h.different⟩
    · refine List.pairwise_append.mpr ⟨h.once, List.pairwise_singleton _ _, fun e he x hx => ?_⟩
      obtain rfl := Option.some.inj (Option.mem_toList.mp hx)
      exact hnew e he
    · rcases List.mem_append.mp he with he | he
      · exact hkept.records _ (h.recorded e he)
      · obtain rfl := Option.some.inj (Option.mem_toList.mp he)
        rw [← hkey, hwrites.1]
        rfl

theorem Sound.reserved {c : BrokerConnection} {call : CapabilityCall} {env : Surroundings}
    {db : BrokerDb} {record : InvocationRecord} {execution : Execution} (h : w.Sound)
    (hreserved : Reserved c call env w.db db record execution) :
    Sound { w with db := db, modelCalls := w.modelCalls ++ [{ record, execution }] } := by
  have hkept := hreserved.keeps
  have hother : ∀ call ∈ w.modelCalls, Row.key call.record ≠ Row.key record :=
    fun call hcall heq => by
      have hstored := (h.waiting call hcall).stored
      rw [heq, hreserved.free] at hstored
      cases hstored
  refine ⟨h.once, fun e he => hkept.records _ (h.recorded e he), fun call hcall => ?_, ?_⟩
  · rcases List.mem_append.mp hcall with hcall | hcall
    · obtain ⟨hstored, hpending, hknown, hexecution, hfresh⟩ := h.waiting call hcall
      exact ⟨(hreserved.writes.2 _ (hother call hcall)).trans hstored, hpending, hknown,
        hexecution, hfresh⟩
    · rw [List.mem_singleton.mp hcall]
      refine ⟨hreserved.writes.1, hreserved.pending, hreserved.known, hreserved.call,
        fun _ e he heq => ?_⟩
      have hrecorded := h.recorded e he
      rw [heq, hreserved.free] at hrecorded
      cases hrecorded
  · rw [List.map_append, List.nodup_append]
    refine ⟨h.different, List.nodup_singleton _, fun key hkey new hnew => ?_⟩
    obtain ⟨call, hcall, rfl⟩ := List.mem_map.mp hkey
    exact List.mem_singleton.mp hnew ▸ hother call hcall

section Calls

variable {α β : Type} {f : α → β} {l : List α} {i : ℕ} {a b b' : α}

private theorem ne_of_mem_eraseIdx (hnodup : (l.map f).Nodup) (ha : l[i]? = some a)
    (hb : b ∈ l.eraseIdx i) : f b ≠ f a := by
  induction l generalizing i with
  | nil => cases ha
  | cons first rest ih =>
    rw [List.map_cons, List.nodup_cons] at hnodup
    cases i with
    | zero =>
      cases ha
      exact fun heq => hnodup.1 (heq ▸ List.mem_map_of_mem hb)
    | succ i =>
      have ha : rest[i]? = some a := by simpa using ha
      rcases List.mem_cons.mp hb with rfl | hb
      · exact fun heq => hnodup.1 (heq ▸ List.mem_map_of_mem (List.mem_of_getElem? ha))
      · exact ih hnodup.2 ha hb

private theorem mem_set_cases (hb : b ∈ l.set i b') : b = b' ∨ b ∈ l.eraseIdx i := by
  induction l generalizing i with
  | nil => cases hb
  | cons first rest ih =>
    cases i with
    | zero => exact List.mem_cons.mp hb
    | succ i =>
      rcases List.mem_cons.mp hb with rfl | hb
      · exact Or.inr List.mem_cons_self
      · exact (ih hb).imp_right (List.mem_cons_of_mem _)

private theorem map_set_of_same (ha : l[i]? = some a) (hsame : f b = f a) :
    (l.set i b).map f = l.map f := by
  induction l generalizing i with
  | nil => rfl
  | cons first rest ih =>
    cases i with
    | zero =>
      cases ha
      simp [hsame]
    | succ i =>
      have ha : rest[i]? = some a := by simpa using ha
      simp [ih ha]

end Calls

theorem Sound.started {i : ℕ} {call : ModelCall} (h : w.Sound)
    (hcall : w.modelCalls[i]? = some call) (hwaits : call.started = false) :
    Sound { w with
      modelCalls := w.modelCalls.set i { call with started := true }
      executions := w.executions ++ [call.execution] } := by
  have hself := h.waiting call (List.mem_of_getElem? hcall)
  have hfresh := hself.fresh hwaits
  have hmap := map_set_of_same (f := fun call : ModelCall => Row.key call.record)
    (b := { call with started := true }) hcall rfl
  refine ⟨?_, fun e he => ?_, fun other hother => ?_, hmap ▸ h.different⟩
  · refine List.pairwise_append.mpr ⟨h.once, List.pairwise_singleton _ _, fun e he x hx => ?_⟩
    rw [List.mem_singleton.mp hx, hself.execution]
    exact hfresh e he
  · rcases List.mem_append.mp he with he | he
    · exact h.recorded e he
    · rw [List.mem_singleton.mp he, hself.execution, hself.stored]
      rfl
  · rcases mem_set_cases hother with rfl | hother
    · exact ⟨hself.stored, hself.pending, hself.known, hself.execution,
        fun hfalse => by cases hfalse⟩
    · have hne := ne_of_mem_eraseIdx h.different hcall hother
      obtain ⟨hstored, hpending, hknown, hexecution, hold⟩ :=
        h.waiting other (List.mem_of_mem_eraseIdx hother)
      refine ⟨hstored, hpending, hknown, hexecution, fun hfalse e he => ?_⟩
      rcases List.mem_append.mp he with he | he
      · exact hold hfalse e he
      · rw [List.mem_singleton.mp he, hself.execution]
        exact hne.symm

theorem settle_cases {record : InvocationRecord} {db : BrokerDb} (run : HandlerRun)
    (hget : db.invocations.get (Row.key record) = some record) :
    (settle record run db).2 = db ∨ ∃ new : InvocationRecord, Row.key new = Row.key record ∧
      Table.Writes db.invocations (settle record run db).2.invocations new := by
  have hfail : ∀ errorCode unknown, ∃ new : InvocationRecord, Row.key new = Row.key record ∧
      Table.Writes db.invocations
        (db.failCapabilityInvocation record errorCode unknown).invocations new := by
    intro errorCode unknown
    let failed : InvocationRecord := { record with
      status := if unknown then .unknown else .failed
      result := none, errorCode := some errorCode, outcomeUnknown := unknown }
    have hold : db.invocations.get (Row.key failed) = some record := hget
    exact ⟨failed, rfl, .of_set hold ⟨rfl, Or.inl rfl⟩⟩
  unfold settle
  split
  · exact Or.inr (complete_writes hget rfl _)
  · exact Or.inl rfl
  · exact Or.inl rfl
  · exact Or.inr (hfail _ _)
  · exact Or.inr (hfail _ _)
  · exact Or.inr (hfail _ _)
  · exact Or.inl rfl

theorem Sound.dropped (h : w.Sound) (i : ℕ) :
    Sound { w with modelCalls := w.modelCalls.eraseIdx i } :=
  ⟨h.once, h.recorded, fun call hcall =>
      let ⟨hstored, hpending, hknown, hexecution, hfresh⟩ :=
        h.waiting call (List.mem_of_mem_eraseIdx hcall)
      ⟨hstored, hpending, hknown, hexecution, hfresh⟩,
    h.different.sublist ((List.eraseIdx_sublist _ _).map _)⟩

theorem Sound.settled {i : ℕ} {call : ModelCall} (h : w.Sound)
    (hcall : w.modelCalls[i]? = some call) (run : HandlerRun) :
    Sound { w with
      db := (settle call.record run w.db).2, modelCalls := w.modelCalls.eraseIdx i } ∧
    KeepsRecords w.db (settle call.record run w.db).2 := by
  have hself := h.waiting call (List.mem_of_getElem? hcall)
  have hdropped := h.dropped i
  rcases settle_cases run hself.stored with hsame | ⟨new, hkey, hwrites⟩
  · rw [hsame]
    exact ⟨hdropped, .refl _⟩
  · have hkept : KeepsRecords w.db (settle call.record run w.db).2 :=
      .of_writes hwrites fun old hold ⟨result, hstatus, _⟩ => by
        rw [hkey, hself.stored] at hold
        cases hold
        rw [hself.pending] at hstatus
        cases hstatus
    refine ⟨⟨h.once, fun e he => hkept.records _ (h.recorded e he), fun other hother => ?_,
      hdropped.different⟩, hkept⟩
    have hne := ne_of_mem_eraseIdx h.different hcall hother
    obtain ⟨hstored, hpending, hknown, hexecution, hfresh⟩ :=
      h.waiting other (List.mem_of_mem_eraseIdx hother)
    exact ⟨(hwrites.2 _ (hkey ▸ hne)).trans hstored, hpending, hknown, hexecution, hfresh⟩

/-- With a plugin goes what was stored and run for it, and nothing else. -/
theorem get_deletePlugin (db : BrokerDb) (pluginId : String) (call : String × InvocationKey) :
    (db.deletePlugin pluginId).invocations.get call =
      if call.1 = pluginId then none else db.invocations.get call := by
  have hget := Table.get_delete (t := db.invocations)
    (p := fun r => decide (r.pluginId = pluginId)) (q := fun call => decide (call.1 = pluginId))
    (fun _ => rfl) call
  simp only [decide_eq_true_eq] at hget
  exact hget

theorem Sound.uninstalled (h : w.Sound) (pluginId : String) : (w.uninstall pluginId).Sound := by
  refine ⟨h.once.sublist List.filter_sublist, fun e he => ?_, fun call hcall => ?_,
    h.different.sublist (List.filter_sublist.map _)⟩
  · obtain ⟨he, hother⟩ := List.mem_filter.mp he
    have hother : e.call.1 ≠ pluginId := of_decide_eq_true hother
    exact (get_deletePlugin w.db pluginId e.call).symm ▸ (if_neg hother).symm ▸ h.recorded e he
  · obtain ⟨hcall, hother⟩ := List.mem_filter.mp hcall
    have hother : (Row.key call.record).1 ≠ pluginId := of_decide_eq_true hother
    obtain ⟨hstored, hpending, hknown, hexecution, hfresh⟩ := h.waiting call hcall
    refine ⟨?_, hpending, hknown, hexecution, fun hfalse e he =>
      hfresh hfalse e (List.mem_of_mem_filter he)⟩
    exact (get_deletePlugin w.db pluginId _).trans ((if_neg hother).trans hstored)

end BrokerWorld

end Plugins
end Matinier
