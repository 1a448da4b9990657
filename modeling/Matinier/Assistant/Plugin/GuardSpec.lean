import Matinier.Assistant.Plugin.Guard
import Matinier.Assistant.Tools.ExecutorSpec

/-!
# What the guard lets through

An external write that the guard lets through belongs to an execution whose owner's
authority is in force, at the epoch at which its session stands in the same transaction.
-/

namespace Matinier
namespace Assistant

namespace MeetingDb

variable {db : MeetingDb} {operation owner : OperationRecord} {scope : HostActionScope}
  {execution : ExecutionRecord} {request : ToolInvocation} {spec : ToolSpec} {now : Instant}

theorem scopeFor_ok (h : db.scopeFor operation = .ok scope) :
    scope.legacySessionId = operation.legacySessionId ∧
      scope.authorityEpoch = operation.authorityEpoch ∧ scope.action = operation.action := by
  simp only [scopeFor, bind_eq_ok, require_eq_ok, ensure_eq_ok, pure_eq_ok] at h
  obtain ⟨intent, -, _, -, _, ⟨-, -, -, hsession, hepoch, haction⟩, rfl⟩ := h
  exact ⟨hsession, hepoch, haction⟩

/-- Authority is that of the scope, and in force at the epoch of the session but for a
cancellation out of the host's history. -/
theorem requireAuthority_ok (h : db.requireAuthority operation now = .ok scope) :
    db.scopeFor operation = .ok scope ∧
      (scope.action ≠ .cancel → db.EpochCurrent scope) := by
  simp only [requireAuthority, bind_eq_ok] at h
  obtain ⟨scope', hscope, h⟩ := h
  split at h
  · rename_i hhistory
    cases h
    exact ⟨hscope, fun hne => absurd hhistory.2 hne⟩
  · simp only [bind_eq_ok, ensure_eq_ok, pure_eq_ok] at h
    obtain ⟨_, -, _, -, _, -, _, -, _, hepoch, _, -, _, -, _, -, _, -, rfl⟩ := h
    exact ⟨hscope, fun _ => hepoch⟩

/-- The operation that started the execution, or the root it descends from. -/
def Started (operation : OperationRecord) (execution : ExecutionRecord) : Prop :=
  operation.action.Starts ∧ (operation.executionId = some execution.id ∨
    operation.executionId = some execution.rootExecutionId)

theorem mem_startersOf : operation ∈ db.startersOf execution ↔
    operation ∈ db.operations.rows ∧ Started operation execution := by
  simp only [startersOf, Table.mem_select, decide_eq_true_eq, Started]
  tauto

theorem ownership_ok (h : db.ownership execution = .ok owner) :
    owner ∈ db.operations.rows ∧ Started owner execution := by
  simp only [ownership, require_eq_ok] at h
  exact mem_startersOf.mp (List.argmin_mem h)

/-- What a check for an external write leaves: the owner and its scope. -/
theorem checkDb_ok {executionId : ExecutionId} {result : Option HostActionScope}
    (h : db.checkDb executionId now = .ok result) :
    ∃ execution owner scope, db.assistant.getExecution executionId = some execution ∧
      isTerminalExecutionStatus execution.profile execution.status = false ∧
      db.ownership execution = .ok owner ∧ db.checkOwned execution owner now = .ok scope ∧
      result = some scope := by
  simp only [checkDb, bind_eq_ok, require_eq_ok, ensure_eq_ok] at h
  obtain ⟨execution, hexecution, _, hlive, h⟩ := h
  cases howner : db.ownership execution with
  | error e => simp [howner] at h
  | ok owner =>
    simp only [howner, bind_eq_ok, pure_eq_ok] at h
    obtain ⟨scope, hscope, rfl⟩ := h
    exact ⟨execution, owner, scope, hexecution, hlive, howner, hscope, rfl⟩

theorem checkOwned_ok (h : db.checkOwned execution owner now = .ok scope) :
    db.requireAuthority owner now = .ok scope := by
  simp only [checkOwned, bind_eq_ok, pure_eq_ok] at h
  obtain ⟨scope', hauthority, _, -, _, -, rfl⟩ := h
  exact hauthority

theorem checkOwned_session (h : db.checkOwned execution owner now = .ok scope) :
    execution.sessionId = scope.legacySessionId := by
  simp only [checkOwned, bind_eq_ok, ensure_eq_ok, pure_eq_ok] at h
  obtain ⟨scope', -, _, hsession, _, -, rfl⟩ := h
  exact hsession

/-- An external write passes under the scope of its owner, which confirms it. -/
theorem authorizeTool_external (heffect : spec.effect = .externalWrite) :
    db.authorizeTool request spec now = .ok () ↔
      ∃ scope, db.checkDb request.executionId now = .ok (some scope) ∧
        scope.action = .execute ∧ db.authorizeExternal scope request spec = .ok () := by
  simp only [authorizeTool, heffect, ne_eq, not_true_eq_false, decide_false, if_false,
    bind_eq_ok, require_eq_ok, ensure_eq_ok]
  constructor
  · rintro ⟨result, hcheck, scope, rfl, _, haction, hexternal⟩
    exact ⟨scope, hcheck, haction, hexternal⟩
  · rintro ⟨scope, hcheck, haction, hexternal⟩
    exact ⟨some scope, hcheck, scope, rfl, (), haction, hexternal⟩

theorem authorizeTool_epoch (heffect : spec.effect = .externalWrite)
    (h : db.authorizeTool request spec now = .ok ()) :
    ∃ execution owner, db.assistant.getExecution request.executionId = some execution ∧
      owner ∈ db.operations.rows ∧ Started owner execution ∧
      ∃ row, db.sessions.get owner.legacySessionId = some row ∧
        row.authorityEpoch = owner.authorityEpoch := by
  obtain ⟨scope, hcheck, haction, -⟩ := (authorizeTool_external heffect).mp h
  obtain ⟨execution, owner, _, hexecution, -, howner, howned, hsame⟩ := checkDb_ok hcheck
  cases hsame
  obtain ⟨hscope, hepoch⟩ := requireAuthority_ok (checkOwned_ok howned)
  obtain ⟨hmem, hstarted⟩ := ownership_ok howner
  obtain ⟨hsession, hscopeEpoch, -⟩ := scopeFor_ok hscope
  obtain ⟨row, hrow, hcurrent⟩ := hepoch (by rw [haction]; decide)
  rw [hsession] at hrow
  exact ⟨execution, owner, hexecution, hmem, hstarted, row, hrow, hcurrent.trans hscopeEpoch⟩

end MeetingDb

/-- The first transaction of `execute`, with the verdict of the guard in it. -/
def guardedExecute (cfg : ExecutorConfig) (input : ExecuteInput) : MeetingTransaction Begun :=
  fun db => do
    let authority : Except Fault Unit := do
      let tool ← cfg.registry.get input.request.toolName
      db.authorizeTool input.request tool.spec input.now
    let (begun, assistant) ← beginExecute cfg { input with authority } db.assistant
    return (begun, { db with assistant })

theorem beginExecute_authority {cfg : ExecutorConfig} {input : ExecuteInput} {db db' : Db}
    {flight : Flight} (h : beginExecute cfg input db = .ok (.requested flight, db')) :
    input.authority = .ok () := by
  simp only [beginExecute, bind_eq_ok] at h
  obtain ⟨tool, -, arguments, -, execution, -, h⟩ := h
  split at h
  · cases h
  · simp only [bind_eq_ok] at h
    obtain ⟨_, -, _, hauthority, -⟩ := h
    exact hauthority

/-- What a guarded request leaves: the guard has let it through in its own transaction. -/
theorem guardedExecute_cases {cfg : ExecutorConfig} {input : ExecuteInput} {db db' : MeetingDb}
    {begun : Begun} (h : guardedExecute cfg input db = .ok (begun, db')) :
    db' = db ∨ ∃ tool execution flight call,
      cfg.registry.find input.request.toolName = some tool ∧
      db.authorizeTool input.request tool.spec input.now = .ok () ∧
      db.assistant.getExecution input.request.executionId = some execution ∧
      Requested db.assistant db'.assistant tool input.request execution flight call ∧
      db' = { db with assistant := db'.assistant } := by
  simp only [guardedExecute, bind_eq_ok, pure_eq_ok, Prod.exists, Prod.mk.injEq] at h
  obtain ⟨begun', assistant, hbegin, rfl, rfl⟩ := h
  rcases beginExecute_cases hbegin with ⟨r, -, hsame⟩ |
    ⟨tool, execution, flight, call, rfl, htool, hexecution, -, -, hrequested⟩
  · left
    rw [hsame]
  · refine Or.inr ⟨tool, execution, flight, call, htool, ?_, hexecution, hrequested, rfl⟩
    have hauthority := beginExecute_authority hbegin
    simp only [ToolRegistry.get, bind_eq_ok, require_eq_ok] at hauthority
    obtain ⟨found, hfound, hpassed⟩ := hauthority
    obtain rfl : tool = found := Option.some.inj (htool.symm.trans hfound)
    exact hpassed

end Assistant
end Matinier
