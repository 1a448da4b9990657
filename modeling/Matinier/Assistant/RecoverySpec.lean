import Matinier.Assistant.Background
import Matinier.Assistant.Tools.ExecutorSpec

/-!
# What recovery does to one execution

Every function of recovery returns on the states it is called in, and works on
the rows of one execution. The lemmas below say so, one for each function, and
say in which status they leave the execution and its calls.
-/

namespace Matinier
namespace Assistant

/-- Every other execution and its calls are as they were. -/
structure SparesOthers (db db' : Db) (k : ExecutionId) : Prop where
  executions : ∀ j, j ≠ k → db'.getExecution j = db.getExecution j
  calls : ∀ id call, call.executionId ≠ k →
    (db'.getToolCall id = some call ↔ db.getToolCall id = some call)

namespace SparesOthers

variable {db db' db'' : Db} {k : ExecutionId}

theorem refl (db : Db) (k : ExecutionId) : SparesOthers db db k :=
  ⟨fun _ _ => rfl, fun _ _ _ => Iff.rfl⟩

theorem trans (h : SparesOthers db db' k) (h' : SparesOthers db' db'' k) :
    SparesOthers db db'' k :=
  ⟨fun j hj => (h'.executions j hj).trans (h.executions j hj),
    fun id call hne => (h'.calls id call hne).trans (h.calls id call hne)⟩

theorem of_eq (hexecutions : db'.executions = db.executions)
    (hcalls : db'.toolCalls = db.toolCalls) : SparesOthers db db' k := by
  refine ⟨fun j _ => ?_, fun id call _ => ?_⟩
  · rw [Db.getExecution, hexecutions]
    rfl
  · rw [Db.getToolCall, hcalls]
    rfl

theorem of_moves (h : Db.MovesExecution db db' k) : SparesOthers db db' k := by
  refine ⟨h.others, fun id call _ => ?_⟩
  rw [h.rest]
  rfl

theorem of_writes {call old : ToolCallRecord} (hexecutions : db'.executions = db.executions)
    (hwrites : Table.Writes db.toolCalls db'.toolCalls call)
    (hold : db.getToolCall call.id = some old) (hsame : SameRequest old call)
    (howner : old.executionId = k) : SparesOthers db db' k := by
  refine ⟨fun j _ => by rw [Db.getExecution, hexecutions]; rfl, fun id row hne => ?_⟩
  rw [Db.getToolCall, hwrites.get]
  split_ifs with hid
  · subst hid
    constructor
    · rintro ⟨⟩
      exact absurd (hsame.executionId.trans howner) hne
    · intro hrow
      obtain rfl : old = row := Option.some.inj (hold.symm.trans hrow)
      exact absurd howner hne
  · rfl

end SparesOthers

/-- The execution was moved to the status, and nothing else was. -/
def MovedTo (db : Db) (execution : ExecutionRecord) (target : ExecutionStatus)
    (moved : ExecutionRecord × Db) : Prop :=
  moved.1.id = execution.id ∧ moved.1.status = target ∧ moved.2.CurrentRun moved.1 ∧
    db.MovesExecution moved.2 execution.id

section Moves

variable {db : Db} {execution : ExecutionRecord} (now : Instant)

theorem advanceFrom_ok (status target : ExecutionStatus) (eventType : String)
    {moving : ExecutionRecord × Db} (hcur : moving.2.CurrentRun moving.1)
    (hedge : target ∈ executionEdges .actionRun status) (hdecl : Declared .actionRun target) :
    ∃ moved, advanceFrom status target eventType now moving = .ok moved ∧
      MovedTo moving.2 moving.1 (if moving.1.status = status then target else moving.1.status)
        moved := by
  unfold advanceFrom
  by_cases hstatus : moving.1.status = status
  · obtain ⟨moved, db', hmove, hid, htarget, hcur', hmoves⟩ :=
      Db.moveExecution_ok target eventType now none none none hcur (hstatus ▸ hedge) hdecl
    rw [if_pos hstatus, if_pos hstatus]
    exact ⟨(moved, db'), hmove, hid, htarget, hcur', hmoves⟩
  · rw [if_neg hstatus, if_neg hstatus]
    exact ⟨moving, rfl, rfl, rfl, hcur, .refl _ _⟩

theorem MovedTo.trans {moved last : ExecutionRecord × Db} {first second : ExecutionStatus}
    (h : MovedTo db execution first moved) (h' : MovedTo moved.2 moved.1 second last) :
    MovedTo db execution second last := by
  obtain ⟨hid, -, -, hmoves⟩ := h
  obtain ⟨hid', hstatus, hcur, hmoves'⟩ := h'
  exact ⟨hid'.trans hid, hstatus, hcur, hmoves.trans (hid ▸ hmoves')⟩

theorem moveToReconciling_ok (hcur : db.CurrentRun execution)
    (hactive : execution.status ∈ activeStatuses) :
    ∃ moved, moveToReconciling db execution now = .ok moved ∧
      MovedTo db execution .reconciling moved := by
  unfold moveToReconciling
  by_cases hrec : execution.status = .reconciling
  · rw [if_pos hrec]
    exact ⟨_, rfl, rfl, hrec, hcur, .refl _ _⟩
  rw [if_neg hrec]
  by_cases hwait : execution.status = .waitingExternal
  · rw [if_pos hwait]
    obtain ⟨moved, db', hmove, hmoved⟩ := Db.moveExecution_ok .reconciling
      "action.recovered_reconciling" now none none none hcur (by rw [hwait]; decide)
      (by decide)
    exact ⟨(moved, db'), hmove, hmoved⟩
  rw [if_neg hwait]
  obtain ⟨first, h₁, hfirst⟩ := @advanceFrom_ok now .observing .queued "action.recovered_queued"
    (execution, db) hcur (by decide) (by decide)
  obtain ⟨second, h₂, hsecond⟩ := advanceFrom_ok now .queued .planning
    "action.recovered_planning" hfirst.2.2.1 (by decide) (by decide)
  obtain ⟨third, h₃, hthird⟩ := advanceFrom_ok now .planning .executing
    "action.recovered_execution" hsecond.2.2.1 (by decide) (by decide)
  have hstatus : third.1.status = .executing := by
    rw [hthird.2.1, hsecond.2.1, hfirst.2.1]
    revert hactive hrec hwait
    cases execution.status <;> decide
  obtain ⟨moved, db', hmove, hlast⟩ := Db.moveExecution_ok .reconciling
    "action.recovered_reconciling" now none none none hthird.2.2.1 (by rw [hstatus]; decide)
    (by decide)
  refine ⟨(moved, db'), ?_, ((hfirst.trans hsecond).trans hthird).trans hlast⟩
  simp only [bind_eq_ok, ensure_eq_ok]
  exact ⟨first, h₁, second, h₂, third, h₃, (), hstatus, hmove⟩

theorem leaveForInput_ok (hcur : db.CurrentRun execution)
    (hactive : execution.status ∈ activeStatuses) :
    ∃ moved status, leaveForInput db execution now = .ok moved ∧
      MovedTo db execution status moved ∧
      (status = .planning ∨ status = .observing ∨ status = .reconciling) := by
  unfold leaveForInput
  by_cases hqueued : execution.status = .queued
  · rw [if_pos hqueued]
    obtain ⟨moved, db', hmove, hmoved⟩ := Db.moveExecution_ok .planning "action.recovered_planning"
      now none none none hcur (by rw [hqueued]; decide) (by decide)
    exact ⟨(moved, db'), .planning, hmove, hmoved, Or.inl rfl⟩
  rw [if_neg hqueued]
  by_cases hexecuting : execution.status = .executing
  · rw [if_pos hexecuting]
    obtain ⟨moved, db', hmove, hmoved⟩ := Db.moveExecution_ok .observing
      "action.recovered_observing" now none none none hcur (by rw [hexecuting]; decide) (by decide)
    exact ⟨(moved, db'), .observing, hmove, hmoved, Or.inr (Or.inl rfl)⟩
  rw [if_neg hexecuting]
  by_cases hwait : execution.status = .waitingExternal
  · rw [if_pos hwait]
    obtain ⟨moved, db', hmove, hmoved⟩ := Db.moveExecution_ok .reconciling
      "action.recovered_reconciling" now none none none hcur (by rw [hwait]; decide) (by decide)
    exact ⟨(moved, db'), .reconciling, hmove, hmoved, Or.inr (Or.inr rfl)⟩
  rw [if_neg hwait]
  refine ⟨(execution, db), execution.status, rfl, ⟨rfl, rfl, hcur, .refl _ _⟩, ?_⟩
  revert hactive hqueued hexecuting hwait
  cases execution.status <;> decide

theorem moveToNeedsInput_ok (errorCode question : String) (hcur : db.CurrentRun execution)
    (hactive : execution.status ∈ activeStatuses) :
    ∃ moved, moveToNeedsInput db execution errorCode question now = .ok moved ∧
      MovedTo db execution .needsInput moved := by
  obtain ⟨first, status, h₁, hfirst, hleft⟩ := leaveForInput_ok now hcur hactive
  obtain ⟨second, h₂, hsecond⟩ := advanceFrom_ok now .observing .planning
    "action.recovered_planning" hfirst.2.2.1 (by decide) (by decide)
  have hstatus : second.1.status = .planning ∨ second.1.status = .reconciling := by
    rw [hsecond.2.1, hfirst.2.1]
    rcases hleft with rfl | rfl | rfl <;> decide
  obtain ⟨moved, db', hmove, hlast⟩ := Db.moveExecution_ok .needsInput "action.needs_input" now
    (some (inspectionResult question errorCode)) (some errorCode) (some question) hsecond.2.2.1
    (by rcases hstatus with h | h <;> rw [h] <;> decide) (by decide)
  refine ⟨(moved, db'), ?_, (hfirst.trans hsecond).trans hlast⟩
  unfold moveToNeedsInput
  simp only [bind_eq_ok, ensure_eq_ok]
  exact ⟨first, h₁, second, h₂, (), hstatus, hmove⟩

end Moves

def Waiting (db : Db) (k : ExecutionId) : Prop :=
  ∃ e, db.getExecution k = some e ∧ e.profile = .actionRun ∧ e.status = .needsInput

/-- The call is taken up for reconciliation, by a tool that can reconcile. -/
def TakenUp (cfg : RecoveryConfig) (call : ToolCallRecord) : Prop :=
  call.status = .reconciling ∧ ∃ tool, cfg.registry.find call.toolName = some tool ∧
    tool.spec.supportsReconciliation = true

/-- The execution can be resumed; with external calls open, it is to reconcile them all. -/
def Ready (cfg : RecoveryConfig) (db : Db) (k : ExecutionId) : Prop :=
  ∃ e, db.getExecution k = some e ∧ e.profile = .actionRun ∧ e.status ∈ resumableStatuses ∧
    cfg.mayResume e = true ∧ ∀ call ∈ db.listExternalToolCalls k unresolvedStatuses,
      e.status = .reconciling ∧ TakenUp cfg call

/-- The tool of every open external call is registered. -/
def Registered (cfg : RecoveryConfig) (db : Db) : Prop :=
  ∀ call ∈ db.toolCalls.rows, call.effect = .externalWrite → call.status ∈ unresolvedStatuses →
    ∃ tool, cfg.registry.find call.toolName = some tool

theorem unresolved_live {status : ToolCallStatus} (h : status ∈ unresolvedStatuses) :
    status.isTerminal = false := by
  revert h
  cases status <;> decide

theorem open_before {db db' : Db} (h : Background db db') {k : ExecutionId}
    {call : ToolCallRecord} (hcall : call ∈ db'.listExternalToolCalls k unresolvedStatuses) :
    ∃ old ∈ db.listExternalToolCalls k unresolvedStatuses, old.id = call.id ∧
      SameRequest old call := by
  obtain ⟨hmem, hexec, hopen, heffect⟩ := (Db.mem_listExternalToolCalls db').mp hcall
  have hget : db'.getToolCall call.id = some call := Table.get_of_mem hmem
  cases hold : db.getToolCall call.id with
  | none =>
    rw [h.absent call.id hold] at hget
    cases hget
  | some old =>
    obtain ⟨new, hnew, hmoved⟩ := h.moved call.id old hold
    obtain rfl : new = call := Option.some.inj (hnew.symm.trans hget)
    have hsame := hmoved.same
    refine ⟨old, (Db.mem_listExternalToolCalls db).mpr ⟨Table.mem_of_get hold,
      hsame.executionId ▸ hexec, ?_, hsame.effect ▸ heffect⟩, Table.key_of_get hold, hsame⟩
    cases hmoved with
    | kept _ hstatus => exact hstatus ▸ hopen
    | takenUp _ _ hbefore => exact hbefore
    | failed _ hinternal => exact absurd (hsame.effect ▸ heffect) hinternal

theorem Registered.background {cfg : RecoveryConfig} {db db' : Db} (h : Registered cfg db)
    (hback : Background db db') : Registered cfg db' := by
  intro call hmem heffect hopen
  obtain ⟨old, hold, -, hsame⟩ := open_before hback ((Db.mem_listExternalToolCalls db').mpr
    ⟨hmem, rfl, hopen, heffect⟩)
  obtain ⟨holdmem, -, holdopen, holdeffect⟩ := (Db.mem_listExternalToolCalls db).mp hold
  obtain ⟨tool, htool⟩ := h old holdmem holdeffect holdopen
  exact ⟨tool, by rw [hsame.toolName]; exact htool⟩

/-- A status change among the resumable ones keeps what the guard said. -/
theorem RecoveryConfig.mayResume_moved {cfg : RecoveryConfig} {e e' : ExecutionRecord}
    (h : cfg.mayResume e = true) (hid : e'.id = e.id) (hprofile : e'.profile = .actionRun)
    (hstatus : e'.status ∈ resumableStatuses) : cfg.mayResume e' = true := by
  unfold mayResume at h ⊢
  cases hguard : cfg.executionGuard with
  | none => rfl
  | some granted =>
    have hlive : isTerminalExecutionStatus e'.profile e'.status = false := by
      rw [hprofile]
      revert hstatus
      cases e'.status <;> decide
    simp only [hguard, Bool.and_eq_true] at h
    simp [hid, h.1.1, hlive, hstatus]

section Calls

variable {cfg : RecoveryConfig} (now : Instant) {db : Db}

/-- Taking one call up writes its row, to `reconciling` where its tool can reconcile. -/
theorem recoverCall_ok {t : Db × Bool} {call : ToolCallRecord} {tool : RegisteredTool}
    (hcall : t.1.getToolCall call.id = some call) (hopen : call.status ∈ unresolvedStatuses)
    (htool : cfg.registry.find call.toolName = some tool) :
    ∃ t' new, recoverCall cfg now t call = .ok t' ∧ SameRequest call new ∧
      Table.Writes t.1.toolCalls t'.1.toolCalls new ∧
      t'.1 = { t.1 with toolCalls := t'.1.toolCalls } ∧
      (t'.2 = false → t.2 = false ∧ TakenUp cfg new) := by
  unfold recoverCall ToolRegistry.get
  simp only [bind_eq_ok, require_eq_ok]
  by_cases hrec : tool.spec.supportsReconciliation = true
  · -- A requested call becomes unknown first, since only an outcome can be reconciled.
    have hfirst : ∃ taken db₁, interruptRequested now t.1 call = .ok (taken, db₁) ∧
        SameRequest call taken ∧ Table.Writes t.1.toolCalls db₁.toolCalls taken ∧
        db₁ = { t.1 with toolCalls := db₁.toolCalls } ∧
        (taken.status = .reconciling ∨ .reconciling ∈ toolCallTransitions taken.status) := by
      unfold interruptRequested
      by_cases hreq : call.status = .requesting
      · rw [if_pos hreq]
        obtain ⟨db₁, hupdate, hwrites, hrest⟩ := Db.updateToolCall_live
          (u := interruptedUpdate call now) hcall (unresolved_live hopen)
          (Or.inr (by
            rw [hreq]
            exact show ToolCallStatus.unknown ∈ toolCallTransitions .requesting by decide))
        rw [hreq] at hupdate
        exact ⟨_, db₁, hupdate, .updated call _, hwrites, hrest, Or.inr
          (show ToolCallStatus.reconciling ∈ toolCallTransitions .unknown by decide)⟩
      · rw [if_neg hreq]
        refine ⟨call, t.1, rfl, .refl call, Table.Writes.refl hcall, rfl, ?_⟩
        revert hopen hreq
        cases call.status <;> decide
    obtain ⟨taken, db₁, htaken, hsame, hwrites, hrest, hedge⟩ := hfirst
    have hlive : taken.status.isTerminal = false := by
      revert hedge
      cases taken.status <;> decide
    obtain ⟨db₂, hupdate, hwrites₂, hrest₂⟩ := Db.updateToolCall_live
      (u := recoveredUpdate taken now) hwrites.1 hlive hedge
    refine ⟨(db₂, t.2), taken.updated (recoveredUpdate taken now), ⟨tool, htool, ?_⟩,
      hsame.trans (.updated taken _), hwrites.trans hwrites₂ rfl, ?_, fun hflag =>
      ⟨hflag, rfl, tool, ?_, hrec⟩⟩
    · rw [if_pos hrec]
      simp only [bind_eq_ok, pure_eq_ok, Prod.exists]
      exact ⟨taken, db₁, htaken, _, db₂, hupdate, rfl⟩
    · rw [hrest₂, hrest]
    · rw [show (taken.updated (recoveredUpdate taken now)).toolName = call.toolName from
        hsame.toolName]
      exact htool
  · have hedge : call.status = .unknown ∨ .unknown ∈ toolCallTransitions call.status := by
      revert hopen
      cases call.status <;> decide
    obtain ⟨db₁, hupdate, hwrites, hrest⟩ := Db.updateToolCall_live
      (u := unverifiableUpdate call now) hcall (unresolved_live hopen) hedge
    refine ⟨(db₁, true), call.updated (unverifiableUpdate call now), ⟨tool, htool, ?_⟩,
      .updated call _, hwrites, hrest, fun hflag => by cases hflag⟩
    rw [if_neg hrec]
    simp only [bind_eq_ok, pure_eq_ok, Prod.exists]
    exact ⟨_, db₁, hupdate, rfl⟩

/-- Taking up all open calls of an execution leaves each of them taken up, or tells that
some tool cannot reconcile. -/
theorem recoverCalls_ok {k : ExecutionId} {calls : List ToolCallRecord}
    (hnodup : (calls.map ToolCallRecord.id).Nodup)
    (hcalls : ∀ call ∈ calls, call ∈ db.listExternalToolCalls k unresolvedStatuses)
    (hreg : Registered cfg db) :
    ∃ t, calls.foldlM (recoverCall cfg now) (db, false) = .ok t ∧
      SparesOthers db t.1 k ∧ t.1 = { db with toolCalls := t.1.toolCalls } ∧
      ∀ call ∈ calls, ∃ new, t.1.getToolCall call.id = some new ∧
        (t.2 = false → TakenUp cfg new) := by
  obtain ⟨t, hfold, ⟨hspares, hrest⟩, hafter, -⟩ := foldlM_each (g := ToolCallRecord.id)
    (I := fun t : Db × Bool => SparesOthers db t.1 k ∧ t.1 = { db with toolCalls := t.1.toolCalls })
    (P := fun call t => t.1.getToolCall call.id = some call)
    (Q := fun call t => ∃ new, t.1.getToolCall call.id = some new ∧
      (t.2 = false → TakenUp cfg new))
    (f := recoverCall cfg now) (b := (db, false)) hnodup
    (fun t call hmem ⟨hspares, hrest⟩ hcall => by
      obtain ⟨hrow, hexec, hopen, heffect⟩ :=
        (Db.mem_listExternalToolCalls db).mp (hcalls call hmem)
      obtain ⟨tool, htool⟩ := hreg call hrow heffect hopen
      obtain ⟨t', new, hstep, hsame, hwrites, hrest', hflag⟩ :=
        recoverCall_ok now hcall hopen htool
      have hid : new.id = call.id := hsame.id
      refine ⟨t', hstep, ⟨hspares.trans (.of_writes (by rw [hrest']) hwrites
        (hid.symm ▸ hcall) hsame hexec), ?_⟩, ?_, ?_⟩
      · rw [hrest', hrest]
      · exact ⟨new, hid ▸ hwrites.1, fun h => (hflag h).2⟩
      · intro x hne
        have hget : t'.1.getToolCall x.id = t.1.getToolCall x.id :=
          hwrites.2 x.id fun heq => hne (heq.trans hid)
        refine ⟨fun hx => hget.trans hx, fun ⟨row, hrow, htaken⟩ =>
          ⟨row, hget.trans hrow, fun h => htaken (hflag h).1⟩⟩)
    ⟨.refl db k, rfl⟩
    (fun call hmem => Table.get_of_mem
      ((Db.mem_listExternalToolCalls db).mp (hcalls call hmem)).1)
  exact ⟨t, hfold, hspares, hrest, hafter⟩

/-- Failing interrupted local calls of an execution touches nothing but these calls. -/
theorem failLocalCalls_ok {k : ExecutionId} {calls : List ToolCallRecord}
    (errorCode errorMessage : String) (hnodup : (calls.map ToolCallRecord.id).Nodup)
    (hcalls : ∀ call ∈ calls,
      call ∈ db.listToolCalls k [.prepared, .requesting, .pending])
    (hexec : (db.getExecution k).isSome = true) :
    ∃ db', calls.foldlM (failLocalCall now errorCode errorMessage) db = .ok db' ∧
      SparesOthers db db' k ∧ db'.executions = db.executions := by
  obtain ⟨db', hfold, hkept, -, -⟩ := foldlM_each (g := ToolCallRecord.id)
    (I := fun d : Db => SparesOthers db d k ∧ d.executions = db.executions)
    (P := fun call d => d.getToolCall call.id = some call)
    (Q := fun _ _ => True) (f := failLocalCall now errorCode errorMessage) (b := db) hnodup
    (fun d call hmem ⟨hspares, hexecs⟩ hcall => by
      obtain ⟨-, howner, hstatus⟩ := (Db.mem_listToolCalls db).mp (hcalls call hmem)
      have hedge : .failed ∈ toolCallTransitions call.status := by
        revert hstatus
        cases call.status <;> decide
      have hlive : call.status.isTerminal = false := by
        revert hstatus
        cases call.status <;> decide
      obtain ⟨d₁, hupdate, hwrites, hrest⟩ := Db.updateToolCall_live
        (u := localFailure call now errorCode errorMessage) hcall hlive (Or.inr hedge)
      have hexec' : (d₁.getExecution call.executionId).isSome = true := by
        rw [howner, hrest, Db.getExecution, hexecs]
        exact hexec
      obtain ⟨record, observations, hobserve⟩ := Db.appendObservation_new hexec' .system
        (localFailureObservation call errorCode) [] (some call.id)
      have hfirst : SparesOthers d d₁ k :=
        .of_writes (by rw [hrest]) hwrites hcall (.updated call _) howner
      refine ⟨{ d₁ with observations }, ?_, ⟨⟨?_, ?_⟩, ?_⟩, trivial, ?_⟩
      · unfold failLocalCall
        simp only [bind_eq_ok, pure_eq_ok, Prod.exists]
        exact ⟨_, d₁, hupdate, record, _, hobserve, rfl⟩
      · exact (hspares.trans hfirst).executions
      · exact (hspares.trans hfirst).calls
      · rw [hrest]
        exact hexecs
      · intro x hne
        exact ⟨fun hx => (hwrites.2 x.id hne).trans hx, fun _ => trivial⟩)
    ⟨.refl db k, rfl⟩
    (fun call hmem => Table.get_of_mem ((Db.mem_listToolCalls db).mp (hcalls call hmem)).1)
  exact ⟨db', hfold, hkept⟩

end Calls

/-- The execution can be isolated: it is under way or waits already. -/
def Isolable (db : Db) (k : ExecutionId) : Prop :=
  ∃ e, db.getExecution k = some e ∧ e.profile = .actionRun ∧
    (e.status ∈ activeStatuses ∨ e.status = .needsInput)

/-- What recovery decided about an execution: it waits for input, will be isolated, or is
enqueued. -/
def Handled (cfg : RecoveryConfig) (s : RecoveryState) (k : ExecutionId) : Prop :=
  Waiting s.db k ∨ Isolable s.db k ∧ k ∈ s.readOnly ∨ Ready cfg s.db k ∧ k ∈ s.enqueued

/-- Recovery worked on one execution and left what it decided about the others. -/
structure Treats (s s' : RecoveryState) (k : ExecutionId) : Prop where
  spares : SparesOthers s.db s'.db k
  orphans : s'.orphans = s.orphans
  readOnly : ∀ j, j ∈ s.readOnly → j ∈ s'.readOnly
  enqueued : ∀ j, j ∈ s.enqueued → j ∈ s'.enqueued
  isolated : ∀ j, j ∈ s'.readOnly → j ∈ s.readOnly ∨ j = k

theorem listExternalToolCalls_nodup (db : Db) (k : ExecutionId) (statuses : List ToolCallStatus) :
    ((db.listExternalToolCalls k statuses).map ToolCallRecord.id).Nodup :=
  db.toolCalls.keys_nodup.sublist (List.filter_sublist.map ToolCallRecord.id)

section Executions

variable {cfg : RecoveryConfig} (now : Instant) {s : RecoveryState} {execution : ExecutionRecord}

theorem recoverExternal_ok (hcur : s.db.CurrentRun execution)
    (hactive : execution.status ∈ activeStatuses) (hmay : cfg.mayResume execution = true)
    (hreg : Registered cfg s.db) :
    ∃ s', recoverExternal cfg now s execution
        (s.db.listExternalToolCalls execution.id unresolvedStatuses) = .ok s' ∧
      Treats s s' execution.id ∧ Handled cfg s' execution.id := by
  obtain ⟨⟨db₁, unverifiable⟩, hfold, hspares, hrest, hafter⟩ := recoverCalls_ok now
    (listExternalToolCalls_nodup s.db execution.id unresolvedStatuses) (fun _ h => h) hreg
  simp only at hspares hrest hafter
  have hcur₁ : db₁.CurrentRun execution := by
    rw [hrest]
    exact hcur
  obtain ⟨⟨moved, db₂⟩, hmove, hid, hstatus, hcur₂, hmoves⟩ :=
    moveToReconciling_ok now hcur₁ hactive
  simp only at hid hstatus hcur₂ hmoves
  have hspares₂ := hspares.trans (.of_moves hmoves)
  cases unverifiable with
  | true =>
    obtain ⟨last, db₃, hlast, hid₃, hstatus₃, hcur₃, hmoves₃⟩ := Db.moveExecution_ok .needsInput
      "action.needs_input" now (some (inspectionResult
        "Inspect the external system before continuing this action."
        "unverifiable_external_side_effect")) none none hcur₂ (by rw [hstatus]; decide) (by decide)
    refine ⟨{ s with db := db₃, reconciledExecutions := s.reconciledExecutions + 1 }, ?_,
      ⟨hspares₂.trans (hid ▸ .of_moves hmoves₃), rfl, fun _ h => h, fun _ h => h,
        fun _ h => Or.inl h⟩, Or.inl ⟨last, ?_, hcur₃.2, hstatus₃⟩⟩
    · unfold recoverExternal
      simp only [bind_eq_ok, Prod.exists]
      refine ⟨db₁, true, hfold, moved, db₂, hmove, ?_⟩
      rw [if_pos rfl]
      simp only [bind_eq_ok, pure_eq_ok, Prod.exists]
      exact ⟨last, db₃, hlast, rfl⟩
    · rw [← hid, ← hid₃]
      exact hcur₃.1
  | false =>
    have hok : recoverExternal cfg now s execution
        (s.db.listExternalToolCalls execution.id unresolvedStatuses) =
        .ok { s with
          db := db₂
          reconciledExecutions := s.reconciledExecutions + 1
          enqueued := s.enqueued ++ [moved.id] } := by
      unfold recoverExternal
      simp only [bind_eq_ok, Prod.exists]
      exact ⟨db₁, false, hfold, moved, db₂, hmove, rfl⟩
    refine ⟨_, hok, ⟨hspares₂, rfl, fun _ h => h, fun _ h => List.mem_append_left _ h,
      fun _ h => Or.inl h⟩, Or.inr (Or.inr ⟨⟨moved, hid ▸ hcur₂.1, hcur₂.2, ?_, ?_, ?_⟩, ?_⟩)⟩
    · rw [hstatus]
      decide
    · exact RecoveryConfig.mayResume_moved hmay hid hcur₂.2 (by rw [hstatus]; decide)
    · intro call hcall
      obtain ⟨old, hold, holdid, -⟩ :=
        open_before (recoverExternal_background (fun _ h => h) hok) hcall
      obtain ⟨new, hnew, htaken⟩ := hafter old hold
      have hget : db₁.getToolCall call.id = some call := by
        have hlast := Table.get_of_mem ((Db.mem_listExternalToolCalls _).mp hcall).1
        have hcalls : db₂.toolCalls = db₁.toolCalls := by rw [hmoves.rest]
        rw [Db.getToolCall, ← hcalls]
        exact hlast
      obtain rfl : new = call := Option.some.inj ((holdid ▸ hnew).symm.trans hget)
      exact ⟨hstatus, htaken rfl⟩
    · rw [← hid]
      exact List.mem_append_right _ (List.mem_singleton_self _)

theorem recoverExecuting_ok {moving : ExecutionRecord × Db}
    (hcur : moving.2.CurrentRun moving.1) :
    ∃ moved, recoverExecuting now moving = .ok moved ∧ moved.1.id = moving.1.id ∧
      moved.2.CurrentRun moved.1 ∧ SparesOthers moving.2 moved.2 moving.1.id ∧
      moved.1.status = if moving.1.status = .executing then .observing else moving.1.status := by
  unfold recoverExecuting
  by_cases hexec : moving.1.status = .executing
  · rw [if_pos hexec, if_pos hexec]
    let interrupted := moving.2.listToolCalls moving.1.id [.prepared, .requesting, .pending]
    have hnodup : ((interrupted.filter fun call => call.effect ≠ .externalWrite).map
        ToolCallRecord.id).Nodup :=
      moving.2.toolCalls.keys_nodup.sublist
        ((List.filter_sublist.trans List.filter_sublist).map ToolCallRecord.id)
    obtain ⟨db₁, hfold, hspares, hexecs⟩ := failLocalCalls_ok now
      "tool_interrupted_before_recovery" interruptedMessage
      hnodup (fun call hcall => (List.mem_filter.mp hcall).1) (by rw [hcur.1]; rfl)
    have hcur₁ : db₁.CurrentRun moving.1 := by
      refine ⟨?_, hcur.2⟩
      rw [Db.getExecution, hexecs]
      exact hcur.1
    obtain ⟨moved, db₂, hmove, hid, hstatus, hcur₂, hmoves⟩ :=
      Db.moveExecution_ok .observing "action.recovered_observing" now none none none hcur₁
      (by rw [hexec]; decide) (by decide)
    refine ⟨(moved, db₂), ?_, hid, hcur₂, hspares.trans (.of_moves hmoves), hstatus⟩
    simp only [bind_eq_ok]
    exact ⟨db₁, hfold, hmove⟩
  · rw [if_neg hexec, if_neg hexec]
    exact ⟨moving, rfl, rfl, hcur, .refl _ _, rfl⟩

theorem requeue_ok {moving : ExecutionRecord × Db} (hcur : moving.2.CurrentRun moving.1) :
    ∃ moved reset, requeue now moving = .ok (moved, reset) ∧ moved.1.id = moving.1.id ∧
      moved.2.CurrentRun moved.1 ∧ SparesOthers moving.2 moved.2 moving.1.id ∧
      moved.1.status = if moving.1.status = .planning ∨ moving.1.status = .observing then .queued
        else moving.1.status := by
  unfold requeue
  by_cases hidle : moving.1.status = .planning ∨ moving.1.status = .observing
  · rw [if_pos hidle, if_pos hidle]
    obtain ⟨moved, db₁, hmove, hid, hstatus, hcur₁, hmoves⟩ :=
      Db.moveExecution_ok .queued "action.recovered_queued" now none none none hcur
      (by rcases hidle with h | h <;> rw [h] <;> decide) (by decide)
    refine ⟨(moved, db₁), 1, ?_, hid, hcur₁, .of_moves hmoves, hstatus⟩
    simp only [bind_eq_ok, pure_eq_ok]
    exact ⟨(moved, db₁), hmove, rfl⟩
  · rw [if_neg hidle, if_neg hidle]
    exact ⟨moving, 0, rfl, rfl, hcur, .refl _ _, rfl⟩

theorem recoverLocal_ok (hcur : s.db.CurrentRun execution)
    (hactive : execution.status ∈ activeStatuses) (hmay : cfg.mayResume execution = true)
    (hnone : s.db.listExternalToolCalls execution.id unresolvedStatuses = []) :
    ∃ s', recoverLocal now s execution = .ok s' ∧ Treats s s' execution.id ∧
      Handled cfg s' execution.id := by
  obtain ⟨observed, hobserve, hid₁, hcur₁, hspares₁, hstatus₁⟩ :=
    @recoverExecuting_ok now (execution, s.db) hcur
  obtain ⟨moved, reset, hqueue, hid₂, hcur₂, hspares₂, hstatus₂⟩ :=
    requeue_ok now hcur₁
  have hid : moved.1.id = execution.id := hid₂.trans hid₁
  have hresumable : moved.1.status ∈ resumableStatuses := by
    rw [hstatus₂, hstatus₁]
    revert hactive
    cases execution.status <;> decide
  have hok : recoverLocal now s execution = .ok { s with
      db := moved.2
      resetExecutions := s.resetExecutions + reset
      enqueued := s.enqueued ++ [moved.1.id] } := by
    unfold recoverLocal
    simp only [bind_eq_ok, pure_eq_ok, Prod.exists]
    refine ⟨observed.1, observed.2, hobserve, moved.1, moved.2, reset, hqueue, ?_⟩
    rw [if_pos hresumable]
  refine ⟨_, hok, ⟨hspares₁.trans (hid₁ ▸ hspares₂), rfl, fun _ h => h,
    fun _ h => List.mem_append_left _ h, fun _ h => Or.inl h⟩,
    Or.inr (Or.inr ⟨⟨moved.1, hid ▸ hcur₂.1, hcur₂.2, hresumable, ?_, ?_⟩, ?_⟩)⟩
  · exact RecoveryConfig.mayResume_moved hmay hid hcur₂.2 hresumable
  · intro call hcall
    obtain ⟨old, hold, -⟩ := open_before (recoverLocal_background hok) hcall
    rw [hnone] at hold
    cases hold
  · rw [← hid]
    exact List.mem_append_right _ (List.mem_singleton_self _)

theorem resetBranches_ok (k : ExecutionId) :
    ∃ s', (s.db.listSubagentRuns k).foldlM (resetBranch now) s = .ok s' ∧
      s'.db = { s.db with subagentRuns := s'.db.subagentRuns } ∧ s'.orphans = s.orphans ∧
      s'.readOnly = s.readOnly ∧ s'.enqueued = s.enqueued := by
  have hnodup : ((s.db.listSubagentRuns k).map SubagentRunRecord.id).Nodup :=
    s.db.subagentRuns.keys_nodup.sublist (List.filter_sublist.map SubagentRunRecord.id)
  obtain ⟨s', hfold, hkept, -, -⟩ := foldlM_each (g := SubagentRunRecord.id)
    (I := fun t : RecoveryState => t.db = { s.db with subagentRuns := t.db.subagentRuns } ∧
      t.orphans = s.orphans ∧ t.readOnly = s.readOnly ∧ t.enqueued = s.enqueued)
    (P := fun branch t => t.db.subagentRuns.get branch.id = some branch)
    (Q := fun _ _ => True) (f := resetBranch now) (b := s) hnodup
    (fun t branch hmem ⟨hrest, horphans, hreadOnly, henqueued⟩ hbranch => by
      unfold resetBranch
      by_cases hrunning : branch.status = .running
      · let u : SubagentRunUpdate :=
          { status := .queued, result := branch.result, changedAt := now }
        have hreset : t.db.transitionSubagentRun branch.id .running u = .ok (branch.updated u,
            { t.db with subagentRuns := t.db.subagentRuns.set (branch.updated u) }) :=
          (Db.transitionSubagentRun_eq_ok rfl).mpr ⟨branch, hbranch, hrunning,
            Or.inr (show SubagentStatus.queued ∈ subagentTransitions .running by decide), rfl, rfl⟩
        have hwrites : Table.Writes t.db.subagentRuns
            (t.db.subagentRuns.set (branch.updated u)) (branch.updated u) :=
          Table.Writes.of_set hbranch (Db.subagentRun_updated_replaces branch u)
        rw [if_pos hrunning]
        refine ⟨{ t with
          db := { t.db with subagentRuns := t.db.subagentRuns.set (branch.updated u) }
          resetSubagents := t.resetSubagents + 1 }, ?_, ⟨?_, horphans, hreadOnly, henqueued⟩,
          trivial, fun x hne => ⟨fun hx => (hwrites.2 x.id hne).trans hx, fun _ => trivial⟩⟩
        · simp only [bind_eq_ok, pure_eq_ok, Prod.exists]
          exact ⟨_, _, hreset, rfl⟩
        · simp only
          rw [hrest]
      · rw [if_neg hrunning]
        exact ⟨t, rfl, ⟨hrest, horphans, hreadOnly, henqueued⟩, trivial,
          fun _ _ => ⟨fun h => h, fun _ => trivial⟩⟩)
    ⟨rfl, rfl, rfl, rfl⟩
    (fun branch hmem => Table.get_of_mem ((Db.mem_listSubagentRuns s.db).mp hmem).1)
  exact ⟨s', hfold, hkept⟩

/-- The listed execution is still under way, or was isolated for an orphan claim. -/
def Listable (s : RecoveryState) (row : ExecutionRecord) : Prop :=
  s.db.CurrentRun row ∧ (row.status ∈ activeStatuses ∧ row.id ∉ s.orphans ∨
    row.status = .needsInput ∧ row.id ∈ s.orphans)

theorem Treats.trans {s t u : RecoveryState} {k : ExecutionId} (h : Treats s t k)
    (h' : Treats t u k) : Treats s u k where
  spares := h.spares.trans h'.spares
  orphans := h'.orphans.trans h.orphans
  readOnly j hj := h'.readOnly j (h.readOnly j hj)
  enqueued j hj := h'.enqueued j (h.enqueued j hj)
  isolated j hj := (h'.isolated j hj).elim (h.isolated j) Or.inr

/-- Repairing an execution that may be resumed returns and decides about it. One that was
isolated before is left alone. -/
theorem recoverWork_ok (hrow : Listable s execution) (hmay : cfg.mayResume execution = true)
    (hreg : Registered cfg s.db) :
    ∃ s', recoverWork cfg now s execution = .ok s' ∧ Treats s s' execution.id ∧
      Handled cfg s' execution.id ∧
      (execution.status ∉ activeStatuses → s'.db.getExecution execution.id = some execution) := by
  obtain ⟨hcur, hstatus⟩ := hrow
  unfold recoverWork
  rcases hstatus with ⟨hactive, horphan⟩ | ⟨hwaits, horphan⟩
  · rw [if_neg horphan]
    by_cases hopen : s.db.listExternalToolCalls execution.id unresolvedStatuses ≠ []
    · rw [if_pos hopen]
      obtain ⟨s', hok, htreats, hhandled⟩ :=
        recoverExternal_ok now hcur hactive hmay hreg
      exact ⟨s', hok, htreats, hhandled, fun h => absurd hactive h⟩
    · rw [if_neg hopen]
      obtain ⟨s', hok, htreats, hhandled⟩ :=
        recoverLocal_ok now hcur hactive hmay (not_not.mp hopen)
      exact ⟨s', hok, htreats, hhandled, fun h => absurd hactive h⟩
  · rw [if_pos horphan]
    exact ⟨s, rfl, ⟨.refl _ _, rfl, fun _ h => h, fun _ h => h, fun _ h => Or.inl h⟩,
      Or.inl ⟨execution, hcur.1, hcur.2, hwaits⟩, fun _ => hcur.1⟩

/-- Recovery returns on every listed execution and decides about it. One that was isolated
before is left alone. -/
theorem recoverExecution_ok {listed row : ExecutionRecord} (hid : row.id = listed.id)
    (hrow : Listable s row) (hreg : Registered cfg s.db) :
    ∃ s', recoverExecution cfg now s listed = .ok s' ∧ Treats s s' listed.id ∧
      Handled cfg s' listed.id ∧
      (row.status ∉ activeStatuses → s'.db.getExecution row.id = some row) := by
  have hrefreshed : refreshed s.db listed = row := by
    rw [refreshed, ← hid, hrow.1.1]
    rfl
  unfold recoverExecution
  rw [hrefreshed, ← hid]
  by_cases hmay : cfg.mayResume row = false
  · rw [if_pos hmay]
    refine ⟨_, rfl, ⟨.refl _ _, rfl, fun _ h => List.mem_append_left _ h, fun _ h => h, ?_⟩,
      Or.inr (Or.inl ⟨⟨row, hrow.1.1, hrow.1.2, ?_⟩, ?_⟩), fun _ => hrow.1.1⟩
    · intro j hj
      exact (List.mem_append.mp hj).imp_right List.mem_singleton.mp
    · exact hrow.2.imp And.left And.left
    · exact List.mem_append_right _ (List.mem_singleton_self _)
  rw [if_neg hmay]
  obtain ⟨t, hfold, hrest, horphans, hreadOnly, henqueued⟩ :=
    resetBranches_ok now (s := s) row.id
  have hexecutions : t.db.executions = s.db.executions := by rw [hrest]
  have hcalls : t.db.toolCalls = s.db.toolCalls := by rw [hrest]
  have hrow' : Listable t row := by
    refine ⟨⟨?_, hrow.1.2⟩, by rw [horphans]; exact hrow.2⟩
    rw [Db.getExecution, hexecutions]
    exact hrow.1.1
  have hreg' : Registered cfg t.db := by
    intro call
    rw [hcalls]
    exact hreg call
  have hfirst : Treats s t row.id := by
    refine ⟨.of_eq hexecutions hcalls, horphans, ?_, ?_, ?_⟩
    · rw [hreadOnly]
      exact fun _ h => h
    · rw [henqueued]
      exact fun _ h => h
    · rw [hreadOnly]
      exact fun _ h => Or.inl h
  obtain ⟨s', hok, htreats, hhandled, hkept⟩ :=
    recoverWork_ok now hrow' (by simpa using hmay) hreg'
  refine ⟨s', ?_, hfirst.trans htreats, hhandled, hkept⟩
  rw [bind_eq_ok]
  exact ⟨t, hfold, hok⟩

theorem Ready.kept {db db' : Db} {k : ExecutionId} (h : Ready cfg db k)
    (hexec : db'.getExecution k = db.getExecution k)
    (hcalls : ∀ id call, call.executionId = k → db'.getToolCall id = some call →
      db.getToolCall id = some call) : Ready cfg db' k := by
  obtain ⟨e, he, hprofile, hstatus, hmay, htaken⟩ := h
  refine ⟨e, hexec.trans he, hprofile, hstatus, hmay, fun call hcall => htaken call ?_⟩
  obtain ⟨hrow, howner, hopen, heffect⟩ := (Db.mem_listExternalToolCalls _).mp hcall
  have hold := hcalls call.id call howner (Table.get_of_mem hrow)
  exact (Db.mem_listExternalToolCalls _).mpr ⟨Table.mem_of_get hold, howner, hopen, heffect⟩

theorem Handled.spared {s' : RecoveryState} {j k : ExecutionId} (h : Handled cfg s j)
    (htreats : Treats s s' k) (hne : j ≠ k) : Handled cfg s' j := by
  have hexec := htreats.spares.executions j hne
  rcases h with ⟨e, he, hwaits⟩ | ⟨⟨e, he, hisolable⟩, hmem⟩ | ⟨hready, hmem⟩
  · exact Or.inl ⟨e, hexec.trans he, hwaits⟩
  · exact Or.inr (Or.inl ⟨⟨e, hexec.trans he, hisolable⟩, htreats.readOnly j hmem⟩)
  · refine Or.inr (Or.inr ⟨hready.kept hexec fun id call howner => ?_, htreats.enqueued j hmem⟩)
    exact (htreats.spares.calls id call fun heq => hne (howner.symm.trans heq)).mp

end Executions

/-- The fault is one that is left to the reviewer. -/
def Reviewable (e : Fault) : Prop := e.isReviewable = true

section Reviewable

variable {db : Db}

theorem validateResult_raises (spec : ToolSpec) (result : ToolResult) :
    Raises Reviewable (validateResult spec result) := by
  unfold validateResult
  split
  · simp
  · split <;> simp [Reviewable, Fault.isReviewable]

theorem storedReply_raises (spec : ToolSpec) (record : ToolCallRecord) :
    Raises Reviewable (storedReply spec record) := by
  unfold storedReply
  rw [raises_bind]
  refine ⟨?_, fun stored _ => validateResult_raises spec stored⟩
  unfold storedResult
  split
  · simp
  · split <;> simp [Reviewable, Fault.isReviewable]

theorem updateToolCall_raises (id : ToolCallId) (expected : Option ToolCallStatus)
    (u : ToolCallUpdate) : Raises Reviewable (db.updateToolCall id expected u) := by
  simp [Db.updateToolCall, Db.getToolCallRequired, transitionToolCallStatus, Reviewable,
    Fault.isReviewable]

theorem adapterResult_raises (flight : Flight) (answer : AdapterAnswer) :
    Raises Reviewable (adapterResult flight answer) := by
  unfold adapterResult
  split <;> rw [raises_bind] <;> refine ⟨?_, fun result _ => validateResult_raises _ result⟩
  · cases answer <;> simp [invokeAdapter, Reviewable, Fault.isReviewable]
  · cases answer <;> simp [reconcileAdapter, Reviewable, Fault.isReviewable]

theorem beginReconcile_raises (cfg : ExecutorConfig) (id : ToolCallId) (refs : List String)
    (now : Instant) : Raises Reviewable (beginReconcile cfg id refs now db) := by
  have hgrant : ∀ execution, Raises Reviewable (loadExecutionGrant db execution) := by
    intro execution
    unfold loadExecutionGrant
    split
    · simp
    · unfold actionGrantFromRecord
      split_ifs <;> simp [Reviewable, Fault.isReviewable]
  simp [beginReconcile, requestReconciliation, Db.getToolCallRequired, ToolRegistry.get,
    Db.getExecutionRequired, Reviewable, Fault.isReviewable, storedReply_raises,
    updateToolCall_raises, hgrant]

theorem settleClaim_raises (flight : Flight) (result : ToolResult) :
    Raises Reviewable (settleClaim db flight result) := by
  unfold settleClaim
  split <;> simp [Db.transitionExternalActionClaim, transitionExternalActionClaim, Reviewable,
    Fault.isReviewable]

theorem releaseUnspent_raises (flight : Flight) (result : ToolResult) (now : Instant) :
    Raises Reviewable (releaseUnspent db flight result now) := by
  unfold releaseUnspent
  rw [raises_ite, raises_bind]
  refine ⟨fun _ => ⟨?_, fun execution _ => ?_⟩, fun _ => raises_ok db⟩
  · simp [Db.getExecutionRequired, Reviewable, Fault.isReviewable]
  · split <;> simp [Db.releaseGrantSideEffect, Db.getGrantRequired, Reviewable,
      Fault.isReviewable]

theorem appendObservation_raises {d : Db} (hsame : d.observations = db.observations)
    (executionId : ExecutionId) (source : ObservationSource) (observation : Json)
    (refs : List String) (ref : Option ℕ) :
    Raises Reviewable
      (d.appendObservation executionId source observation refs ref db.newObservationId) := by
  intro e he
  cases hexec : d.getExecution executionId with
  | none =>
    simp only [Db.appendObservation, Db.getExecutionRequired, hexec, require] at he
    cases he
    rfl
  | some execution =>
    have hid : db.newObservationId = d.newObservationId := by
      rw [Db.newObservationId, Db.newObservationId, hsame]
    have hsome : (d.getExecution executionId).isSome = true := by rw [hexec]; rfl
    obtain ⟨record, observations, hok⟩ := Db.appendObservation_new hsome source observation refs ref
    rw [hid, hok] at he
    cases he

/-- Persisting a result raises reviewable faults only, since its observation is a new one. -/
theorem persistResult_raises (flight : Flight) (result : ToolResult) (now : Instant) :
    Raises Reviewable (persistResult flight result now db.newObservationId db) := by
  unfold persistResult Db.getToolCallRequired
  simp only [raises_bind, raises_require, raises_ite, raises_pure, storedReply_raises,
    updateToolCall_raises, settleClaim_raises, releaseUnspent_raises, implies_true, and_true,
    true_and]
  refine ⟨fun _ => rfl, fun call _ _ updated hupdate d hsettle d' hrelease => ?_⟩
  refine appendObservation_raises ?_ _ _ _ _ _
  obtain ⟨-, hrest⟩ := settleClaim_ok hsettle
  obtain ⟨-, hrest'⟩ := releaseUnspent_ok hrelease
  obtain ⟨old, -, -, -, ⟨-, -, -, h⟩ | ⟨-, -, h⟩⟩ := Db.updateToolCall_eq_ok.mp hupdate
  · rw [hrest', hrest, h]
  · rw [hrest', hrest, h]

end Reviewable

end Assistant
end Matinier
