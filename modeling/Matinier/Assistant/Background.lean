import Matinier.Assistant.Recovery

/-!
# What happens to calls outside the executor

Recovery, isolation and the resumption of an execution touch tool calls too.
They take external writes under way up for reconciliation and fail local calls.
They write no claim and spend no grant, and neither does anything the user does.
`Background` states this of two databases; everything proved about the
executor's calls survives such a change.

Before an execution resumes its external writes it marks those unknown that were
requested when it stopped, and a local call that cannot be reconciled is failed.
A run that ends with an exception fails its execution.
-/

namespace Matinier
namespace Assistant

/-- How a call moves outside the executor. -/
inductive CallMoved (old new : ToolCallRecord) : Prop
  | kept (same : SameRequest old new) (status : new.status = old.status)
      (result : new.result = old.result)
  | takenUp (same : SameRequest old new) (external : old.effect = .externalWrite)
      (before : old.status ∈ unresolvedStatuses)
      (after : new.status = .unknown ∨ new.status = .reconciling)
      (result : new.result = old.result)
  | failed (same : SameRequest old new) (internal : old.effect ≠ .externalWrite)
      (live : old.status.isTerminal = false) (status : new.status = .failed)

namespace CallMoved

variable {a b c : ToolCallRecord}

theorem refl (call : ToolCallRecord) : CallMoved call call := .kept (.refl call) rfl rfl

theorem same (h : CallMoved a b) : SameRequest a b := by
  cases h <;> assumption

theorem trans (h : CallMoved a b) (h' : CallMoved b c) : CallMoved a c := by
  have hsame := h.same.trans h'.same
  cases h with
  | kept same status result =>
    cases h' with
    | kept same' status' result' => exact .kept hsame (status'.trans status) (result'.trans result)
    | takenUp same' external before after result' =>
      exact .takenUp hsame (same.effect ▸ external) (status ▸ before) after
        (result'.trans result)
    | failed same' internal live status' =>
      exact .failed hsame (same.effect ▸ internal) (status ▸ live) status'
  | takenUp same external before after result =>
    cases h' with
    | kept same' status' result' =>
      exact .takenUp hsame external before (status' ▸ after) (result'.trans result)
    | takenUp same' external' before' after' result' =>
      exact .takenUp hsame external before after' (result'.trans result)
    | failed same' internal => exact absurd external (same.effect ▸ internal)
  | failed same internal live status =>
    cases h' with
    | kept same' status' result' => exact .failed hsame internal live (status'.trans status)
    | takenUp same' external => exact absurd (same.effect ▸ external) internal
    | failed same' internal' live' => rw [status] at live'; cases live'

/-- No call is prepared that was not, and none is over that was not, but for local failures. -/
theorem prepared_iff (h : CallMoved a b) (hexternal : a.effect = .externalWrite) :
    b.status = .prepared ↔ a.status = .prepared := by
  cases h with
  | kept _ status => rw [status]
  | takenUp _ _ before after =>
    have hnot : a.status ≠ .prepared := by
      intro heq
      rw [heq] at before
      exact absurd before (by decide)
    rcases after with after | after <;> simp [after, hnot]
  | failed _ internal => exact absurd hexternal internal

theorem not_prepared (h : CallMoved a b) (ha : a.status ≠ .prepared) : b.status ≠ .prepared := by
  cases h with
  | kept _ status => rwa [status]
  | takenUp _ _ _ after => rcases after with after | after <;> simp [after]
  | failed _ _ _ status => simp [status]

end CallMoved

/-- The grants keep what was spent of them, and new ones are unspent. -/
structure BudgetsKept (db db' : Db) : Prop where
  kept : ∀ id grant, db.getGrant id = some grant → ∃ new, db'.getGrant id = some new ∧
    new.usedSideEffects = grant.usedSideEffects ∧ new.maxSideEffects = grant.maxSideEffects
  fresh : ∀ id new, db'.getGrant id = some new → db.getGrant id = none → new.usedSideEffects = 0

namespace BudgetsKept

variable {db db' db'' : Db}

theorem of_eq (h : db'.grants = db.grants) : BudgetsKept db db' := by
  refine ⟨fun id grant hg => ⟨grant, ?_, rfl, rfl⟩, fun id new hnew hnone => ?_⟩
  · rw [Db.getGrant, h]
    exact hg
  · rw [Db.getGrant, h] at hnew
    rw [show db.grants.get id = none from hnone] at hnew
    cases hnew

theorem trans (h : BudgetsKept db db') (h' : BudgetsKept db' db'') : BudgetsKept db db'' := by
  refine ⟨fun id grant hg => ?_, fun id new hnew hnone => ?_⟩
  · obtain ⟨mid, hmid, hused, hmax⟩ := h.kept id grant hg
    obtain ⟨new, hnew, hused', hmax'⟩ := h'.kept id mid hmid
    exact ⟨new, hnew, hused'.trans hused, hmax'.trans hmax⟩
  · cases hmid : db'.getGrant id with
    | none => exact h'.fresh id new hnew hmid
    | some mid =>
      obtain ⟨new', hnew', hused, -⟩ := h'.kept id mid hmid
      obtain rfl : new' = new := Option.some.inj (hnew'.symm.trans hnew)
      rw [hused]
      exact h.fresh id mid hmid hnone

theorem of_writes {old new : GrantRecord} (hold : db.getGrant old.id = some old)
    (hwrites : Table.Writes db.grants db'.grants new) (hid : new.id = old.id)
    (hused : new.usedSideEffects = old.usedSideEffects)
    (hmax : new.maxSideEffects = old.maxSideEffects) : BudgetsKept db db' := by
  have hget := hwrites.get
  refine ⟨fun id grant hg => ?_, fun id row hrow hnone => ?_⟩
  · rw [Db.getGrant, hget]
    split_ifs with hk
    · rw [hk, show Row.key new = old.id from hid, hold] at hg
      obtain rfl := Option.some.inj hg
      exact ⟨new, rfl, hused, hmax⟩
    · exact ⟨grant, hg, rfl, rfl⟩
  · rw [Db.getGrant, hget] at hrow
    split_ifs at hrow with hk
    · rw [hk, show Row.key new = old.id from hid, hold] at hnone
      cases hnone
    · rw [show db.grants.get id = none from hnone] at hrow
      cases hrow

theorem of_insert {new : GrantRecord} (h : db.grants.insert new = some db'.grants)
    (hused : new.usedSideEffects = 0) : BudgetsKept db db' := by
  have hget := Table.get_insert h
  have habsent := Table.get_none_of_insert h
  refine ⟨fun id grant hg => ?_, fun id row hrow hnone => ?_⟩
  · rw [Db.getGrant, hget]
    split_ifs with hk
    · rw [hk, Db.getGrant, habsent] at hg
      cases hg
    · exact ⟨grant, hg, rfl, rfl⟩
  · rw [Db.getGrant, hget] at hrow
    split_ifs at hrow with hk
    · cases hrow
      exact hused
    · rw [show db.grants.get id = none from hnone] at hrow
      cases hrow

end BudgetsKept

/-- Between the two databases calls moved as they do outside the executor. -/
structure Background (db db' : Db) : Prop where
  absent : ∀ id, db.getToolCall id = none → db'.getToolCall id = none
  moved : ∀ id call, db.getToolCall id = some call →
    ∃ new, db'.getToolCall id = some new ∧ CallMoved call new
  claims : db'.claims = db.claims
  budgets : BudgetsKept db db'
  executions : ∀ id, (db.getExecution id).isSome = true → (db'.getExecution id).isSome = true

namespace Background

variable {db db' db'' : Db}

/-- Nothing happened to the calls and the claims, and no grant was spent. -/
theorem of_budgets (hcalls : db'.toolCalls = db.toolCalls) (hclaims : db'.claims = db.claims)
    (hbudgets : BudgetsKept db db')
    (hexec : ∀ id, (db.getExecution id).isSome = true → (db'.getExecution id).isSome = true :=
      by exact fun _ h => h) : Background db db' := by
  refine ⟨fun id h => ?_, fun id call h => ⟨call, ?_, .refl call⟩, hclaims, hbudgets, hexec⟩
  · rw [Db.getToolCall, hcalls]
    exact h
  · rw [Db.getToolCall, hcalls]
    exact h

theorem of_eq (hcalls : db'.toolCalls = db.toolCalls) (hclaims : db'.claims = db.claims)
    (hgrants : db'.grants = db.grants)
    (hexec : ∀ id, (db.getExecution id).isSome = true → (db'.getExecution id).isSome = true :=
      by exact fun _ h => h) : Background db db' :=
  of_budgets hcalls hclaims (.of_eq hgrants) hexec

theorem refl (db : Db) : Background db db := of_eq rfl rfl rfl

theorem trans (h : Background db db') (h' : Background db' db'') : Background db db'' := by
  refine ⟨fun id hnone => h'.absent id (h.absent id hnone), fun id call hcall => ?_,
    h'.claims.trans h.claims, h.budgets.trans h'.budgets,
    fun id hid => h'.executions id (h.executions id hid)⟩
  obtain ⟨mid, hmid, hmoved⟩ := h.moved id call hcall
  obtain ⟨new, hnew, hmoved'⟩ := h'.moved id mid hmid
  exact ⟨new, hnew, hmoved.trans hmoved'⟩

theorem of_moves {id : ExecutionId} (h : Db.MovesExecution db db' id) : Background db db' := by
  rw [h.rest]
  exact of_eq rfl rfl rfl fun k hk => (h.stays k).trans hk

theorem of_move {execution moved : ExecutionRecord} {target : ExecutionStatus}
    {eventType : String} {now : Instant} {result : Option ExecutionResult}
    {errorCode errorMessage : Option String}
    (h : db.moveExecution execution target eventType now result errorCode errorMessage =
      .ok (moved, db')) : Background db db' :=
  of_moves (Db.transitionExecution_moves h)

theorem of_update {id : ToolCallId} {expected : Option ToolCallStatus} {u : ToolCallUpdate}
    {record : ToolCallRecord} (h : db.updateToolCall id expected u = .ok (record, db'))
    (hmove : ∀ old, db.getToolCall id = some old → old.status.isTerminal = false →
      CallMoved old (old.updated u)) :
    Background db db' := by
  obtain ⟨old, hold, -, -, ⟨-, -, -, rfl⟩ | ⟨hlive, rfl, rfl⟩⟩ := Db.updateToolCall_eq_ok.mp h
  · exact refl _
  · obtain rfl : old.id = id := Table.key_of_get hold
    have hwrites : Table.Writes db.toolCalls (db.toolCalls.set (old.updated u)) (old.updated u) :=
      Table.Writes.of_set hold (Db.updated_replaces old u)
    refine ⟨fun k hk => ?_, fun k call hk => ?_, rfl, .of_eq rfl, fun _ h => h⟩
    · rw [Db.getToolCall, hwrites.2]
      · exact hk
      · rintro rfl
        rw [show db.getToolCall old.id = none from hk] at hold
        cases hold
    · by_cases hkey : k = old.id
      · subst hkey
        obtain rfl : call = old := Option.some.inj (hk.symm.trans hold)
        exact ⟨_, hwrites.1, hmove call hold hlive⟩
      · exact ⟨call, (hwrites.2 k hkey).trans hk, .refl call⟩

end Background

section Recovery

variable {cfg : RecoveryConfig} {now : Instant} {db db' : Db} {s s' : RecoveryState}

theorem advanceFrom_background {status target : ExecutionStatus} {eventType : String}
    {moving moved : ExecutionRecord × Db}
    (h : advanceFrom status target eventType now moving = .ok moved) :
    Background moving.2 moved.2 := by
  unfold advanceFrom at h
  split_ifs at h
  · exact .of_move h
  · cases h
    exact .refl _

theorem moveToReconciling_background {execution moved : ExecutionRecord}
    (h : moveToReconciling db execution now = .ok (moved, db')) : Background db db' := by
  unfold moveToReconciling at h
  split_ifs at h
  · cases h
    exact .refl _
  · exact .of_move h
  · simp only [bind_eq_ok, ensure_eq_ok] at h
    obtain ⟨first, h₁, second, h₂, third, h₃, _, -, h₄⟩ := h
    exact (advanceFrom_background h₁).trans ((advanceFrom_background h₂).trans
      ((advanceFrom_background h₃).trans (.of_move h₄)))

theorem moveToNeedsInput_background {execution moved : ExecutionRecord}
    {errorCode question : String}
    (h : moveToNeedsInput db execution errorCode question now = .ok (moved, db')) :
    Background db db' := by
  unfold moveToNeedsInput leaveForInput at h
  simp only [bind_eq_ok, ensure_eq_ok] at h
  obtain ⟨first, h₁, second, h₂, _, -, h₃⟩ := h
  refine Background.trans ?_ ((advanceFrom_background h₂).trans (.of_move h₃))
  split_ifs at h₁
  · exact .of_move h₁
  · exact .of_move h₁
  · exact .of_move h₁
  · cases h₁
    exact .refl _

theorem isolateOrphan_background {claim : ClaimRecord} (h : isolateOrphan now s claim = .ok s') :
    Background s.db s'.db := by
  unfold isolateOrphan at h
  split_ifs at h
  · cases h
    exact .refl _
  · cases hexec : s.db.getExecution claim.holderExecutionId with
    | none =>
      simp only [hexec, Except.ok.injEq] at h
      exact h ▸ .refl _
    | some execution =>
      simp only [hexec] at h
      split_ifs at h
      · simp only [bind_eq_ok, pure_eq_ok, Prod.exists] at h
        obtain ⟨moved, db, hmove, rfl⟩ := h
        exact moveToNeedsInput_background hmove
      · cases h
        exact .refl _

theorem resetBranch_background {branch : SubagentRunRecord}
    (h : resetBranch now s branch = .ok s') : Background s.db s'.db := by
  unfold resetBranch at h
  split_ifs at h
  · simp only [bind_eq_ok, pure_eq_ok, Prod.exists] at h
    obtain ⟨run, db, hrun, rfl⟩ := h
    obtain ⟨old, -, -, -, -, rfl⟩ := (Db.transitionSubagentRun_eq_ok rfl).mp hrun
    exact .of_eq rfl rfl rfl
  · cases h
    exact .refl _

/-- An update that keeps the result and leads an unresolved external call to `unknown` or
`reconciling`. -/
theorem CallMoved.of_takenUp {call : ToolCallRecord} {u : ToolCallUpdate}
    (hexternal : call.effect = .externalWrite) (hbefore : call.status ∈ unresolvedStatuses)
    (hafter : u.status = .unknown ∨ u.status = .reconciling)
    (hresult : u.result = call.result ∨ u.result = none) : CallMoved call (call.updated u) := by
  refine .takenUp (.updated call u) hexternal hbefore hafter ?_
  rcases hresult with h | h
  · simp only [ToolCallRecord.updated, h]
    cases call.result <;> rfl
  · simp [ToolCallRecord.updated, h]

theorem updateToolCall_returns {id : ToolCallId} {expected : Option ToolCallStatus}
    {u : ToolCallUpdate} {record : ToolCallRecord}
    (h : db.updateToolCall id expected u = .ok (record, db')) :
    db'.getToolCall id = some record := by
  obtain ⟨old, hold, -, -, ⟨-, -, rfl, rfl⟩ | ⟨-, rfl, rfl⟩⟩ := Db.updateToolCall_eq_ok.mp h
  · exact hold
  · obtain rfl : old.id = id := Table.key_of_get hold
    have hwrites : Table.Writes db.toolCalls (db.toolCalls.set (old.updated u)) (old.updated u) :=
      Table.Writes.of_set hold (Db.updated_replaces old u)
    exact hwrites.1

/-- A call of the list is external, unresolved and, as the database stands now, only moved. -/
def Listed (db : Db) (call : ToolCallRecord) : Prop :=
  call.effect = .externalWrite ∧ call.status ∈ unresolvedStatuses ∧
    ∃ row, db.getToolCall call.id = some row ∧ CallMoved call row

theorem Listed.of_background {before : Db} {id : ExecutionId} {call : ToolCallRecord}
    (hcall : call ∈ before.listExternalToolCalls id unresolvedStatuses)
    (h : Background before db) : Listed db call := by
  obtain ⟨hmem, -, hstatus, heffect⟩ := (Db.mem_listExternalToolCalls before).mp hcall
  exact ⟨heffect, hstatus, h.moved call.id call (Table.get_of_mem hmem)⟩

theorem Listed.update {call record : ToolCallRecord} {u : ToolCallUpdate}
    {expected : ToolCallStatus} (hlisted : Listed db call)
    (hexpected : expected ∈ unresolvedStatuses)
    (hafter : u.status = .unknown ∨ u.status = .reconciling)
    (hresult : u.result = call.result ∨ u.result = none)
    (h : db.updateToolCall call.id (some expected) u = .ok (record, db')) :
    Background db db' := by
  obtain ⟨hexternal, -, row, hrow, hmoved⟩ := hlisted
  obtain ⟨old, hold, hexp, -, -⟩ := Db.updateToolCall_eq_ok.mp h
  obtain rfl : row = old := Option.some.inj (hrow.symm.trans hold)
  have hstatus : row.status ∈ unresolvedStatuses := by
    rcases hexp with hnone | hsome
    · cases hnone
    · exact Option.some.inj hsome ▸ hexpected
  have hkept : row.result = call.result := by
    cases hmoved with
    | kept _ _ result => exact result
    | takenUp _ _ _ _ result => exact result
    | failed _ internal => exact absurd hexternal internal
  refine .of_update h fun old hold' _ => ?_
  obtain rfl : row = old := Option.some.inj (hrow.symm.trans hold')
  refine .of_takenUp (hmoved.same.effect ▸ hexternal) hstatus hafter ?_
  rw [hkept]
  exact hresult

theorem recoverCall_background {call : ToolCallRecord} {t t' : Db × Bool}
    (hlisted : Listed t.1 call) (h : recoverCall cfg now t call = .ok t') :
    Background t.1 t'.1 := by
  unfold recoverCall at h
  simp only [bind_eq_ok] at h
  obtain ⟨registered, -, h⟩ := h
  by_cases hrec : registered.spec.supportsReconciliation = true
  · rw [if_pos hrec] at h
    simp only [bind_eq_ok, pure_eq_ok, Prod.exists] at h
    obtain ⟨taken, db₁, h₁, record, db₂, h₂, rfl⟩ := h
    unfold interruptRequested at h₁
    by_cases hreq : call.status = .requesting
    · rw [if_pos hreq] at h₁
      have hfirst : Background t.1 db₁ :=
        hlisted.update (by decide) (Or.inl rfl) (Or.inl rfl) h₁
      have htaken := updateToolCall_returns h₁
      obtain ⟨old, hold, -, -, hwrite⟩ := Db.updateToolCall_eq_ok.mp h₁
      have hid : taken.id = call.id := Table.key_of_get htaken
      obtain ⟨row, hrow, hmoved⟩ := hfirst.moved _ _ hold
      obtain rfl : taken = row := Option.some.inj (htaken.symm.trans hrow)
      obtain ⟨hexternal, -, crow, hcrow, hcmoved⟩ := hlisted
      obtain rfl : crow = old := Option.some.inj (hcrow.symm.trans hold)
      have heffect : taken.effect = .externalWrite :=
        hmoved.same.effect.trans (hcmoved.same.effect.trans hexternal)
      have hstatus : taken.status = .unknown := by
        rcases hwrite with ⟨hover, -, -, -⟩ | ⟨-, rfl, -⟩
        · rcases (Db.updateToolCall_eq_ok.mp h₁) with ⟨old', hold', hexp, -, -⟩
          obtain rfl : crow = old' := Option.some.inj (hold.symm.trans hold')
          rcases hexp with hnone | hsome
          · cases hnone
          · rw [← Option.some.inj hsome] at hover
            cases hover
        · rfl
      have hopen : taken.status ∈ unresolvedStatuses := by rw [hstatus]; decide
      have hlisted' : Listed db₁ taken := ⟨heffect, hopen, taken, hid ▸ htaken, .refl _⟩
      exact hfirst.trans (hlisted'.update hopen (Or.inr rfl) (Or.inl rfl) h₂)
    · rw [if_neg hreq] at h₁
      cases h₁
      exact hlisted.update hlisted.2.1 (Or.inr rfl) (Or.inl rfl) h₂
  · rw [if_neg hrec] at h
    simp only [bind_eq_ok, pure_eq_ok, Prod.exists] at h
    obtain ⟨record, db₁, h₁, rfl⟩ := h
    exact hlisted.update hlisted.2.1 (Or.inl rfl) (Or.inl rfl) h₁

theorem failLocalCall_background {call : ToolCallRecord} {errorCode errorMessage : String}
    (hlocal : ∀ row, db.getToolCall call.id = some row → row.effect ≠ .externalWrite)
    (h : failLocalCall now errorCode errorMessage db call = .ok db') : Background db db' := by
  unfold failLocalCall at h
  simp only [bind_eq_ok, pure_eq_ok, Prod.exists] at h
  obtain ⟨record, db₁, hupdate, observation, db₂, hobserve, rfl⟩ := h
  obtain ⟨-, -, observations, -, rfl⟩ := Db.appendObservation_eq_ok.mp hobserve
  have hfirst : Background db db₁ := .of_update hupdate fun old hold hlive =>
    .failed (.updated old _) (hlocal old hold) hlive rfl
  exact hfirst.trans (.of_eq rfl rfl rfl)

theorem recoverExecuting_background {moving moved : ExecutionRecord × Db}
    (h : recoverExecuting now moving = .ok moved) : Background moving.2 moved.2 := by
  unfold recoverExecuting at h
  split_ifs at h
  · simp only [bind_eq_ok] at h
    obtain ⟨db₁, hfold, hmove⟩ := h
    refine Background.trans ?_ (.of_move hmove)
    refine foldlM_invariant (I := fun d => Background moving.2 d) ?_ (.refl _) hfold
    intro d call d' hcall hd hstep
    rw [List.mem_filter, Db.mem_listToolCalls] at hcall
    obtain ⟨⟨hmem, -, -⟩, heffect⟩ := hcall
    refine hd.trans (failLocalCall_background (fun row hrow => ?_) hstep)
    obtain ⟨new, hnew, hmoved⟩ := hd.moved call.id call (Table.get_of_mem hmem)
    obtain rfl : new = row := Option.some.inj (hnew.symm.trans hrow)
    rw [hmoved.same.effect]
    exact of_decide_eq_true heffect
  · cases h
    exact .refl _

theorem recoverExternal_background {execution : ExecutionRecord} {calls : List ToolCallRecord}
    (hcalls : ∀ call ∈ calls, call ∈ s.db.listExternalToolCalls execution.id unresolvedStatuses)
    (h : recoverExternal cfg now s execution calls = .ok s') : Background s.db s'.db := by
  unfold recoverExternal at h
  simp only [bind_eq_ok, Prod.exists] at h
  obtain ⟨db₁, unverifiable, hfold, moved, db₂, hmove, h⟩ := h
  have hfirst : Background s.db db₁ :=
    foldlM_invariant (I := fun t => Background s.db t.1)
      (fun t call t' hcall ht hstep =>
        ht.trans (recoverCall_background (.of_background (hcalls call hcall) ht) hstep))
      (.refl _) hfold
  have hsecond := hfirst.trans (moveToReconciling_background hmove)
  split_ifs at h
  · simp only [bind_eq_ok, pure_eq_ok, Prod.exists] at h
    obtain ⟨last, db₃, hlast, rfl⟩ := h
    exact hsecond.trans (.of_move hlast)
  · simp only [pure_eq_ok] at h
    subst h
    exact hsecond

theorem requeue_background {moving moved : ExecutionRecord × Db} {reset : ℕ}
    (h : requeue now moving = .ok (moved, reset)) : Background moving.2 moved.2 := by
  unfold requeue at h
  split_ifs at h
  · simp only [bind_eq_ok, pure_eq_ok, Prod.mk.injEq, Prod.exists] at h
    obtain ⟨execution, db₁, hmove, rfl, -⟩ := h
    exact .of_move hmove
  · cases h
    exact .refl _

theorem recoverLocal_background {execution : ExecutionRecord}
    (h : recoverLocal now s execution = .ok s') : Background s.db s'.db := by
  unfold recoverLocal at h
  simp only [bind_eq_ok, pure_eq_ok, Prod.exists] at h
  obtain ⟨moved, db₁, hobserve, last, db₂, reset, hqueue, rfl⟩ := h
  exact (recoverExecuting_background hobserve).trans (requeue_background hqueue)

theorem recoverWork_background {execution : ExecutionRecord}
    (h : recoverWork cfg now s execution = .ok s') : Background s.db s'.db := by
  unfold recoverWork at h
  split_ifs at h
  · cases h
    exact .refl _
  · exact recoverExternal_background (fun _ hc => hc) h
  · exact recoverLocal_background h

theorem recoverExecution_background {listed : ExecutionRecord}
    (h : recoverExecution cfg now s listed = .ok s') : Background s.db s'.db := by
  unfold recoverExecution at h
  split_ifs at h with hmay
  · cases h
    exact .refl _
  · simp only [bind_eq_ok] at h
    obtain ⟨s₁, hreset, h⟩ := h
    have hfirst : Background s.db s₁.db :=
      foldlM_invariant (I := fun t : RecoveryState => Background s.db t.db)
        (fun _ _ _ _ ht hstep => ht.trans (resetBranch_background hstep)) (.refl _) hreset
    exact hfirst.trans (recoverWork_background h)

theorem recoverDurable_background (h : recoverDurable cfg now db = .ok s) :
    Background db s.db := by
  unfold recoverDurable at h
  simp only [bind_eq_ok] at h
  obtain ⟨s₁, hclaims, hexecutions⟩ := h
  have hfirst : Background db s₁.db :=
    foldlM_invariant (I := fun t : RecoveryState => Background db t.db)
      (fun _ _ _ _ ht hstep => ht.trans (isolateOrphan_background hstep)) (.refl _) hclaims
  exact foldlM_invariant (I := fun t : RecoveryState => Background db t.db)
    (fun _ _ _ _ ht hstep => ht.trans (recoverExecution_background hstep)) hfirst hexecutions

theorem interruptCall_background {u : ToolCallUpdate} {call : ToolCallRecord}
    (hu : u.status = .unknown ∧ u.result = none) (hlisted : Listed db call)
    (h : interruptCall u db call = .ok db') : Background db db' := by
  unfold interruptCall at h
  split_ifs at h
  · simp only [bind_eq_ok, pure_eq_ok, Prod.exists] at h
    obtain ⟨record, db₁, hupdate, rfl⟩ := h
    exact hlisted.update (by decide) (Or.inl hu.1) (Or.inr hu.2) hupdate
  · cases h
    exact .refl _

/-- The transaction that isolates an execution moves calls as the background does. -/
theorem isolateExecution_background {id : ExecutionId} {ids : List ToolCallId}
    (h : isolateExecution id now db = .ok (ids, db')) : Background db db' := by
  unfold isolateExecution at h
  simp only [bind_eq_ok, pure_eq_ok, Prod.mk.injEq, Prod.exists] at h
  obtain ⟨execution, -, moved, db₁, hmove, db₂, hfold, -, rfl⟩ := h
  have hfirst : Background db db₁ := by
    unfold isolateStatus at hmove
    split_ifs at hmove
    · exact moveToNeedsInput_background hmove
    · cases hmove
      exact .refl _
  refine hfirst.trans (foldlM_invariant (I := fun d => Background db₁ d) ?_ (.refl _) hfold)
  intro d call d' hcall hd hstep
  exact hd.trans (interruptCall_background ⟨rfl, rfl⟩ (.of_background hcall hd) hstep)

end Recovery

/-- The update of a call whose execution resumes. -/
def resumptionUpdate (now : Instant) : ToolCallUpdate where
  status := .unknown
  errorCode := some "tool_outcome_unknown_after_restart"
  errorMessage := some "The external outcome requires reconciliation after restart."
  changedAt := now

/-- The calls of an execution that have no outcome yet, after the requested external ones
are marked unknown. -/
def takeUpCalls (executionId : ExecutionId) (now : Instant) : Transaction (List ToolCallRecord) :=
  fun db => do
    let calls := db.listToolCalls executionId unresolvedStatuses
    let marked ← (calls.filter fun call => call.effect = .externalWrite).foldlM
      (interruptCall (resumptionUpdate now)) db
    return (calls.map fun call => (marked.getToolCall call.id).getD call, marked)

/-- Fail a local call that no reconciliation can resolve. -/
def failUnreconcilableLocalTool (call : ToolCallRecord) (now : Instant) : Transaction Unit :=
  fun db => do
    let db ← failLocalCall now "local_tool_cannot_resume"
      "The interrupted local tool cannot resume automatically." db call
    return ((), db)

/-- The transaction of `_fail`, which it makes for an execution that was not over when it was
read before. -/
def failActionRun (executionId : ExecutionId) (now : Instant) : Transaction ExecutionRecord :=
  fun db => do
    let execution ← db.getExecutionRequired executionId
    db.moveExecution execution .failed "action.failed" now none (some "action_run_failed")
      (some "The Action Run could not complete.")

section Background

variable {db db' : Db} {now : Instant}

theorem takeUpCalls_background {executionId : ExecutionId} {calls : List ToolCallRecord}
    (h : takeUpCalls executionId now db = .ok (calls, db')) : Background db db' := by
  unfold takeUpCalls at h
  simp only [bind_eq_ok, pure_eq_ok, Prod.mk.injEq] at h
  obtain ⟨marked, hfold, -, rfl⟩ := h
  refine foldlM_invariant (I := fun d => Background db d) ?_ (.refl _) hfold
  intro d call d' hcall hd hstep
  rw [List.mem_filter, Db.mem_listToolCalls, decide_eq_true_iff] at hcall
  obtain ⟨⟨hmem, hexec, hstatus⟩, heffect⟩ := hcall
  have hlisted : call ∈ db.listExternalToolCalls executionId unresolvedStatuses :=
    (Db.mem_listExternalToolCalls db).mpr ⟨hmem, hexec, hstatus, heffect⟩
  exact hd.trans (interruptCall_background ⟨rfl, rfl⟩ (.of_background hlisted hd) hstep)

theorem failUnreconcilableLocalTool_background {call : ToolCallRecord} {u : Unit}
    (hlocal : ∀ row, db.getToolCall call.id = some row → row.effect ≠ .externalWrite)
    (h : failUnreconcilableLocalTool call now db = .ok (u, db')) : Background db db' := by
  unfold failUnreconcilableLocalTool at h
  simp only [bind_eq_ok, pure_eq_ok, Prod.mk.injEq] at h
  obtain ⟨db₁, hfail, -, rfl⟩ := h
  exact failLocalCall_background hlocal hfail

end Background

end Assistant
end Matinier
