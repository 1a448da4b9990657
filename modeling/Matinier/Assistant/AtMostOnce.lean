import Mathlib.Data.List.Perm.Basic
import Matinier.Assistant.ExecutorInvariant

/-!
# An external write is called at most once

Requesting a call takes a row that is absent or prepared, and for an external
write a claim that is absent or reserved. Neither status is ever entered again,
so no later request finds the same call, idempotency key or logical action.
-/

namespace Matinier
namespace Assistant

def Flight.action (flight : Flight) : Option (String × String × String) :=
  if flight.tool.spec.effect = .externalWrite then
    flight.context.logicalActionKey.map fun key =>
      (flight.tool.providerName, flight.tool.spec.capability, key)
  else none

/-- The two flights call for different rows, keys and actions. -/
def Flight.Distinct (f g : Flight) : Prop :=
  f.context.toolCallId ≠ g.context.toolCallId ∧
    (f.context.idempotencyKey = none ∨ f.context.idempotencyKey ≠ g.context.idempotencyKey) ∧
    (f.action = none ∨ f.action ≠ g.action)

theorem Flight.Distinct.symm {f g : Flight} (h : f.Distinct g) : g.Distinct f := by
  obtain ⟨hid, hkey, haction⟩ := h
  refine ⟨Ne.symm hid, ?_, ?_⟩
  · rcases hkey with hnone | hne
    · by_cases hg : g.context.idempotencyKey = none
      · exact Or.inl hg
      · exact Or.inr fun heq => hg (heq.trans hnone)
    · exact Or.inr (Ne.symm hne)
  · rcases haction with hnone | hne
    · by_cases hg : g.action = none
      · exact Or.inl hg
      · exact Or.inr fun heq => hg (heq.trans hnone)
    · exact Or.inr (Ne.symm hne)

def Flight.Shown (db : Db) (flight : Flight) : Prop :=
  (∃ call, db.getToolCall flight.context.toolCallId = some call ∧ call.status ≠ .prepared ∧
      call.idempotencyKey = flight.context.idempotencyKey) ∧
    (flight.tool.spec.effect = .externalWrite → ∃ id claim, db.claims.get id = some claim ∧
      claim.status ≠ .reserved ∧ flight.action =
        some (claim.provider, claim.capability, claim.logicalActionKey))

theorem Flight.Shown.onward {db db' : Db} {flight : Flight} (h : flight.Shown db)
    (honward : Onward db db') : flight.Shown db' := by
  obtain ⟨⟨call, hcall, hstatus, hkey⟩, hexternal⟩ := h
  obtain ⟨new, hnew, hsame, hrequested⟩ := honward.calls _ call hcall
  refine ⟨⟨new, hnew, hrequested hstatus, hsame.idempotencyKey.trans hkey⟩, fun heffect => ?_⟩
  obtain ⟨id, claim, hclaim, hreserved, haction⟩ := hexternal heffect
  obtain ⟨k, hk, hsame, htaken⟩ := honward.claims id claim hclaim
  exact ⟨id, k, hk, htaken hreserved, by
    rw [haction, hsame.provider, hsame.capability, hsame.logicalActionKey]⟩

section Request

variable {db db' : Db} {tool : RegisteredTool} {request : ToolInvocation}
  {execution : ExecutionRecord} {flight : Flight} {call : ToolCallRecord}

theorem Requested.shown (h : Requested db db' tool request execution flight call) :
    flight.Shown db' := by
  refine ⟨⟨call, ?_, ?_, h.flightKey.symm⟩, ?_⟩
  · rw [h.flightCall]
    exact h.writes.1
  · simp [h.isRequesting]
  · rw [h.flightTool]
    intro heffect
    obtain ⟨⟨claim, hclaim⟩, -⟩ := h.external heffect
    refine ⟨claim.id, claim, hclaim.writes.1, by simp [hclaim.isRequesting], ?_⟩
    rw [Flight.action, h.flightTool, if_pos heffect, h.flightAction, hclaim.action,
      hclaim.provider, hclaim.capability]
    rfl

/-- A request is for another row, key and action than any earlier one. -/
theorem Requested.distinct (h : Requested db db' tool request execution flight call)
    {f : Flight} (hshown : f.Shown db) : f.Distinct flight := by
  obtain ⟨⟨row, hrow, hstatus, hkey⟩, hexternal⟩ := hshown
  have hrowid : row.id = f.context.toolCallId := Table.key_of_get hrow
  have hid : row.id ≠ call.id := by
    intro heq
    rw [← hrowid, heq] at hrow
    rcases h.before with ⟨hnone, -⟩ | ⟨old, hold, hprepared, -⟩
    · rw [hnone] at hrow
      cases hrow
    · obtain rfl : old = row := Option.some.inj (hold.symm.trans hrow)
      exact hstatus hprepared
  refine ⟨?_, ?_, ?_⟩
  · rw [← hrowid, h.flightCall]
    exact hid
  · -- Both rows stand in the later table, which holds each idempotency key once.
    rw [h.flightKey, ← hkey]
    cases hrowkey : row.idempotencyKey with
    | none => exact Or.inl rfl
    | some key =>
      refine Or.inr fun heq => hid ?_
      have hkept : db'.toolCalls.get row.id = some row :=
        (h.writes.2 row.id hid).trans (hrowid ▸ hrow)
      exact congrArg ToolCallRecord.id (Table.eq_of_unique (Table.mem_of_get hkept)
        (Table.mem_of_get h.writes.1) hrowkey heq.symm)
  · by_cases hf : f.tool.spec.effect = .externalWrite
    · by_cases heffect : tool.spec.effect = .externalWrite
      · obtain ⟨id, old, hold, hreserved, haction⟩ := hexternal hf
        obtain ⟨⟨claim, hclaim⟩, -⟩ := h.external heffect
        obtain rfl : old.id = id := Table.key_of_get hold
        have hclaimid : old.id ≠ claim.id := by
          intro heq
          rw [heq] at hold
          rcases hclaim.before with hnone | ⟨row, hrow, hres, -⟩
          · rw [hnone] at hold
            cases hold
          · obtain rfl : row = old := Option.some.inj (hrow.symm.trans hold)
            exact hreserved hres
        refine Or.inr fun heq => hclaimid ?_
        have hkept : db'.claims.get old.id = some old :=
          (hclaim.writes.2 old.id hclaimid).trans hold
        refine congrArg ClaimRecord.id (Table.eq_of_unique (u := (claim.provider,
          claim.capability, claim.logicalActionKey)) (Table.mem_of_get hkept)
          (Table.mem_of_get hclaim.writes.1) ?_ rfl)
        rw [haction, Flight.action, h.flightTool, if_pos heffect, h.flightAction, hclaim.action,
          ← hclaim.provider, ← hclaim.capability] at heq
        exact heq
      · obtain ⟨id, old, hold, hreserved, haction⟩ := hexternal hf
        rw [haction, Flight.action, h.flightTool, if_neg heffect]
        exact Or.inr nofun
    · rw [Flight.action, if_neg hf]
      exact Or.inl rfl

end Request

namespace ExecutorWorld

variable {cfg : ExecutorConfig} {w w' : ExecutorWorld} {a : ExecutorAction}

/-- The executions requested so far: of those not lost before, some were called already. -/
def issued (w : ExecutorWorld) : List Flight :=
  (w.called ++ w.requested).filter fun f => f.phase = .execute

/-- Every requested execution shows in the database, and no two are for the same thing. -/
def Issued (w : ExecutorWorld) : Prop :=
  (∀ f ∈ w.issued, f.Shown w.db) ∧ w.issued.Pairwise Flight.Distinct

theorem Issued.of_sublist {v : ExecutorWorld} (hw : w.Issued) (hdb : Onward w.db v.db)
    (hsub : v.issued.Sublist w.issued) : v.Issued :=
  ⟨fun f hf => (hw.1 f (hsub.subset hf)).onward hdb, hw.2.sublist hsub⟩

theorem issued_called {i : ℕ} {flight : Flight} (answer : AdapterAnswer)
    (h : w.requested[i]? = some flight) :
    ({ w with
        requested := w.requested.eraseIdx i
        answered := w.answered ++ [(flight, answer)]
        called := w.called ++ [flight] } : ExecutorWorld).issued.Perm w.issued := by
  obtain ⟨hlt, rfl⟩ := List.getElem?_eq_some_iff.mp h
  refine List.Perm.filter _ ?_
  rw [List.append_assoc]
  exact (List.getElem_cons_eraseIdx_perm hlt).append_left w.called

theorem Issued.step (hw : w.Issued) (h : Stepped cfg w a w') : w'.Issued := by
  have honward := h.onward
  cases h with
  | background db h => exact hw.of_sublist honward (List.Sublist.refl _)
  | executed request tool execution flight call db _ h =>
    have happend : ({ w with
        db, requested := w.requested ++ [flight], spent := w.spent ++ spending flight } :
          ExecutorWorld).issued = w.issued ++ [flight] := by
      simp [issued, h.phase]
    rw [Issued, happend]
    refine ⟨fun f hf => ?_, ?_⟩
    · rcases List.mem_append.mp hf with hf | hf
      · exact (hw.1 f hf).onward honward
      · rw [List.mem_singleton.mp hf]
        exact h.shown
    · rw [List.pairwise_append]
      refine ⟨hw.2, List.pairwise_singleton _ _, fun f hf g hg => ?_⟩
      rw [List.mem_singleton.mp hg]
      exact h.distinct (hw.1 f hf)
  | reconciled tool flight call claim db _ h =>
    refine hw.of_sublist honward ?_
    have hphase : flight.phase ≠ .execute := by simp [h.phase]
    simp [issued, hphase]
  | called i flight answer h =>
    have hperm := issued_called answer h
    exact ⟨fun f hf => hw.1 f (hperm.mem_iff.mp hf),
      (hperm.pairwise_iff Flight.Distinct.symm).mpr hw.2⟩
  | persisted i flight answer result call db _ _ h =>
    exact hw.of_sublist honward (List.Sublist.refl _)
  | lost requested answered hrequested _ =>
    exact hw.of_sublist honward ((hrequested.append_left w.called).filter _)

theorem Issued.run {ls : List ExecutorAction} (hw : w.Issued) (h : Run (Steps cfg) w ls w') :
    w'.Issued :=
  h.invariant (fun _ _ _ hi hs => hi.step (stepped_of_next hs)) hw

def CalledOnce (w : ExecutorWorld) : Prop :=
  (∀ id, w.called.countP (fun f => f.phase = .execute ∧ f.context.toolCallId = id) ≤ 1) ∧
    (∀ key, w.called.countP
      (fun f => f.phase = .execute ∧ f.context.idempotencyKey = some key) ≤ 1) ∧
    ∀ provider capability key, w.called.countP (fun f => f.phase = .execute ∧
      f.tool.spec.effect = .externalWrite ∧ f.tool.providerName = provider ∧
      f.tool.spec.capability = capability ∧ f.context.logicalActionKey = some key) ≤ 1

/-- Calls that left `prepared` in `u` and claims that left `reserved` have not come back. -/
def NeverBack (u w : ExecutorWorld) : Prop :=
  (∀ id call, u.db.getToolCall id = some call → call.status ≠ .prepared →
      ∃ new, w.db.getToolCall id = some new ∧ new.status ≠ .prepared) ∧
    ∀ id claim, u.db.claims.get id = some claim → claim.status ≠ .reserved →
      ∃ new, w.db.claims.get id = some new ∧ new.status ≠ .reserved

theorem Issued.calledOnce (hw : w.Issued) : w.CalledOnce := by
  have hcalled : (w.called.filter fun f => f.phase = .execute).Pairwise Flight.Distinct := by
    have hall := hw.2
    rw [issued, List.filter_append, List.pairwise_append] at hall
    exact hall.1
  -- A condition that no two distinct flights meet together is met once at most.
  have honce : ∀ p : Flight → Bool, (∀ f g, p f = true → p g = true → ¬ f.Distinct g) →
      w.called.countP (fun f => f.phase = .execute ∧ p f) ≤ 1 := by
    intro p hp
    have hsplit : w.called.countP (fun f => f.phase = .execute ∧ p f) =
        (w.called.filter fun f => f.phase = .execute).countP p := by
      rw [List.countP_filter]
      refine List.countP_congr fun f _ => ?_
      simp [and_comm]
    rw [hsplit]
    exact countP_le_one hcalled hp
  refine ⟨fun id => ?_, fun key => ?_, fun provider capability key => ?_⟩
  · exact le_of_eq_of_le (by simp) (honce (fun f => f.context.toolCallId = id) fun f g hf hg h =>
      h.1 ((of_decide_eq_true hf).trans (of_decide_eq_true hg).symm))
  · refine le_of_eq_of_le (by simp) (honce (fun f => f.context.idempotencyKey = some key)
      fun f g hf hg h => ?_)
    rcases h.2.1 with hnone | hne
    · rw [of_decide_eq_true hf] at hnone
      cases hnone
    · exact hne ((of_decide_eq_true hf).trans (of_decide_eq_true hg).symm)
  · have haction : ∀ f : Flight, (f.tool.spec.effect = .externalWrite ∧
        f.tool.providerName = provider ∧ f.tool.spec.capability = capability ∧
        f.context.logicalActionKey = some key) → f.action = some (provider, capability, key) := by
      rintro f ⟨heffect, rfl, rfl, hkey⟩
      rw [Flight.action, if_pos heffect, hkey]
      rfl
    refine le_of_eq_of_le (by simp) (honce (fun f => f.tool.spec.effect = .externalWrite ∧
      f.tool.providerName = provider ∧ f.tool.spec.capability = capability ∧
      f.context.logicalActionKey = some key) fun f g hf hg h => ?_)
    have hfa := haction f (of_decide_eq_true hf)
    rcases h.2.2 with hnone | hne
    · rw [hfa] at hnone
      cases hnone
    · exact hne (hfa.trans (haction g (of_decide_eq_true hg)).symm)

/-- However the calls interleave, crash and recover, nothing is executed twice and nothing
that was requested can be requested again. -/
theorem run_calledOnce {u : ExecutorWorld} {ls ms : List ExecutorAction} (hidle : w.Idle)
    (hbefore : Run (Steps cfg) w ls u) (hafter : Run (Steps cfg) u ms w') :
    w'.CalledOnce ∧ NeverBack u w' := by
  obtain ⟨hrequested, -, hcalled, -⟩ := hidle
  have hissued : w.Issued := by simp [Issued, issued, hrequested, hcalled]
  refine ⟨((hissued.run hbefore).run hafter).calledOnce, ?_⟩
  have honward := onward_run hafter
  refine ⟨fun id call hcall hstatus => ?_, fun id claim hclaim hstatus => ?_⟩
  · obtain ⟨new, hnew, -, hrequested⟩ := honward.calls id call hcall
    exact ⟨new, hnew, hrequested hstatus⟩
  · obtain ⟨new, hnew, -, htaken⟩ := honward.claims id claim hclaim
    exact ⟨new, hnew, htaken hstatus⟩

/-- The task is filed, and then the same request is made twice more, over a crash. -/
theorem filedAgain_calledOnce :
    ∃ w u, Run (Steps fileTaskConfig) (filingWorld (some 1)) (fileTaskTrace none
        (.success (.obj []))) u ∧ Run (Steps fileTaskConfig) u
        [.execute (fileTaskInput none), .crash, .execute (fileTaskInput none)] w ∧
      w.called.length = 1 ∧ w.CalledOnce ∧ NeverBack u w := by
  have hbefore := run_to_get (fun w a => next fileTaskConfig w a)
    (fileTaskTrace none (.success (.obj []))) (filingWorld (some 1)) (by decide)
  have hafter := run_to_get (fun w a => next fileTaskConfig w a)
    [.execute (fileTaskInput none), .crash, .execute (fileTaskInput none)]
    ((follow (fun w a => next fileTaskConfig w a) (fileTaskTrace none
      (.success (.obj []))) (filingWorld (some 1))).get (by decide)) (by decide)
  exact ⟨_, _, hbefore, hafter, by decide, run_calledOnce ⟨rfl, rfl, rfl, rfl⟩ hbefore hafter⟩

end ExecutorWorld

end Assistant
end Matinier
