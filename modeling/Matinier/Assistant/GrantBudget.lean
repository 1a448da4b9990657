import Matinier.Assistant.ExecutorInvariant

/-!
# The budget of a grant

A side effect is consumed from the grant an invocation resolves to, and given
back to the grant its execution has when the outcome is persisted. Where these
are the same grant, what a grant shows as used is the number of external writes
that consumed it and are not confirmed to have had no effect.
-/

namespace Matinier
namespace Assistant

theorem effects_neZero : NeZero 2 := inferInstance

attribute [local instance] effects_neZero in
/-- The stored outcome of the call confirms that it had no side effect. -/
def ConfirmedNone (db : Db) (id : ToolCallId) : Prop :=
  ∃ call ∈ db.getToolCall id, ∃ result ∈ call.result, result.confirmedSideEffects = some 0

instance (db : Db) (id : ToolCallId) : Decidable (ConfirmedNone db id) :=
  inferInstanceAs (Decidable (∃ _ ∈ _, _))

theorem confirmedNone_congr {db db' : Db} {id : ToolCallId} {call new : ToolCallRecord}
    (hcall : db.getToolCall id = some call) (hnew : db'.getToolCall id = some new)
    (h : new.result = call.result) : ConfirmedNone db' id ↔ ConfirmedNone db id := by
  simp [ConfirmedNone, hcall, hnew, h]

/-- The answered flight whose result an action persists. -/
def ExecutorAction.persisting : ExecutorAction → Option ℕ
  | .persist i _ => some i
  | _ => none

namespace ExecutorWorld

variable {cfg : ExecutorConfig} {w w' : ExecutorWorld} {a : ExecutorAction}

/-- The calls that consumed a side effect of the grant and may have had one. -/
def charged (w : ExecutorWorld) (grant : GrantId) : List ToolCallId :=
  (w.spent.filter fun p => p.2 = grant ∧ ¬ ConfirmedNone w.db p.1).map Prod.fst

/-- Every grant has as much used as external writes are charged to it, each of them once,
and never more than its maximum. -/
def Conserved (w : ExecutorWorld) : Prop :=
  ∀ id grant, w.db.getGrant id = some grant →
    grant.usedSideEffects = (w.charged id).length ∧ (w.charged id).Nodup ∧
      (∀ call ∈ w.charged id, ∃ row, w.db.getToolCall call = some row ∧
        row.effect = .externalWrite) ∧
      (w.charged id).length ≤ grant.maxSideEffects

def Unused (w : ExecutorWorld) : Prop :=
  w.Initial ∧ ∀ id grant, w.db.getGrant id = some grant → grant.usedSideEffects = 0

/-- What accounts for every grant: who consumed what, and which outcomes are stored. -/
structure Accounted (cfg : ExecutorConfig) (w : ExecutorWorld) : Prop where
  known : Known cfg w
  spent : ∀ p ∈ w.spent, ∃ call, w.db.getToolCall p.1 = some call ∧
    call.effect = .externalWrite ∧ call.status ≠ .prepared
  once : (w.spent.map Prod.fst).Nodup
  paid : ∀ id call, w.db.getToolCall id = some call → call.effect = .externalWrite →
    call.status ≠ .prepared → ∃ grant, (id, grant) ∈ w.spent
  granted : ∀ p ∈ w.spent, ∃ grant, w.db.getGrant p.2 = some grant
  unsettled : Unsettled w.db
  used : ∀ id grant, w.db.getGrant id = some grant →
    grant.usedSideEffects = (w.charged id).length ∧ grant.usedSideEffects ≤ grant.maxSideEffects

theorem charged_length (w : ExecutorWorld) (grant : GrantId) :
    (w.charged grant).length =
      w.spent.countP fun p => p.2 = grant ∧ ¬ ConfirmedNone w.db p.1 := by
  rw [charged, List.length_map, List.countP_eq_length_filter]

theorem charged_congr (hspent : w'.spent = w.spent)
    (h : ∀ p ∈ w.spent, ConfirmedNone w'.db p.1 ↔ ConfirmedNone w.db p.1) (grant : GrantId) :
    w'.charged grant = w.charged grant := by
  rw [charged, charged, hspent]
  congr 1
  refine List.filter_congr fun p hp => ?_
  simp only [h p hp]

theorem Accounted.conserved (hw : Accounted cfg w) : w.Conserved := by
  intro id grant hgrant
  obtain ⟨hused, hmax⟩ := hw.used id grant hgrant
  refine ⟨hused, ?_, ?_, hused ▸ hmax⟩
  · exact hw.once.sublist (List.filter_sublist.map Prod.fst)
  · intro call hcall
    obtain ⟨p, hp, rfl⟩ := List.mem_map.mp hcall
    obtain ⟨row, hrow, heffect, -⟩ := hw.spent p (List.mem_of_mem_filter hp)
    exact ⟨row, hrow, heffect⟩

theorem Unused.accounted (hw : w.Unused) : Accounted cfg w := by
  obtain ⟨hinitial, hunused⟩ := hw
  have hspent : w.spent = [] := hinitial.idle.2.2.2
  refine ⟨hinitial.known, by simp [hspent], by simp [hspent], fun id call h => ?_,
    by simp [hspent], fun id call h => ?_, fun id grant hgrant => ?_⟩
  · rw [hinitial.no_calls] at h
    cases h
  · rw [hinitial.no_calls] at h
    cases h
  · rw [hunused id grant hgrant]
    simp [charged, hspent]

theorem Accounted.keep (hw : Accounted cfg w) (hknown : Known cfg w')
    (hunsettled : Unsettled w'.db) (hspent : w'.spent = w.spent) (honward : Onward w.db w'.db)
    (hback : ∀ id new, w'.db.getToolCall id = some new → new.effect = .externalWrite →
      new.status ≠ .prepared → ∃ old, w.db.getToolCall id = some old ∧
        old.effect = .externalWrite ∧ old.status ≠ .prepared)
    (hgrants : ∀ id grant, w.db.getGrant id = some grant →
      ∃ new, w'.db.getGrant id = some new)
    (hused : ∀ id grant, w'.db.getGrant id = some grant → grant.usedSideEffects =
      (w'.charged id).length ∧ grant.usedSideEffects ≤ grant.maxSideEffects) :
    Accounted cfg w' := by
  refine ⟨hknown, fun p hp => ?_, by rw [hspent]; exact hw.once, fun id new hnew he hs => ?_,
    fun p hp => ?_, hunsettled, hused⟩
  · rw [hspent] at hp
    obtain ⟨call, hcall, heffect, hstatus⟩ := hw.spent p hp
    obtain ⟨new, hnew, hsame, hrequested⟩ := honward.calls _ call hcall
    exact ⟨new, hnew, hsame.effect.trans heffect, hrequested hstatus⟩
  · obtain ⟨old, hold, heffect, hstatus⟩ := hback id new hnew he hs
    rw [hspent]
    exact hw.paid id old hold heffect hstatus
  · rw [hspent] at hp
    obtain ⟨grant, hgrant⟩ := hw.granted p hp
    exact hgrants p.2 grant hgrant

/-- The usage stays right where the budgets are kept and the same calls are charged. -/
theorem Accounted.used_kept (hw : Accounted cfg w) (hbudgets : BudgetsKept w.db w'.db)
    (hcharged : ∀ id, w'.charged id = w.charged id) (id : GrantId) (grant : GrantRecord)
    (hgrant : w'.db.getGrant id = some grant) : grant.usedSideEffects =
      (w'.charged id).length ∧ grant.usedSideEffects ≤ grant.maxSideEffects := by
  rw [hcharged]
  cases hold : w.db.getGrant id with
  | none =>
    have hzero := hbudgets.fresh id grant hgrant hold
    have hempty : (w.charged id).length = 0 := by
      rw [charged_length, List.countP_eq_zero]
      intro p hp hcond
      obtain ⟨row, hrow⟩ := hw.granted p hp
      obtain ⟨rfl, -⟩ := of_decide_eq_true hcond
      rw [hrow] at hold
      cases hold
    omega
  | some old =>
    obtain ⟨new, hnew, hused, hmax⟩ := hbudgets.kept id old hold
    obtain rfl : new = grant := Option.some.inj (hnew.symm.trans hgrant)
    rw [hused, hmax]
    exact hw.used id old hold

theorem Accounted.background {db : Db} (hw : Accounted cfg w) (h : Background w.db db)
    (hknown : Known cfg { w with db }) : Accounted cfg { w with db } := by
  have honward := Onward.of_background h
  refine hw.keep hknown (hw.unsettled.background h) rfl honward (fun id new hnew he hs => ?_)
    (fun id grant hgrant => (h.budgets.kept id grant hgrant).imp fun _ hnew => hnew.1)
    (hw.used_kept h.budgets (charged_congr rfl fun p hp => ?_))
  · cases hold : w.db.getToolCall id with
    | none =>
      rw [h.absent id hold] at hnew
      cases hnew
    | some old =>
      obtain ⟨row, hrow, hmoved⟩ := h.moved id old hold
      obtain rfl : row = new := Option.some.inj (hrow.symm.trans hnew)
      have heffect : old.effect = .externalWrite := hmoved.same.effect ▸ he
      exact ⟨old, rfl, heffect, fun hprepared => hs ((hmoved.prepared_iff heffect).mpr hprepared)⟩
  · obtain ⟨call, hcall, heffect, -⟩ := hw.spent p hp
    obtain ⟨new, hnew, hmoved⟩ := h.moved _ call hcall
    refine confirmedNone_congr hcall hnew ?_
    cases hmoved with
    | kept _ _ hresult => exact hresult
    | takenUp _ _ _ _ hresult => exact hresult
    | failed _ hinternal => exact absurd heffect hinternal

theorem Accounted.reconciled {db : Db} {tool : RegisteredTool} {flight : Flight}
    {call : ToolCallRecord} {claim : Option ClaimRecord} {requested : List Flight}
    (hw : Accounted cfg w) (h : ReconcileRequested w.db db tool flight call claim)
    (hknown : Known cfg { w with db, requested }) :
    Accounted cfg { w with db, requested } := by
  obtain ⟨now, hwrites⟩ := h.writes
  have hgrants : db.grants = w.db.grants := by rw [h.rest]
  refine hw.keep hknown (hw.unsettled.reconcileRequested h) rfl h.onward
    (fun id new hnew he hs => ?_) (fun id grant hgrant => ⟨grant, ?_⟩)
    (hw.used_kept (.of_eq hgrants) (charged_congr rfl fun p hp => ?_))
  · change db.toolCalls.get id = some new at hnew
    rw [hwrites.get] at hnew
    split_ifs at hnew with hid
    · cases hnew
      refine ⟨call, by rw [hid]; exact h.found, he, fun hprepared => ?_⟩
      have hopen := h.open'
      rw [hprepared] at hopen
      exact absurd hopen (by decide)
    · exact ⟨new, hnew, he, hs⟩
  · change db.grants.get id = some grant
    rw [hgrants]
    exact hgrant
  · obtain ⟨row, hrow, -, -⟩ := hw.spent p hp
    by_cases hid : p.1 = call.id
    · rw [hid] at hrow ⊢
      obtain rfl : call = row := Option.some.inj (h.found.symm.trans hrow)
      exact confirmedNone_congr hrow hwrites.1 rfl
    · exact confirmedNone_congr hrow ((hwrites.2 p.1 hid).trans hrow) rfl

theorem Accounted.not_spent {db : Db} {tool : RegisteredTool} {request : ToolInvocation}
    {execution : ExecutionRecord} {flight : Flight} {call : ToolCallRecord}
    (hw : Accounted cfg w) (h : Requested w.db db tool request execution flight call) :
    ∀ p ∈ w.spent, p.1 ≠ call.id := by
  intro p hp heq
  obtain ⟨row, hrow, -, hstatus⟩ := hw.spent p hp
  rw [heq] at hrow
  rcases h.before with ⟨hnone, -⟩ | ⟨old, hold, hprepared, -⟩
  · rw [hnone] at hrow
    cases hrow
  · obtain rfl : old = row := Option.some.inj (hold.symm.trans hrow)
    exact hstatus hprepared

/-- A request changes no confirmation of an earlier call, and its own outcome is open. -/
theorem Accounted.confirmed_requested {db : Db} {tool : RegisteredTool}
    {request : ToolInvocation} {execution : ExecutionRecord} {flight : Flight}
    {call : ToolCallRecord} (hw : Accounted cfg w)
    (h : Requested w.db db tool request execution flight call) :
    (∀ p ∈ w.spent, ConfirmedNone db p.1 ↔ ConfirmedNone w.db p.1) ∧
      ¬ ConfirmedNone db call.id := by
  refine ⟨fun p hp => ?_, ?_⟩
  · obtain ⟨row, hrow, -⟩ := hw.spent p hp
    exact confirmedNone_congr hrow ((h.writes.2 p.1 (hw.not_spent h p hp)).trans hrow) rfl
  · rintro ⟨row, hrow, result, hresult, hconfirmed⟩
    obtain rfl : call = row := Option.some.inj (h.writes.1.symm.trans hrow)
    have hopen := (hw.unsettled.requested h) call.id call hrow (by rw [h.isRequesting]; rfl)
      result hresult
    rcases ToolResult.settled_of_confirmed hconfirmed with hs | hs <;> simp [hs] at hopen

theorem Accounted.executed {db : Db} {tool : RegisteredTool} {request : ToolInvocation}
    {execution : ExecutionRecord} {flight : Flight} {call : ToolCallRecord}
    {requested : List Flight} (hw : Accounted cfg w)
    (h : Requested w.db db tool request execution flight call)
    (hknown : Known cfg
      { w with db, requested, spent := w.spent ++ spending flight }) :
    Accounted cfg { w with db, requested, spent := w.spent ++ spending flight } := by
  have heffect : call.effect = tool.spec.effect := h.identity.2.2.2.1
  obtain ⟨hconfirmed, hopen⟩ := hw.confirmed_requested h
  by_cases hexternal : tool.spec.effect = .externalWrite
  · obtain ⟨-, granted, hgranted, -, old, new, hold, hid, hwrites, hused, hmax, hle⟩ :=
      h.external hexternal
    have hspending : spending flight = [(call.id, granted.record.id)] := by
      simp [spending, h.flightTool, hexternal, hgranted, h.flightCall]
    rw [hspending] at hknown ⊢
    refine ⟨hknown, fun p hp => ?_, ?_, fun id row hrow he hs => ?_, fun p hp => ?_,
      hw.unsettled.requested h, fun id grant hgrant => ?_⟩
    · rcases List.mem_append.mp hp with hp | hp
      · obtain ⟨row, hrow, he, hs⟩ := hw.spent p hp
        exact ⟨row, (h.writes.2 p.1 (hw.not_spent h p hp)).trans hrow, he, hs⟩
      · rw [List.mem_singleton.mp hp]
        exact ⟨call, h.writes.1, heffect.trans hexternal, by simp [h.isRequesting]⟩
    · rw [List.map_append, List.nodup_append]
      refine ⟨hw.once, List.nodup_singleton _, ?_⟩
      intro id hid' id' hid'' heq
      obtain ⟨p, hp, rfl⟩ := List.mem_map.mp hid'
      exact hw.not_spent h p hp (heq.trans (List.mem_singleton.mp hid''))
    · change db.toolCalls.get id = some row at hrow
      rw [h.writes.get] at hrow
      split_ifs at hrow with hid'
      · exact ⟨granted.record.id,
          List.mem_append_right _ (by rw [hid']; exact List.mem_singleton_self _)⟩
      · exact (hw.paid id row hrow he hs).imp fun _ hp => List.mem_append_left _ hp
    · change ∃ grant, db.grants.get p.2 = some grant
      rw [hwrites.get]
      split_ifs with hid'
      · exact ⟨new, rfl⟩
      · rcases List.mem_append.mp hp with hp | hp
        · exact hw.granted p hp
        · rw [List.mem_singleton.mp hp, ← hid] at hid'
          exact absurd rfl hid'
    · have hlength : (charged { w with
          db, requested, spent := w.spent ++ [(call.id, granted.record.id)] } id).length =
          (w.charged id).length + if granted.record.id = id then 1 else 0 := by
        rw [charged_length, charged_length, List.countP_append]
        congr 1
        · refine List.countP_congr fun p hp => ?_
          simp only [hconfirmed p hp]
        · split_ifs with hid' <;> simp [hopen, hid']
      rw [hlength]
      change db.grants.get id = some grant at hgrant
      rw [hwrites.get] at hgrant
      split_ifs at hgrant with hid'
      · cases hgrant
        obtain rfl : id = granted.record.id := hid'.trans hid
        rw [if_pos rfl, hused, (hw.used _ old hold).1]
        rw [hused, (hw.used _ old hold).1] at hle
        exact ⟨rfl, hle⟩
      · rw [if_neg fun heq => hid' (heq.symm.trans hid.symm)]
        exact hw.used id grant hgrant
  · obtain ⟨-, -, hgrants⟩ := h.internal hexternal
    have hspending : spending flight = [] := by
      simp [spending, h.flightTool, hexternal]
    rw [hspending, List.append_nil] at hknown ⊢
    refine hw.keep hknown (hw.unsettled.requested h) rfl h.onward (fun id row hrow he hs => ?_)
      (fun id grant hgrant => ⟨grant, ?_⟩)
      (hw.used_kept (.of_eq hgrants) (charged_congr rfl hconfirmed))
    · change db.toolCalls.get id = some row at hrow
      rw [h.writes.get] at hrow
      split_ifs at hrow
      · cases hrow
        exact absurd (heffect.symm.trans he) hexternal
      · exact ⟨row, hrow, he, hs⟩
    · change db.grants.get id = some grant
      rw [hgrants]
      exact hgrant

/-- Where the answer confirms that a write under way had no effect, its execution still has
the grant the write consumed. -/
def SameGrant (w : ExecutorWorld) (a : ExecutorAction) : Prop :=
  ∀ i ∈ a.persisting, ∀ p ∈ w.answered[i]?, ∀ result ∈ (adapterResult p.1 p.2).toOption,
    Unspent p.1 result → ∀ call ∈ w.db.getToolCall p.1.context.toolCallId,
      call.status.isTerminal = false →
        ∀ execution ∈ w.db.getExecution p.1.context.executionId,
          ∀ q ∈ w.spent, q.1 = p.1.context.toolCallId → execution.grantId = some q.2

instance (w : ExecutorWorld) (a : ExecutorAction) : Decidable (w.SameGrant a) :=
  inferInstanceAs (Decidable (∀ i ∈ a.persisting, _))

theorem Accounted.persisted {db : Db} {i : ℕ} {now : Instant} {flight : Flight}
    {answer : AdapterAnswer} {result : ToolResult} {call : ToolCallRecord}
    (hw : Accounted cfg w) (hgrant : w.SameGrant (.persist i now))
    (hi : w.answered[i]? = some (flight, answer))
      (hresult : adapterResult flight answer = .ok result)
    (h : Persisted w.db db flight result call)
    (hknown : Known cfg { w with db, answered := w.answered.eraseIdx i }) :
    Accounted cfg { w with db, answered := w.answered.eraseIdx i } := by
  obtain ⟨now', hwrites⟩ := h.writes
  have hid : call.id = flight.context.toolCallId := Table.key_of_get h.found
  have hget : w.db.getToolCall call.id = some call := hid ▸ h.found
  obtain ⟨row, hrow, hrequested, -, -, heffect, -⟩ :=
    (hw.known.flights flight (List.mem_append_right _ (List.mem_map_of_mem
      (List.mem_of_getElem? hi)))).call
  obtain rfl : call = row := Option.some.inj (h.found.symm.trans hrow)
  have hother : ∀ p ∈ w.spent, p.1 ≠ call.id →
      (ConfirmedNone db p.1 ↔ ConfirmedNone w.db p.1) := by
    intro p hp hne
    obtain ⟨row, hrow, -⟩ := hw.spent p hp
    exact confirmedNone_congr hrow ((hwrites.2 p.1 hne).trans hrow) rfl
  have hopen : ¬ ConfirmedNone w.db call.id := by
    rintro ⟨row, hrow, stored, hstored, hconfirmed⟩
    obtain rfl : call = row := Option.some.inj (hget.symm.trans hrow)
    have hunsettled := hw.unsettled call.id call hrow h.live stored hstored
    rcases ToolResult.settled_of_confirmed hconfirmed with hs | hs <;> simp [hs] at hunsettled
  have hafter : ConfirmedNone db call.id ↔ result.confirmedSideEffects = some 0 := by
    have hnew : db.getToolCall call.id = some (call.updated (resultUpdate result now')) :=
      hwrites.1
    simp [ConfirmedNone, hnew, ToolCallRecord.updated, resultUpdate]
  have hback : ∀ id new, db.getToolCall id = some new → new.effect = .externalWrite →
      new.status ≠ .prepared → ∃ old, w.db.getToolCall id = some old ∧
        old.effect = .externalWrite ∧ old.status ≠ .prepared := by
    intro id new hnew he hs
    rw [Db.getToolCall, hwrites.get] at hnew
    split_ifs at hnew with hid'
    · cases hnew
      exact ⟨call, by rw [hid']; exact hget, he, hrequested⟩
    · exact ⟨new, hnew, he, hs⟩
  rcases h.grants with ⟨hspent, hgrants⟩ | ⟨hunspent, execution, hexec, hrelease⟩
  · -- Nothing is given back: the outcome may have had an effect, or no grant was consumed.
    refine hw.keep hknown (hw.unsettled.persisted h) rfl h.onward hback
      (fun id grant hgrant => ⟨grant, ?_⟩)
      (hw.used_kept (.of_eq hgrants) (charged_congr rfl fun p hp => ?_))
    · change db.grants.get id = some grant
      rw [hgrants]
      exact hgrant
    · by_cases hp' : p.1 = call.id
      · obtain ⟨row, hrow, he, -⟩ := hw.spent p hp
        rw [hp', hget] at hrow
        cases hrow
        rw [hp', hafter]
        exact ⟨fun hzero => absurd ⟨heffect.symm.trans he, hzero⟩ hspent, fun hc => absurd hc hopen⟩
      · exact hother p hp hp'
  · obtain ⟨spentGrant, hpaid⟩ := hw.paid call.id call hget (heffect.trans hunspent.1) hrequested
    have hsame := hgrant i rfl (flight, answer) hi result (by rw [hresult]; rfl) hunspent call
      h.found h.live execution hexec (call.id, spentGrant) hpaid hid
    rcases hrelease with ⟨hnone, -⟩ | ⟨grant, now'', hg, hold, hreleasable, hgwrites⟩
    · rw [hnone] at hsame
      cases hsame
    obtain rfl : grant.id = spentGrant := Option.some.inj (hg.symm.trans hsame)
    have hlength : (charged { w with db, answered := w.answered.eraseIdx i } grant.id).length + 1 =
        (w.charged grant.id).length := by
      rw [charged_length, charged_length]
      refine countP_drop_one hw.once hpaid (by simp [hopen]) (by simp [hafter, hunspent.2]) ?_
      intro p hp hne
      simp only [hother p hp hne]
    refine hw.keep hknown (hw.unsettled.persisted h) rfl h.onward hback (fun id row hrow => ?_)
      (fun id row hrow => ?_)
    · change ∃ new, db.grants.get id = some new
      rw [hgwrites.get]
      split_ifs
      · exact ⟨_, rfl⟩
      · exact ⟨row, hrow⟩
    · change db.grants.get id = some row at hrow
      rw [hgwrites.get] at hrow
      split_ifs at hrow with hid'
      · cases hrow
        obtain rfl : id = grant.id := hid'
        obtain ⟨hused, hmax⟩ := hw.used grant.id grant hold
        simp only [GrantRecord.released]
        omega
      · have hcharged : charged { w with db, answered := w.answered.eraseIdx i } id =
          w.charged id := by
          rw [charged, charged]
          congr 1
          refine List.filter_congr fun p hp => ?_
          by_cases hp' : p.1 = call.id
          · -- The call is charged to its own grant only.
            have hgrant' : p = (call.id, grant.id) :=
              List.inj_on_of_nodup_map hw.once hp hpaid hp'
            have hne : grant.id ≠ id := fun heq => hid' heq.symm
            simp [hgrant', hne]
          · simp only [hother p hp hp']
        rw [hcharged]
        exact hw.used id row hrow

theorem Accounted.step (hw : Accounted cfg w) (hgrant : w.SameGrant a)
    (h : Stepped cfg w a w') : Accounted cfg w' := by
  have hknown := hw.known.step h
  cases h with
  | background db h => exact hw.background h hknown
  | executed request tool execution flight call db _ h => exact hw.executed h hknown
  | reconciled tool flight call claim db _ h => exact hw.reconciled h hknown
  | called => exact ⟨hknown, hw.spent, hw.once, hw.paid, hw.granted, hw.unsettled, hw.used⟩
  | persisted i flight answer result call db hi hresult h =>
    exact hw.persisted hgrant hi hresult h hknown
  | lost => exact ⟨hknown, hw.spent, hw.once, hw.paid, hw.granted, hw.unsettled, hw.used⟩

/-- Where every write that turns out to have had no effect is given back to the grant it
consumed, every grant is conserved. -/
theorem run_conserved {ls : List ExecutorAction} (hw : w.Unused)
    (h : Run (Under SameGrant (Steps cfg)) w ls w') : w'.Conserved :=
  by
  have hstart : Accounted cfg w := hw.accounted
  exact (h.invariant (fun _ _ _ hi hs => hi.step hs.1 (stepped_of_next hs.2)) hstart).conserved

theorem filingWorld_unused (grantId : Option GrantId) : (filingWorld grantId).Unused := by
  refine ⟨filingWorld_initial grantId, fun id grant hgrant => ?_⟩
  have hmem : grant ∈ [fileTaskGrant] := Table.mem_of_get hgrant
  rw [List.mem_singleton.mp hmem]
  rfl

/-- A task is filed under the grant of its execution, and the tracker refuses it. -/
theorem refusedTask_conserved :
    ∃ w', Run (Under SameGrant (Steps fileTaskConfig)) (filingWorld (some 1))
      (fileTaskTrace none (.failure "refused" "The tracker refused." none (some 0))) w' ∧
      (w'.db.getGrant 1).map GrantRecord.usedSideEffects = some 0 ∧ w'.Conserved := by
  have hrun := run_under_to_get SameGrant (fun w a => next fileTaskConfig w a)
    (fileTaskTrace none (.failure "refused" "The tracker refused." none (some 0)))
    (filingWorld (some 1)) (by decide)
  exact ⟨_, hrun, by decide, run_conserved (filingWorld_unused (some 1)) hrun⟩

/-- The task is filed under a grant of its own, while its execution has none: when the tracker
refuses it, the grant keeps a side effect that no call is charged for. -/
theorem not_conserved_under_own_grant :
    ∃ w', Run (Steps fileTaskConfig) (filingWorld none)
      (fileTaskTrace (some 1) (.failure "refused" "The tracker refused." none (some 0))) w' ∧
      (filingWorld none).Unused ∧ ¬ w'.Conserved := by
  have hrun := run_to_get (fun w a => next fileTaskConfig w a)
    (fileTaskTrace (some 1) (.failure "refused" "The tracker refused." none (some 0)))
    (filingWorld none) (by decide)
  refine ⟨_, hrun, filingWorld_unused none, fun hconserved => ?_⟩
  have husage := hconserved 1 ((follow (fun w a => next fileTaskConfig w a)
    (fileTaskTrace (some 1) (.failure "refused" "The tracker refused." none (some 0)))
    (filingWorld none)).get (by decide) |>.db.getGrant 1 |>.get (by decide))
      (Option.some_get _).symm
  exact absurd husage.1 (by decide)

end ExecutorWorld

end Assistant
end Matinier
