import Matinier.Assistant.RecoverySpec
import Matinier.Assistant.ExecutorInvariant

/-!
# Startup recovery is safe and idempotent

Recovery returns whatever state a crash left behind. It asks for input on behalf
of an execution, or enqueues it with all its open external calls taken up for
reconciliation; such a state is one that a second recovery leaves as it is.
-/

namespace Matinier
namespace Assistant

/-- The execution is an action run under way. -/
def ActiveRun (db : Db) (k : ExecutionId) : Prop :=
  ∃ e, db.getExecution k = some e ∧ e.profile = .actionRun ∧ e.status ∈ activeStatuses

/-- No execution under the identifier is under way. -/
def Inactive (db : Db) (k : ExecutionId) : Prop :=
  ∀ e, db.getExecution k = some e → e.status ∉ activeStatuses

/-- The claim has the call it was made for. -/
def Matched (db : Db) (claim : ClaimRecord) : Prop :=
  ∃ call ∈ claim.toolCallId.bind db.getToolCall, ClaimMatches claim call

theorem actionRun_of_active {e : ExecutionRecord} (h : e.status ∈ activeStatuses) :
    e.profile = .actionRun := by
  have hdeclared := e.statusDeclared
  revert h hdeclared
  cases e.profile <;> cases e.status <;> decide

theorem Inactive.of_not_activeRun {db : Db} {k : ExecutionId} (h : ¬ ActiveRun db k) :
    Inactive db k :=
  fun e he hactive => h ⟨e, he, actionRun_of_active hactive, hactive⟩

theorem Waiting.inactive {db : Db} {k : ExecutionId} (h : Waiting db k) : Inactive db k := by
  obtain ⟨e, he, -, hstatus⟩ := h
  intro row hrow
  obtain rfl : e = row := Option.some.inj (he.symm.trans hrow)
  rw [hstatus]
  decide

section Durable

variable {cfg : RecoveryConfig} (now : Instant) {db : Db}

def openClaimStatuses : List ClaimStatus := [.reserved, .requesting, .unknown]

/-- What isolating orphans leaves: executions as they were, or waiting for input. -/
structure Inspected (db : Db) (s : RecoveryState) : Prop where
  toolCalls : s.db.toolCalls = db.toolCalls
  background : Background db s.db
  readOnly : s.readOnly = []
  executions : ∀ k, s.db.getExecution k = db.getExecution k ∧ k ∉ s.orphans ∨
    Waiting s.db k ∧ k ∈ s.orphans ∧ ActiveRun db k

theorem isolateOrphan_ok {s : RecoveryState} (hs : Inspected db s) (claim : ClaimRecord) :
    ∃ s', isolateOrphan now s claim = .ok s' ∧ Inspected db s' ∧
      (Matched s'.db claim ∨ Inactive s'.db claim.holderExecutionId) ∧
      ∀ x : ClaimRecord, Matched s.db x ∨ Inactive s.db x.holderExecutionId →
        Matched s'.db x ∨ Inactive s'.db x.holderExecutionId := by
  by_cases hmatched : Matched s.db claim
  · refine ⟨s, ?_, hs, Or.inl hmatched, fun _ h => h⟩
    unfold isolateOrphan
    exact if_pos hmatched
  have hunmatched : ¬ ∃ call ∈ claim.toolCallId.bind s.db.getToolCall, ClaimMatches claim call :=
    hmatched
  by_cases hactive : ActiveRun s.db claim.holderExecutionId
  · obtain ⟨e, he, hprofile, hstatus⟩ := hactive
    have hid : e.id = claim.holderExecutionId := Table.key_of_get he
    have hcur : s.db.CurrentRun e := ⟨hid.symm ▸ he, hprofile⟩
    obtain ⟨⟨moved, db'⟩, hmove, hmid, hmstatus, hmcur, hmoves⟩ :=
      moveToNeedsInput_ok now "orphan_external_action_claim" orphanQuestion hcur hstatus
    simp only at hmid hmstatus hmcur hmoves
    have hok : isolateOrphan now s claim =
        .ok { s with db := db', orphans := s.orphans ++ [moved.id] } := by
      unfold isolateOrphan
      rw [if_neg hunmatched, he]
      simp only
      rw [if_neg (not_not.mpr hstatus)]
      simp only [bind_eq_ok, pure_eq_ok, Prod.exists]
      exact ⟨moved, db', hmove, rfl⟩
    have hwaits : Waiting db' e.id := ⟨moved, hmid ▸ hmcur.1, hmcur.2, hmstatus⟩
    have hcalls : db'.toolCalls = s.db.toolCalls := by rw [hmoves.rest]
    refine ⟨_, hok, ⟨hcalls.trans hs.toolCalls,
      hs.background.trans (isolateOrphan_background hok), hs.readOnly, fun k => ?_⟩,
      Or.inr (hid ▸ hwaits.inactive), fun x hx => hx.imp (fun hm => ?_) (fun hi => ?_)⟩
    · by_cases hk : k = e.id
      · refine Or.inr ⟨hk ▸ hwaits, ?_, ?_⟩
        · rw [hk, ← hmid]
          exact List.mem_append_right _ (List.mem_singleton_self _)
        · rcases hs.executions k with ⟨hsame, -⟩ | ⟨-, -, hrun⟩
          · exact ⟨e, by rw [← hsame, hk]; exact hcur.1, hprofile, hstatus⟩
          · exact hrun
      · have hkept : db'.getExecution k = s.db.getExecution k := hmoves.others k hk
        rcases hs.executions k with ⟨hsame, hnot⟩ | ⟨⟨row, hrow, hwait⟩, hmem, hrun⟩
        · refine Or.inl ⟨hkept.trans hsame, fun hmem => ?_⟩
          rcases List.mem_append.mp hmem with hmem | hmem
          · exact hnot hmem
          · exact hk ((List.mem_singleton.mp hmem).trans hmid)
        · exact Or.inr ⟨⟨row, hkept.trans hrow, hwait⟩, List.mem_append_left _ hmem, hrun⟩
    · unfold Matched Db.getToolCall
      rw [hcalls]
      exact hm
    · by_cases hk : x.holderExecutionId = e.id
      · rw [hk]
        exact hwaits.inactive
      · intro row hrow
        exact hi row ((hmoves.others _ hk).symm.trans hrow)
  · have hinactive := Inactive.of_not_activeRun hactive
    refine ⟨s, ?_, hs, Or.inr hinactive, fun _ h => h⟩
    unfold isolateOrphan
    rw [if_neg hunmatched]
    cases he : s.db.getExecution claim.holderExecutionId with
    | none => rfl
    | some e =>
      simp only
      rw [if_pos (hinactive e he)]

/-- What the transaction of recovery leaves. -/
structure Repaired (cfg : RecoveryConfig) (db : Db) (s : RecoveryState) : Prop where
  background : Background db s.db
  handled : ∀ k, ActiveRun db k → Handled cfg s k
  rest : ∀ k, ¬ ActiveRun db k → s.db.getExecution k = db.getExecution k
  readOnly : ∀ k ∈ s.readOnly, ActiveRun db k
  claims : ∀ claim ∈ db.listExternalActionClaims openClaimStatuses,
    Matched s.db claim ∨ Inactive s.db claim.holderExecutionId

theorem Matched.background {db' : Db} {claim : ClaimRecord} (h : Matched db claim)
    (hback : Background db db') : Matched db' claim := by
  obtain ⟨call, hcall, howner, hcapability, haction⟩ := h
  obtain ⟨id, hid, hget⟩ := Option.bind_eq_some_iff.mp hcall
  obtain ⟨new, hnew, hmoved⟩ := hback.moved id call hget
  have hsame := hmoved.same
  exact ⟨new, Option.bind_eq_some_iff.mpr ⟨id, hid, hnew⟩, hsame.executionId.trans howner,
    hsame.capability.trans hcapability, hsame.logicalActionKey.trans haction⟩

theorem recoverDurable_ok (hreg : Registered cfg db) :
    ∃ s, recoverDurable cfg now db = .ok s ∧ Repaired cfg db s := by
  have hstart : Inspected db { db } :=
    ⟨rfl, .refl db, rfl, fun k => Or.inl ⟨rfl, List.not_mem_nil⟩⟩
  obtain ⟨s₁, hclaims, hs₁, hinspected, -⟩ := foldlM_reaches (f := isolateOrphan now)
    (I := Inspected db) (l := db.listExternalActionClaims openClaimStatuses)
    (Q := fun claim s => Matched s.db claim ∨ Inactive s.db claim.holderExecutionId)
    (fun s claim _ hs => isolateOrphan_ok now hs claim) hstart
  have hnodup : ((db.listActionExecutions activeStatuses).map ExecutionRecord.id).Nodup :=
    db.executions.keys_nodup.sublist (List.filter_sublist.map ExecutionRecord.id)
  have hlisted : ∀ listed ∈ db.listActionExecutions activeStatuses, ActiveRun db listed.id := by
    intro listed hmem
    obtain ⟨hrow, hprofile, hstatus⟩ := (Db.mem_listActionExecutions db).mp hmem
    exact ⟨listed, Table.get_of_mem hrow, hprofile, hstatus⟩
  obtain ⟨s, hexecutions, ⟨hback, hkept, hreadOnly, hrest⟩, hhandled, -⟩ := foldlM_each
    (g := ExecutionRecord.id) (f := recoverExecution cfg now) (b := s₁)
    (I := fun s => Background db s.db ∧
      (∀ claim ∈ db.listExternalActionClaims openClaimStatuses,
        Matched s.db claim ∨ Inactive s.db claim.holderExecutionId) ∧
      (∀ k ∈ s.readOnly, ActiveRun db k) ∧
      ∀ k, ¬ ActiveRun db k → s.db.getExecution k = db.getExecution k)
    (P := fun listed s => ∃ row : ExecutionRecord, row.id = listed.id ∧ Listable s row)
    (Q := fun listed s => Handled cfg s listed.id) hnodup
    (fun s listed hmem ⟨hback, hkept, hreadOnly, hrest⟩ ⟨row, hid, hrow⟩ => by
      obtain ⟨s', hok, htreats, hhandled, hstill⟩ :=
        recoverExecution_ok now hid hrow (hreg.background hback)
      have hback' := recoverExecution_background hok
      refine ⟨s', hok, ⟨hback.trans hback', fun claim hclaim => ?_, fun k hk => ?_,
        fun k hk => ?_⟩, hhandled, fun x hne => ⟨fun hx => ?_, fun hx => hx.spared htreats hne⟩⟩
      · refine (hkept claim hclaim).imp (fun h => h.background hback') fun hinactive e he => ?_
        by_cases hk : claim.holderExecutionId = listed.id
        · -- The holder is not under way, so it was isolated before and is left alone.
          rw [hk, ← hid] at hinactive he
          have hnot := hinactive row hrow.1.1
          obtain rfl : row = e := Option.some.inj ((hstill hnot).symm.trans he)
          exact hnot
        · exact hinactive e ((htreats.spares.executions _ hk).symm.trans he)
      · rcases htreats.isolated k hk with hold | rfl
        · exact hreadOnly k hold
        · exact hlisted listed hmem
      · have hne : k ≠ listed.id := fun heq => hk (heq ▸ hlisted listed hmem)
        exact (htreats.spares.executions k hne).trans (hrest k hk)
      · obtain ⟨row', hid', ⟨hget, hprofile⟩, hstatus⟩ := hx
        have hget' := (htreats.spares.executions row'.id (hid' ▸ hne)).trans hget
        exact ⟨row', hid', ⟨hget', hprofile⟩, by rw [htreats.orphans]; exact hstatus⟩)
    ⟨hs₁.background, hinspected, by simp [hs₁.readOnly], fun k hk => by
      rcases hs₁.executions k with ⟨hsame, -⟩ | ⟨-, -, hrun⟩
      · exact hsame
      · exact absurd hrun hk⟩
    (fun listed hmem => by
      obtain ⟨hrow, hprofile, hstatus⟩ := (Db.mem_listActionExecutions db).mp hmem
      have hget : db.getExecution listed.id = some listed := Table.get_of_mem hrow
      rcases hs₁.executions listed.id with ⟨hsame, hnot⟩ | ⟨⟨row, hrow', hprofile', hwaits⟩, hin, -⟩
      · exact ⟨listed, rfl, ⟨hsame.trans hget, hprofile⟩, Or.inl ⟨hstatus, hnot⟩⟩
      · have hid : row.id = listed.id := Table.key_of_get hrow'
        exact ⟨row, hid, ⟨hid.symm ▸ hrow', hprofile'⟩, Or.inr ⟨hwaits, hid.symm ▸ hin⟩⟩)
  refine ⟨s, ?_, hback, fun k ⟨e, he, hprofile, hstatus⟩ => ?_, hrest, hreadOnly, hkept⟩
  · unfold recoverDurable
    simp only [bind_eq_ok]
    exact ⟨s₁, hclaims, hexecutions⟩
  · obtain rfl : e.id = k := Table.key_of_get he
    exact hhandled e ((Db.mem_listActionExecutions db).mpr
      ⟨Table.mem_of_get he, hprofile, hstatus⟩)

end Durable

/-- What isolating an execution and reconciling its calls keeps: the other executions, what
its calls and claims are about, and which claims are open. -/
structure Isolates (db db' : Db) (k : ExecutionId) : Prop where
  spares : SparesOthers db db' k
  onward : Onward db db'
  absent : ∀ id, db.getToolCall id = none → db'.getToolCall id = none
  claims : ∀ claim ∈ db'.claims.rows, ∃ old ∈ db.claims.rows, SameAction old claim ∧
    (claim.status ∈ openClaimStatuses → old.status ∈ openClaimStatuses)

namespace Isolates

variable {db db' db'' : Db} {k : ExecutionId}

theorem refl (db : Db) (k : ExecutionId) : Isolates db db k :=
  ⟨.refl db k, .refl db, fun _ h => h, fun claim hclaim => ⟨claim, hclaim, .refl claim, fun h => h⟩⟩

theorem trans (h : Isolates db db' k) (h' : Isolates db' db'' k) : Isolates db db'' k := by
  refine ⟨h.spares.trans h'.spares, h.onward.trans h'.onward,
    fun id hnone => h'.absent id (h.absent id hnone), fun claim hclaim => ?_⟩
  obtain ⟨mid, hmid, hsame, hopen⟩ := h'.claims claim hclaim
  obtain ⟨old, hold, hsame', hopen'⟩ := h.claims mid hmid
  exact ⟨old, hold, hsame'.trans hsame, fun hs => hopen' (hopen hs)⟩

theorem of_background (hspares : SparesOthers db db' k) (h : Background db db') :
    Isolates db db' k := by
  refine ⟨hspares, .of_background h, h.absent, fun claim hclaim => ?_⟩
  rw [h.claims] at hclaim
  exact ⟨claim, hclaim, .refl claim, fun hs => hs⟩

theorem absent_of_writes {call old : ToolCallRecord}
    (hwrites : Table.Writes db.toolCalls db'.toolCalls call)
    (hold : db.getToolCall call.id = some old) (id : ToolCallId)
    (hnone : db.getToolCall id = none) : db'.getToolCall id = none := by
  have hid : id ≠ call.id := by
    rintro rfl
    rw [hold] at hnone
    cases hnone
  exact (hwrites.2 id hid).trans hnone

theorem of_reconcileRequested {tool : RegisteredTool} {flight : Flight} {call : ToolCallRecord}
    {claim : Option ClaimRecord} (h : ReconcileRequested db db' tool flight call claim)
    (howner : call.executionId = k) : Isolates db db' k := by
  obtain ⟨now, hwrites⟩ := h.writes
  have hclaims : db'.claims = db.claims := by rw [h.rest]
  refine ⟨.of_writes (by rw [h.rest]) hwrites h.found (.updated call _) howner, h.onward,
    absent_of_writes hwrites h.found, fun claim hclaim => ?_⟩
  rw [hclaims] at hclaim
  exact ⟨claim, hclaim, .refl claim, fun hs => hs⟩

theorem of_persisted {flight : Flight} {result : ToolResult} {call : ToolCallRecord}
    (h : Persisted db db' flight result call) (howner : call.executionId = k)
    (hexpects : ∀ status, flight.expectedClaimStatus = some status →
      status ∈ openClaimStatuses) : Isolates db db' k := by
  obtain ⟨now, hwrites⟩ := h.writes
  have hid : call.id = flight.context.toolCallId := Table.key_of_get h.found
  have hget : db.getToolCall call.id = some call := hid ▸ h.found
  refine ⟨.of_writes (by rw [h.rest]) hwrites hget (.updated call _) howner, h.onward,
    absent_of_writes hwrites hget, fun claim hclaim => ?_⟩
  rcases h.claims with ⟨-, hsame⟩ | ⟨held, ⟨-, hexpected, hheld, -⟩, hclaims⟩
  · rw [hsame] at hclaim
    exact ⟨claim, hclaim, .refl claim, fun hs => hs⟩
  · rcases hclaims.mem.mp hclaim with rfl | ⟨hold, -⟩
    · exact ⟨held, Table.mem_of_get hheld, .settled held result,
        fun _ => hexpects held.status hexpected⟩
    · exact ⟨claim, hold, .refl claim, fun hs => hs⟩

end Isolates

section ReadOnly

variable (now : Instant) {db : Db} {k : ExecutionId}

/-- A whole reconciliation of a call of the execution makes no execution of the adapter and
raises reviewable faults only. -/
theorem reconcile_isolates (executor : ExecutorConfig) (answer : Flight → AdapterAnswer)
    (refs : List String) {id : ToolCallId}
    (howner : ∀ call, db.getToolCall id = some call → call.executionId = k) :
    Isolates db (reconcile executor answer id refs now db).db k ∧
      (reconcile executor answer id refs now db).db.executions = db.executions ∧
      (∀ f ∈ (reconcile executor answer id refs now db).adapterCalls, f.phase = .reconcile) ∧
      Raises Reviewable (reconcile executor answer id refs now db).reply := by
  have hraises : Raises Reviewable (beginReconcile executor id refs now db) :=
    beginReconcile_raises executor id refs now
  unfold reconcile
  cases hbegin : beginReconcile executor id refs now db with
  | error e =>
    refine ⟨.refl db k, rfl, by simp, fun e' he => ?_⟩
    cases he
    exact hraises e hbegin
  | ok begun =>
    obtain ⟨begun, db₁⟩ := begun
    rcases beginReconcile_cases hbegin with ⟨r, rfl, rfl⟩ |
      ⟨tool, flight, call, claim, rfl, rfl, -, hreq⟩
    · exact ⟨.refl _ k, rfl, by simp, raises_ok r⟩
    · have hcallOwner := howner call hreq.found
      have hfirst := Isolates.of_reconcileRequested hreq hcallOwner
      have hexecutions : db₁.executions = db.executions := by rw [hreq.rest]
      have hphase : ∀ f ∈ [flight], f.phase = .reconcile := fun f hf => by
        rw [List.mem_singleton.mp hf]
        exact hreq.phase
      simp only
      cases hresult : adapterResult flight (answer flight) with
      | error e =>
        refine ⟨hfirst, hexecutions, hphase, fun e' he => ?_⟩
        cases he
        exact adapterResult_raises flight (answer flight) e hresult
      | ok result =>
        simp only
        cases hpersist : persistResult flight result now db₁.newObservationId db₁ with
        | error e =>
          refine ⟨hfirst, hexecutions, hphase, fun e' he => ?_⟩
          cases he
          exact persistResult_raises flight result now e hpersist
        | ok reply =>
          obtain ⟨reply, db₂⟩ := reply
          rcases persistResult_cases hpersist with ⟨row, -, -, rfl⟩ | ⟨row, -, hpersisted⟩
          · exact ⟨hfirst, hexecutions, hphase, raises_ok reply⟩
          · obtain ⟨at', hwrites⟩ := hreq.writes
            have hrow : row.executionId = k := by
              have hfound := hpersisted.found
              rw [hreq.flightCall] at hfound
              obtain rfl := Option.some.inj (hwrites.1.symm.trans hfound)
              exact hcallOwner
            refine ⟨hfirst.trans (.of_persisted hpersisted hrow fun status hstatus => ?_), ?_,
              hphase, raises_ok reply⟩
            · rw [hreq.flightExpects] at hstatus
              obtain ⟨held, hheld, rfl⟩ := Option.map_eq_some_iff.mp hstatus
              rcases hreq.claimOpen held hheld with h | h <;> rw [h] <;> decide
            · rw [← hexecutions, hpersisted.rest]

theorem interruptCalls_ok {u : ToolCallUpdate} (hu : u.status = .unknown)
    {calls : List ToolCallRecord} (hnodup : (calls.map ToolCallRecord.id).Nodup)
    (hcalls : ∀ call ∈ calls, call ∈ db.listExternalToolCalls k unresolvedStatuses) :
    ∃ db', calls.foldlM (interruptCall u) db = .ok db' ∧ SparesOthers db db' k ∧
      db'.executions = db.executions := by
  obtain ⟨db', hfold, hkept, -, -⟩ := foldlM_each (g := ToolCallRecord.id)
    (I := fun d : Db => SparesOthers db d k ∧ d.executions = db.executions)
    (P := fun call d => d.getToolCall call.id = some call)
    (Q := fun _ _ => True) (f := interruptCall u) (b := db) hnodup
    (fun d call hmem ⟨hspares, hexecutions⟩ hcall => by
      obtain ⟨-, howner, hopen, -⟩ := (Db.mem_listExternalToolCalls db).mp (hcalls call hmem)
      unfold interruptCall
      by_cases hreq : call.status = .requesting
      · obtain ⟨d₁, hupdate, hwrites, hrest⟩ := Db.updateToolCall_live (u := u) hcall
          (unresolved_live hopen) (Or.inr (by rw [hu, hreq]; decide))
        rw [hreq] at hupdate
        rw [if_pos hreq]
        refine ⟨d₁, ?_, ⟨hspares.trans (.of_writes (by rw [hrest]) hwrites hcall
          (.updated call u) howner), by rw [hrest]; exact hexecutions⟩, trivial,
          fun x hne => ⟨fun hx => (hwrites.2 x.id hne).trans hx, fun _ => trivial⟩⟩
        simp only [bind_eq_ok, pure_eq_ok, Prod.exists]
        exact ⟨_, d₁, hupdate, rfl⟩
      · rw [if_neg hreq]
        exact ⟨d, rfl, ⟨hspares, hexecutions⟩, trivial,
          fun _ _ => ⟨fun h => h, fun _ => trivial⟩⟩)
    ⟨.refl db k, rfl⟩
    (fun call hmem => Table.get_of_mem
      ((Db.mem_listExternalToolCalls db).mp (hcalls call hmem)).1)
  exact ⟨db', hfold, hkept⟩

theorem isolateStatus_ok {e : ExecutionRecord} (hcur : db.CurrentRun e)
    (hstatus : e.status ∈ activeStatuses ∨ e.status = .needsInput) :
    ∃ moved, isolateStatus db e now = .ok moved ∧ MovedTo db e .needsInput moved := by
  unfold isolateStatus
  rcases hstatus with hactive | hwaits
  · have hlive : isTerminalExecutionStatus e.profile e.status = false ∧
        e.status ≠ .needsInput := by
      rw [hcur.2]
      revert hactive
      cases e.status <;> decide
    rw [if_pos hlive]
    exact moveToNeedsInput_ok now "meeting_authority_required" authorityQuestion hcur hactive
  · rw [if_neg fun h => h.2 hwaits]
    exact ⟨(e, db), rfl, rfl, hwaits, hcur, .refl _ _⟩

theorem isolateExecution_ok (h : Isolable db k) :
    ∃ ids db', isolateExecution k now db = .ok (ids, db') ∧ Isolates db db' k ∧
      Waiting db' k ∧
      ∀ id ∈ ids, ∀ call, db'.getToolCall id = some call → call.executionId = k := by
  obtain ⟨e, he, hprofile, hstatus⟩ := h
  obtain rfl : e.id = k := Table.key_of_get he
  obtain ⟨⟨moved, db₁⟩, hmove, hid, hmstatus, hmcur, hmoves⟩ :=
    isolateStatus_ok now ⟨he, hprofile⟩ hstatus
  simp only at hid hmstatus hmcur hmoves
  obtain ⟨db₂, hfold, hspares, hexecutions⟩ :=
    @interruptCalls_ok db₁ e.id (interruptedRequestUpdate now) rfl _
    (listExternalToolCalls_nodup db₁ e.id unresolvedStatuses) (fun _ h => h)
  have hok : isolateExecution e.id now db =
      .ok ((db₁.listExternalToolCalls e.id unresolvedStatuses).map ToolCallRecord.id, db₂) := by
    unfold isolateExecution Db.getExecutionRequired
    simp only [bind_eq_ok, require_eq_ok, pure_eq_ok, Prod.exists]
    exact ⟨e, he, moved, db₁, hmove, db₂, hfold, rfl⟩
  have hback := isolateExecution_background hok
  refine ⟨_, db₂, hok, .of_background ((SparesOthers.of_moves hmoves).trans hspares) hback,
    ⟨moved, ?_, hmcur.2, hmstatus⟩, fun id hmem call hcall => ?_⟩
  · rw [Db.getExecution, hexecutions, ← hid]
    exact hmcur.1
  · obtain ⟨listed, hlisted, rfl⟩ := List.mem_map.mp hmem
    obtain ⟨hrow, howner, -⟩ := (Db.mem_listExternalToolCalls db₁).mp hlisted
    have hcalls : db₁.toolCalls = db.toolCalls := by rw [hmoves.rest]
    have hold : db.getToolCall listed.id = some listed := by
      rw [Db.getToolCall, ← hcalls]
      exact Table.get_of_mem hrow
    obtain ⟨new, hnew, hmoved⟩ := hback.moved listed.id listed hold
    obtain rfl : new = call := Option.some.inj (hnew.symm.trans hcall)
    exact hmoved.same.executionId.trans howner

theorem reconcileListed_ok (executor : ExecutorConfig) (answer : Flight → AdapterAnswer)
    {s : Reconciling} {ids : List ToolCallId}
    (hphases : ∀ f ∈ s.adapterCalls, f.phase = .reconcile)
    (hids : ∀ id ∈ ids, ∀ call, s.db.getToolCall id = some call → call.executionId = k) :
    ∃ s', ids.foldlM (reconcileListed executor answer now) s = .ok s' ∧ Isolates s.db s'.db k ∧
      s'.db.executions = s.db.executions ∧ ∀ f ∈ s'.adapterCalls, f.phase = .reconcile := by
  obtain ⟨s', hfold, hs'⟩ := foldlM_returns (f := reconcileListed executor answer now) (l := ids)
    (I := fun t : Reconciling => Isolates s.db t.db k ∧ t.db.executions = s.db.executions ∧
      ∀ f ∈ t.adapterCalls, f.phase = .reconcile)
    (fun t id hmem ⟨hisolates, hexecutions, hphases⟩ => by
      have howner : ∀ call, t.db.getToolCall id = some call → call.executionId = k := by
        intro call hcall
        cases hold : s.db.getToolCall id with
        | none =>
          rw [hisolates.absent id hold] at hcall
          cases hcall
        | some old =>
          obtain ⟨new, hnew, hsame, -⟩ := hisolates.onward.calls id old hold
          obtain rfl : new = call := Option.some.inj (hnew.symm.trans hcall)
          exact hsame.executionId.trans (hids id hmem old hold)
      obtain ⟨hstep, hstepExecutions, hstepPhases, hraises⟩ :=
        reconcile_isolates now executor answer [] howner
      have hkept : ∀ f ∈ t.adapterCalls ++ (reconcile executor answer id [] now t.db).adapterCalls,
          f.phase = .reconcile := by
        intro f hf
        exact (List.mem_append.mp hf).elim (hphases f) (hstepPhases f)
      unfold reconcileListed
      simp only
      cases hreply : (reconcile executor answer id [] now t.db).reply with
      | ok reply =>
        exact ⟨_, rfl, hisolates.trans hstep, hstepExecutions.trans hexecutions, hkept⟩
      | error e =>
        have hreviewable : e.isReviewable = true := hraises e hreply
        simp only [hreviewable, if_true]
        exact ⟨_, rfl, hisolates.trans hstep, hstepExecutions.trans hexecutions, hkept⟩)
    ⟨.refl s.db k, rfl, hphases⟩
  exact ⟨s', hfold, hs'⟩

/-- Isolating an execution and reconciling its calls returns and leaves it waiting. -/
theorem reconcileReadOnly_ok (toolExecutor : Option ExecutorConfig)
    (answer : Flight → AdapterAnswer) {s : Reconciling} (h : Isolable s.db k)
    (hphases : ∀ f ∈ s.adapterCalls, f.phase = .reconcile) :
    ∃ r s', reconcileReadOnly toolExecutor answer k now s = .ok (r, s') ∧
      Isolates s.db s'.db k ∧ Waiting s'.db k ∧ ∀ f ∈ s'.adapterCalls, f.phase = .reconcile := by
  obtain ⟨ids, db₁, hisolate, hisolates, hwaits, hids⟩ := isolateExecution_ok now h
  cases toolExecutor with
  | none =>
    refine ⟨ids ≠ [], { s with db := db₁ }, ?_, hisolates, hwaits, hphases⟩
    unfold reconcileReadOnly
    simp only [bind_eq_ok, pure_eq_ok, Prod.exists]
    exact ⟨ids, db₁, hisolate, rfl⟩
  | some executor =>
    obtain ⟨s', hfold, hreconciles, hexecutions, hphases'⟩ := reconcileListed_ok now
      (s := { s with db := db₁ }) executor answer hphases hids
    refine ⟨ids ≠ [], s', ?_, hisolates.trans hreconciles, ?_, hphases'⟩
    · unfold reconcileReadOnly
      simp only [bind_eq_ok, pure_eq_ok, Prod.exists]
      exact ⟨ids, db₁, hisolate, s', hfold, rfl⟩
    · obtain ⟨e, he, hprofile, hstatus⟩ := hwaits
      refine ⟨e, ?_, hprofile, hstatus⟩
      rw [Db.getExecution, hexecutions]
      exact he

end ReadOnly

structure IsolatesAll (db db' : Db) (ks : List ExecutionId) : Prop where
  executions : ∀ j, j ∉ ks → db'.getExecution j = db.getExecution j
  calls : ∀ id call, call.executionId ∉ ks →
    (db'.getToolCall id = some call ↔ db.getToolCall id = some call)
  onward : Onward db db'
  absent : ∀ id, db.getToolCall id = none → db'.getToolCall id = none
  claims : ∀ claim ∈ db'.claims.rows, ∃ old ∈ db.claims.rows, SameAction old claim ∧
    (claim.status ∈ openClaimStatuses → old.status ∈ openClaimStatuses)

theorem IsolatesAll.refl (db : Db) (ks : List ExecutionId) : IsolatesAll db db ks :=
  ⟨fun _ _ => rfl, fun _ _ _ => Iff.rfl, .refl db, fun _ h => h,
    fun claim hclaim => ⟨claim, hclaim, .refl claim, fun h => h⟩⟩

theorem IsolatesAll.step {db db' db'' : Db} {ks : List ExecutionId} {k : ExecutionId}
    (h : IsolatesAll db db' ks) (h' : Isolates db' db'' k) (hk : k ∈ ks) :
    IsolatesAll db db'' ks := by
  have hne : ∀ j, j ∉ ks → j ≠ k := fun j hj heq => hj (heq ▸ hk)
  refine ⟨fun j hj => (h'.spares.executions j (hne j hj)).trans (h.executions j hj),
    fun id call hj => (h'.spares.calls id call (hne _ hj)).trans (h.calls id call hj),
    h.onward.trans h'.onward, fun id hnone => h'.absent id (h.absent id hnone),
    fun claim hclaim => ?_⟩
  obtain ⟨mid, hmid, hsame, hopen⟩ := h'.claims claim hclaim
  obtain ⟨old, hold, hsame', hopen'⟩ := h.claims mid hmid
  exact ⟨old, hold, hsame'.trans hsame, fun hs => hopen' (hopen hs)⟩

theorem Waiting.isolable {db : Db} {k : ExecutionId} (h : Waiting db k) : Isolable db k := by
  obtain ⟨e, he, hprofile, hstatus⟩ := h
  exact ⟨e, he, hprofile, Or.inr hstatus⟩

/-- Isolating all listed executions returns and leaves every one of them waiting. -/
theorem isolateListed_ok (cfg : RecoveryConfig) (answer : Flight → AdapterAnswer) (now : Instant)
    {db : Db} {ks : List ExecutionId} {n : ℕ} (h : ∀ k ∈ ks, Isolable db k) :
    ∃ t, ks.foldlM (isolateListed cfg answer now) (n, ⟨db, []⟩) = .ok t ∧
      IsolatesAll db t.2.db ks ∧ (∀ k ∈ ks, Waiting t.2.db k) ∧
      ∀ f ∈ t.2.adapterCalls, f.phase = .reconcile := by
  obtain ⟨t, hfold, ⟨hall, -, hphases⟩, hwaits, -⟩ := foldlM_reaches
    (f := isolateListed cfg answer now) (l := ks) (b := (n, ⟨db, []⟩))
    (I := fun t : ℕ × Reconciling => IsolatesAll db t.2.db ks ∧ (∀ k ∈ ks, Isolable t.2.db k) ∧
      ∀ f ∈ t.2.adapterCalls, f.phase = .reconcile)
    (Q := fun k t => Waiting t.2.db k)
    (fun t k hk ⟨hall, hisolable, hphases⟩ => by
      obtain ⟨r, s', hok, hisolates, hwaits, hphases'⟩ :=
        reconcileReadOnly_ok now cfg.toolExecutor answer (hisolable k hk) hphases
      have hothers : ∀ j, j ≠ k → s'.db.getExecution j = t.2.db.getExecution j :=
        hisolates.spares.executions
      refine ⟨(t.1 + if r then 1 else 0, s'), ?_, ⟨hall.step hisolates hk, fun j hj => ?_,
        hphases'⟩, hwaits, fun j hj => ?_⟩
      · unfold isolateListed
        simp only [bind_eq_ok, pure_eq_ok, Prod.exists]
        exact ⟨r, s', hok, rfl⟩
      · by_cases heq : j = k
        · exact heq ▸ hwaits.isolable
        · obtain ⟨e, he, hrest⟩ := hisolable j hj
          exact ⟨e, (hothers j heq).trans he, hrest⟩
      · by_cases heq : j = k
        · exact heq ▸ hwaits
        · obtain ⟨e, he, hrest⟩ := hj
          exact ⟨e, (hothers j heq).trans he, hrest⟩)
    ⟨.refl db ks, h, by simp⟩
  exact ⟨t, hfold, hall, hwaits, hphases⟩

/-- A state that recovery has nothing to do in: what is under way is to be resumed, and no
claim under way has lost its call. -/
structure Settled (cfg : RecoveryConfig) (db : Db) : Prop where
  ready : ∀ k, ActiveRun db k → Ready cfg db k
  claims : ∀ claim ∈ db.listExternalActionClaims openClaimStatuses,
    Matched db claim ∨ Inactive db claim.holderExecutionId

/-- What recovery leaves of a database. -/
structure Recovered (cfg : RecoveryConfig) (db : Db) (report : RecoveryReport) : Prop where
  onward : Onward db report.db
  absent : ∀ id, db.getToolCall id = none → report.db.getToolCall id = none
  reconciles : ∀ f ∈ report.adapterCalls, f.phase = .reconcile
  decided : ∀ k, ActiveRun db k → Waiting report.db k ∨
    Ready cfg report.db k ∧ k ∈ report.enqueuedExecutionIds
  rest : ∀ k, ¬ ActiveRun db k → report.db.getExecution k = db.getExecution k
  settled : Settled cfg report.db

section Startup

variable {cfg : RecoveryConfig} {db : Db}

theorem Repaired.settled {s : RecoveryState} {last : Db} (h : Repaired cfg db s)
    (hall : IsolatesAll s.db last s.readOnly) (hwaits : ∀ k ∈ s.readOnly, Waiting last k) :
    Settled cfg last := by
  constructor
  · rintro k ⟨e, he, hprofile, hactive⟩
    have hnot : k ∉ s.readOnly := fun hmem => (hwaits k hmem).inactive e he hactive
    have hexec := hall.executions k hnot
    by_cases hrun : ActiveRun db k
    · rcases h.handled k hrun with hwaiting | ⟨-, hmem⟩ | ⟨hready, -⟩
      · exact absurd hactive (hwaiting.inactive e (hexec.symm.trans he))
      · exact absurd hmem hnot
      · exact hready.kept hexec fun id call howner => (hall.calls id call (howner ▸ hnot)).mp
    · exact absurd ⟨e, ((h.rest k hrun).symm.trans hexec.symm).trans he, hprofile, hactive⟩ hrun
  · intro claim hclaim
    obtain ⟨hrow, hopen⟩ := (Db.mem_listExternalActionClaims last).mp hclaim
    obtain ⟨old, hold, hsame, hwasOpen⟩ := hall.claims claim hrow
    have hlisted := (Db.mem_listExternalActionClaims db).mpr
      ⟨h.background.claims ▸ hold, hwasOpen hopen⟩
    refine (h.claims old hlisted).imp (fun hmatched => ?_) (fun hinactive e he => ?_)
    · obtain ⟨call, hcall, howner, hcapability, haction⟩ := hmatched
      obtain ⟨id, hid, hget⟩ := Option.bind_eq_some_iff.mp hcall
      obtain ⟨new, hnew, hrequest, -⟩ := hall.onward.calls id call hget
      refine ⟨new, Option.bind_eq_some_iff.mpr ⟨id, hsame.toolCallId ▸ hid, hnew⟩, ?_, ?_, ?_⟩
      · exact (hrequest.executionId.trans howner).trans hsame.holderExecutionId.symm
      · exact (hrequest.capability.trans hcapability).trans hsame.capability.symm
      · rw [hrequest.logicalActionKey, haction, hsame.logicalActionKey]
    · rw [hsame.holderExecutionId] at he
      by_cases hmem : old.holderExecutionId ∈ s.readOnly
      · exact (hwaits _ hmem).inactive e he
      · exact hinactive e ((hall.executions _ hmem).symm.trans he)

theorem recoverStartup_recovers (answer : Flight → AdapterAnswer) (now : Instant)
    (hreg : Registered cfg db) :
    ∃ report, recoverStartup cfg answer now db = .ok report ∧ Recovered cfg db report := by
  obtain ⟨s, hdurable, hrepaired⟩ := recoverDurable_ok now hreg
  have hisolable : ∀ k ∈ s.readOnly, Isolable s.db k := by
    intro k hk
    obtain ⟨e, he, hprofile, hactive⟩ := hrepaired.readOnly k hk
    rcases hrepaired.handled k ⟨e, he, hprofile, hactive⟩ with h | ⟨h, -⟩ | ⟨hready, -⟩
    · exact h.isolable
    · exact h
    · obtain ⟨row, hrow, hprofile', hstatus, -⟩ := hready
      refine ⟨row, hrow, hprofile', Or.inl ?_⟩
      revert hstatus
      cases row.status <;> decide
  obtain ⟨t, hfold, hall, hwaits, hphases⟩ := isolateListed_ok
    (n := s.reconciledExecutions) cfg answer now hisolable
  let report : RecoveryReport :=
    { db := t.2.db
      adapterCalls := t.2.adapterCalls
      enqueuedExecutionIds := s.enqueued.eraseDups
      resetExecutionCount := s.resetExecutions
      reconciledExecutionCount := t.1
      resetSubagentCount := s.resetSubagents
      inspectedClaimCount := (db.listExternalActionClaims openClaimStatuses).length }
  have hok : recoverStartup cfg answer now db = .ok report := by
    unfold recoverStartup
    simp only [bind_eq_ok, pure_eq_ok, Prod.exists]
    exact ⟨s, hdurable, t.1, t.2, hfold, rfl⟩
  refine ⟨report, hok, .trans (.of_background hrepaired.background) hall.onward,
    fun id hnone => hall.absent id (hrepaired.background.absent id hnone), hphases,
    fun k hk => ?_, fun k hk => ?_, hrepaired.settled hall hwaits⟩
  · by_cases hmem : k ∈ s.readOnly
    · exact Or.inl (hwaits k hmem)
    have hexec := hall.executions k hmem
    rcases hrepaired.handled k hk with ⟨e, he, hrest⟩ | ⟨-, h⟩ | ⟨hready, hin⟩
    · exact Or.inl ⟨e, hexec.trans he, hrest⟩
    · exact absurd h hmem
    · refine Or.inr ⟨hready.kept hexec fun id call howner => ?_, List.mem_eraseDups.mpr hin⟩
      exact (hall.calls id call (howner ▸ hmem)).mp
  · have hmem : k ∉ s.readOnly := fun hin => hk (hrepaired.readOnly k hin)
    exact (hall.executions k hmem).trans (hrepaired.rest k hk)

end Startup

/-- Between the two databases executions and claims stayed, and no call changed its status. -/
structure Steady (db db' : Db) : Prop where
  executions : db'.executions = db.executions
  claims : db'.claims = db.claims
  absent : ∀ id, db.getToolCall id = none → db'.getToolCall id = none
  calls : ∀ id call, db.getToolCall id = some call → ∃ new, db'.getToolCall id = some new ∧
    SameRequest call new ∧ new.status = call.status

namespace Steady

variable {db db' db'' : Db} {cfg : RecoveryConfig} {k : ExecutionId}

theorem refl (db : Db) : Steady db db :=
  ⟨rfl, rfl, fun _ h => h, fun _ call h => ⟨call, h, .refl call, rfl⟩⟩

theorem trans (h : Steady db db') (h' : Steady db' db'') : Steady db db'' := by
  refine ⟨h'.executions.trans h.executions, h'.claims.trans h.claims,
    fun id hnone => h'.absent id (h.absent id hnone), fun id call hcall => ?_⟩
  obtain ⟨mid, hmid, hsame, hstatus⟩ := h.calls id call hcall
  obtain ⟨new, hnew, hsame', hstatus'⟩ := h'.calls id mid hmid
  exact ⟨new, hnew, hsame.trans hsame', hstatus'.trans hstatus⟩

theorem of_branches (h : db' = { db with subagentRuns := db'.subagentRuns }) : Steady db db' := by
  rw [h]
  exact ⟨rfl, rfl, fun _ h => h, fun _ call h => ⟨call, h, .refl call, rfl⟩⟩

theorem of_writes {call old : ToolCallRecord}
    (hwrites : Table.Writes db.toolCalls db'.toolCalls call)
    (hold : db.getToolCall call.id = some old) (hsame : SameRequest old call)
    (hstatus : call.status = old.status) (hrest : db' = { db with toolCalls := db'.toolCalls }) :
    Steady db db' := by
  refine ⟨by rw [hrest], by rw [hrest], Isolates.absent_of_writes hwrites hold,
    fun id row hrow => ?_⟩
  by_cases hid : id = call.id
  · subst hid
    obtain rfl : old = row := Option.some.inj (hold.symm.trans hrow)
    exact ⟨call, hwrites.1, hsame, hstatus⟩
  · exact ⟨row, (hwrites.2 id hid).trans hrow, .refl row, rfl⟩

/-- An open external call of an execution was one before, in the same status. -/
theorem open_before (h : Steady db db') {call : ToolCallRecord}
    (hcall : call ∈ db'.listExternalToolCalls k unresolvedStatuses) :
    ∃ old ∈ db.listExternalToolCalls k unresolvedStatuses, SameRequest old call ∧
      call.status = old.status := by
  obtain ⟨hmem, howner, hopen, heffect⟩ := (Db.mem_listExternalToolCalls db').mp hcall
  have hget : db'.getToolCall call.id = some call := Table.get_of_mem hmem
  cases hold : db.getToolCall call.id with
  | none =>
    rw [h.absent call.id hold] at hget
    cases hget
  | some old =>
    obtain ⟨new, hnew, hsame, hstatus⟩ := h.calls call.id old hold
    obtain rfl : new = call := Option.some.inj (hnew.symm.trans hget)
    exact ⟨old, (Db.mem_listExternalToolCalls db).mpr ⟨Table.mem_of_get hold,
      hsame.executionId ▸ howner, hstatus ▸ hopen, hsame.effect ▸ heffect⟩, hsame, hstatus⟩

theorem ready (h : Steady db db') (hready : Ready cfg db k) : Ready cfg db' k := by
  obtain ⟨e, he, hprofile, hstatus, hmay, htaken⟩ := hready
  refine ⟨e, ?_, hprofile, hstatus, hmay, fun call hcall => ?_⟩
  · rw [Db.getExecution, h.executions]
    exact he
  · obtain ⟨old, hold, hsame, hkept⟩ := h.open_before hcall
    obtain ⟨hrec, hrecStatus, tool, htool, hsupports⟩ := htaken old hold
    exact ⟨hrec, hkept.trans hrecStatus, tool, by rw [hsame.toolName]; exact htool, hsupports⟩

end Steady

section Again

variable {cfg : RecoveryConfig} (now : Instant) {db : Db}

theorem recoverCall_steady {t : Db × Bool} {call : ToolCallRecord}
    (hcall : t.1.getToolCall call.id = some call) (htaken : TakenUp cfg call) :
    ∃ t', recoverCall cfg now t call = .ok t' ∧ Steady t.1 t'.1 ∧ t'.2 = t.2 ∧
      ∀ id, id ≠ call.id → t'.1.getToolCall id = t.1.getToolCall id := by
  obtain ⟨hstatus, tool, htool, hsupports⟩ := htaken
  obtain ⟨db₁, hupdate, hwrites, hrest⟩ := Db.updateToolCall_live (u := recoveredUpdate call now)
    hcall (by rw [hstatus]; decide) (Or.inl hstatus)
  have htake : interruptRequested now t.1 call = .ok (call, t.1) := by
    unfold interruptRequested
    rw [if_neg (by rw [hstatus]; decide)]
  refine ⟨(db₁, t.2), ?_, .of_writes hwrites hcall (.updated call _) hstatus.symm hrest, rfl,
    hwrites.2⟩
  unfold recoverCall ToolRegistry.get
  simp only [bind_eq_ok, require_eq_ok]
  refine ⟨tool, htool, ?_⟩
  rw [if_pos hsupports]
  simp only [bind_eq_ok, pure_eq_ok, Prod.exists]
  exact ⟨call, t.1, htake, _, db₁, hupdate, rfl⟩

theorem recoverCalls_steady {k : ExecutionId}
    (htaken : ∀ call ∈ db.listExternalToolCalls k unresolvedStatuses, TakenUp cfg call) :
    ∃ t, (db.listExternalToolCalls k unresolvedStatuses).foldlM (recoverCall cfg now)
      (db, false) = .ok t ∧ Steady db t.1 ∧ t.2 = false := by
  obtain ⟨t, hfold, hkept, -, -⟩ := foldlM_each (g := ToolCallRecord.id)
    (I := fun t : Db × Bool => Steady db t.1 ∧ t.2 = false)
    (P := fun call t => t.1.getToolCall call.id = some call)
    (Q := fun _ _ => True) (f := recoverCall cfg now) (b := (db, false))
    (listExternalToolCalls_nodup db k unresolvedStatuses)
    (fun t call hmem ⟨hsteady, hflag⟩ hcall => by
      obtain ⟨t', hok, hstep, hsame, hothers⟩ :=
        recoverCall_steady now hcall (htaken call hmem)
      exact ⟨t', hok, ⟨hsteady.trans hstep, hsame.trans hflag⟩, trivial,
        fun x hne => ⟨fun hx => (hothers x.id hne).trans hx, fun _ => trivial⟩⟩)
    ⟨.refl db, rfl⟩
    (fun call hmem => Table.get_of_mem ((Db.mem_listExternalToolCalls db).mp hmem).1)
  exact ⟨t, hfold, hkept⟩

/-- An execution that is to be resumed is enqueued again, and nothing changes its status. -/
theorem recoverWork_steady {s : RecoveryState} {e : ExecutionRecord}
    (he : s.db.getExecution e.id = some e) (hready : Ready cfg s.db e.id) :
    ∃ s', recoverWork cfg now s e = .ok s' ∧ Steady s.db s'.db ∧ s'.readOnly = s.readOnly := by
  obtain ⟨row, hrow, -, hstatus, -, htaken⟩ := hready
  obtain rfl : e = row := Option.some.inj (he.symm.trans hrow)
  unfold recoverWork
  by_cases horphan : e.id ∈ s.orphans
  · rw [if_pos horphan]
    exact ⟨s, rfl, .refl _, rfl⟩
  rw [if_neg horphan]
  by_cases hopen : s.db.listExternalToolCalls e.id unresolvedStatuses ≠ []
  · obtain ⟨call, hcall⟩ := List.exists_mem_of_ne_nil _ hopen
    have hreconciling : e.status = .reconciling := (htaken call hcall).1
    obtain ⟨t, hfold, hsteady, hflag⟩ := recoverCalls_steady now
      fun call hcall => (htaken call hcall).2
    have hmove : moveToReconciling t.1 e now = .ok (e, t.1) := by
      unfold moveToReconciling
      rw [if_pos hreconciling]
    rw [if_pos hopen]
    refine ⟨{ s with
      db := t.1
      reconciledExecutions := s.reconciledExecutions + 1
      enqueued := s.enqueued ++ [e.id] }, ?_, hsteady, rfl⟩
    unfold recoverExternal
    simp only [bind_eq_ok, Prod.exists]
    refine ⟨t.1, t.2, hfold, e, t.1, hmove, ?_⟩
    rw [hflag]
    rfl
  · rw [if_neg hopen]
    have hidle : e.status ≠ .executing ∧ ¬ (e.status = .planning ∨ e.status = .observing) := by
      revert hstatus
      cases e.status <;> decide
    refine ⟨{ s with
      resetExecutions := s.resetExecutions + 0
      enqueued := s.enqueued ++ [e.id] }, ?_, .refl _, rfl⟩
    unfold recoverLocal recoverExecuting requeue
    simp only [if_neg hidle.1, bind_eq_ok, pure_eq_ok, Prod.exists]
    refine ⟨e, s.db, rfl, e, s.db, 0, if_neg hidle.2, ?_⟩
    rw [if_pos hstatus]

theorem recoverExecution_steady {s : RecoveryState} {listed : ExecutionRecord}
    (hready : Ready cfg s.db listed.id) :
    ∃ s', recoverExecution cfg now s listed = .ok s' ∧ Steady s.db s'.db ∧
      s'.readOnly = s.readOnly := by
  obtain ⟨e, he, -, -, hmay, -⟩ := id hready
  have hid : e.id = listed.id := Table.key_of_get he
  have hrefreshed : refreshed s.db listed = e := by
    rw [refreshed, he]
    rfl
  obtain ⟨t, hfold, hrest, -, hreadOnly, -⟩ :=
    resetBranches_ok now (s := s) listed.id
  have hfirst : Steady s.db t.db := .of_branches hrest
  have hget : t.db.getExecution e.id = some e := by
    rw [Db.getExecution, hfirst.executions]
    exact hid ▸ he
  obtain ⟨s', hok, hsteady, hkept⟩ :=
    recoverWork_steady now hget (hfirst.ready (hid ▸ hready))
  refine ⟨s', ?_, hfirst.trans hsteady, hkept.trans hreadOnly⟩
  unfold recoverExecution
  rw [hrefreshed, if_neg (by simp [hmay]), bind_eq_ok]
  exact ⟨t, hfold, hok⟩

/-- A claim with a call, or without an execution under way, is left alone. -/
theorem isolateOrphan_settled {s : RecoveryState} {claim : ClaimRecord}
    (h : Matched s.db claim ∨ Inactive s.db claim.holderExecutionId) :
    isolateOrphan now s claim = .ok s := by
  unfold isolateOrphan
  by_cases hmatched : Matched s.db claim
  · exact if_pos hmatched
  rw [if_neg (show ¬ ∃ call ∈ _, _ from hmatched)]
  cases he : s.db.getExecution claim.holderExecutionId with
  | none => rfl
  | some e => exact if_pos ((h.resolve_left hmatched) e he)

theorem Settled.recoverStartup (h : Settled cfg db) (answer : Flight → AdapterAnswer) :
    ∃ report, recoverStartup cfg answer now db = .ok report ∧ Steady db report.db := by
  obtain ⟨s₁, hclaims, rfl⟩ := foldlM_returns (f := isolateOrphan now)
    (I := fun s : RecoveryState => s = { db })
    (l := db.listExternalActionClaims openClaimStatuses)
    (fun s claim hclaim hs => ⟨s, isolateOrphan_settled now (hs ▸ h.claims claim hclaim), hs⟩) rfl
  obtain ⟨s, hexecutions, hsteady, hreadOnly⟩ := foldlM_returns (f := recoverExecution cfg now)
    (I := fun s : RecoveryState => Steady db s.db ∧ s.readOnly = [])
    (l := db.listActionExecutions activeStatuses)
    (fun s listed hlisted ⟨hsteady, hreadOnly⟩ => by
      obtain ⟨hrow, hprofile, hstatus⟩ := (Db.mem_listActionExecutions db).mp hlisted
      have hready := hsteady.ready
        (h.ready listed.id ⟨listed, Table.get_of_mem hrow, hprofile, hstatus⟩)
      obtain ⟨s', hok, hstep, hkept⟩ := recoverExecution_steady now hready
      exact ⟨s', hok, hsteady.trans hstep, hkept.trans hreadOnly⟩)
    (⟨.refl db, rfl⟩ : Steady db (RecoveryState.mk db [] [] [] 0 0 0).db ∧ _)
  let report : RecoveryReport :=
    { db := s.db
      adapterCalls := []
      enqueuedExecutionIds := s.enqueued.eraseDups
      resetExecutionCount := s.resetExecutions
      reconciledExecutionCount := s.reconciledExecutions
      resetSubagentCount := s.resetSubagents
      inspectedClaimCount := (db.listExternalActionClaims openClaimStatuses).length }
  refine ⟨report, ?_, hsteady⟩
  unfold Assistant.recoverStartup recoverDurable
  simp only [bind_eq_ok, pure_eq_ok, Prod.exists]
  refine ⟨s, ⟨_, hclaims, hexecutions⟩, s.reconciledExecutions, ⟨s.db, []⟩, ?_, rfl⟩
  rw [hreadOnly]
  rfl

end Again

/-- The executions, calls and claims have the same statuses in both databases. -/
structure SameStatuses (db db' : Db) : Prop where
  executions : ∀ id, (db'.getExecution id).map ExecutionRecord.status =
    (db.getExecution id).map ExecutionRecord.status
  toolCalls : ∀ id, (db'.getToolCall id).map ToolCallRecord.status =
    (db.getToolCall id).map ToolCallRecord.status
  claims : ∀ id, (db'.claims.get id).map ClaimRecord.status =
    (db.claims.get id).map ClaimRecord.status

theorem Steady.sameStatuses {db db' : Db} (h : Steady db db') : SameStatuses db db' := by
  refine ⟨fun id => by rw [Db.getExecution, h.executions]; rfl, fun id => ?_,
    fun id => by rw [h.claims]⟩
  cases hcall : db.getToolCall id with
  | none => rw [h.absent id hcall]
  | some call =>
    obtain ⟨new, hnew, -, hstatus⟩ := h.calls id call hcall
    rw [hnew, Option.map_some, Option.map_some, hstatus]

/-- A recovery repeats no external write, and every action run that was not over waits for
input or is enqueued in a status from which it is resumed. -/
structure SafelyRecovered (db : Db) (report : RecoveryReport) : Prop where
  reconciles : ∀ flight ∈ report.adapterCalls, flight.phase = .reconcile
  prepares : ∀ id call, report.db.getToolCall id = some call → call.effect = .externalWrite →
    call.status = .prepared → ∃ old, db.getToolCall id = some old ∧ old.status = .prepared
  decides : ∀ id execution, db.getExecution id = some execution →
    execution.profile = .actionRun →
    isTerminalExecutionStatus execution.profile execution.status = false →
    ∃ left, report.db.getExecution id = some left ∧ (left.status = .needsInput ∨
      left.status ∈ resumableStatuses ∧ id ∈ report.enqueuedExecutionIds)

section Startup

variable {cfg : RecoveryConfig} {db : Db}

theorem Recovered.safely {report : RecoveryReport} (h : Recovered cfg db report) :
    SafelyRecovered db report := by
  refine ⟨h.reconciles, fun id call hcall _ hprepared => ?_,
    fun id execution hexecution hprofile hlive => ?_⟩
  · cases hold : db.getToolCall id with
    | none =>
      rw [h.absent id hold] at hcall
      cases hcall
    | some old =>
      obtain ⟨new, hnew, -, hrequested⟩ := h.onward.calls id old hold
      obtain rfl : new = call := Option.some.inj (hnew.symm.trans hcall)
      exact ⟨old, rfl, by_contra fun hne => hrequested hne hprepared⟩
  · by_cases hrun : ActiveRun db id
    · rcases h.decided id hrun with ⟨left, hleft, -, hwaits⟩ |
        ⟨⟨left, hleft, -, hresumable, -⟩, hin⟩
      · exact ⟨left, hleft, Or.inl hwaits⟩
      · exact ⟨left, hleft, Or.inr ⟨hresumable, hin⟩⟩
    · -- The only status left that is neither terminal nor under way is that of waiting.
      refine ⟨execution, (h.rest id hrun).trans hexecution, Or.inl ?_⟩
      have hinactive : execution.status ∉ activeStatuses := fun hactive =>
        hrun ⟨execution, hexecution, hprofile, hactive⟩
      have hdeclared := execution.statusDeclared
      rw [hprofile] at hlive hdeclared
      revert hlive hdeclared hinactive
      cases execution.status <;> decide

/-- Startup recovery returns on every database whose open external calls are by registered
tools, is safe there, and repeating it changes no status. -/
theorem recoverStartup_safe (answer : Flight → AdapterAnswer) (now : Instant)
    (hreg : Registered cfg db) :
    ∃ report, recoverStartup cfg answer now db = .ok report ∧ SafelyRecovered db report ∧
      ∀ answer' now', ∃ report', recoverStartup cfg answer' now' report.db = .ok report' ∧
        SameStatuses report.db report'.db := by
  obtain ⟨report, hok, hrecovered⟩ := recoverStartup_recovers answer now hreg
  refine ⟨report, hok, hrecovered.safely, fun answer' now' => ?_⟩
  obtain ⟨report', hok', hsteady⟩ := hrecovered.settled.recoverStartup now' answer'
  exact ⟨report', hok', hsteady.sameStatuses⟩

end Startup

/-- The process died while the tracker was filing the task. -/
def interruptedDb : Db :=
  ((ExecutorWorld.next fileTaskConfig (filingWorld (some 1))
    (.execute (fileTaskInput none))).map ExecutorWorld.db).getD {}

/-- The task that was being filed is taken up for reconciliation, and repeating the recovery
leaves it so. -/
theorem interruptedTask_recovered :
    (interruptedDb.getToolCall 1).map ToolCallRecord.status = some .requesting ∧
      ∃ report, recoverStartup { registry := fileTaskConfig.registry } (fun _ => .raised) 5
          interruptedDb = .ok report ∧ SafelyRecovered interruptedDb report ∧
        ∀ answer' now', ∃ report',
          recoverStartup { registry := fileTaskConfig.registry } answer' now' report.db =
            .ok report' ∧ SameStatuses report.db report'.db := by
  refine ⟨by decide, recoverStartup_safe _ 5 fun call hcall _ _ => ⟨fileTask, ?_⟩⟩
  have hname : ∀ call ∈ interruptedDb.toolCalls.rows, call.toolName = "task.create" := by decide
  rw [hname call hcall]
  rfl

end Assistant
end Matinier
