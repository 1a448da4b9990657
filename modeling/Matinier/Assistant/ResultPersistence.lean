import Matinier.Assistant.ExecutorInvariant

/-!
# When an outcome can be persisted

The outcome of an adapter call is stored with the call, with its claim and, where
it turned out to have had no effect, with the grant of its execution, all in one
transaction. A claim that moved on or a grant that cannot take a side effect back
makes that transaction raise, and the outcome is lost.
-/

namespace Matinier
namespace Assistant

/-- Persisting the answer commits its outcome with the call, and with the claim the flight
settles. -/
def CommitsOutcome (db : Db) (flight : Flight) (answer : AdapterAnswer) (now : Instant) : Prop :=
  ∃ result reply db', adapterResult flight answer = .ok result ∧
    persistResult flight result now db.newObservationId db = .ok (reply, db') ∧
    (∃ call, db'.getToolCall flight.context.toolCallId = some call ∧
      call.status = result.status.toCall ∧ call.result = some result) ∧
    ∀ id expected, flight.claimId = some id → flight.expectedClaimStatus = some expected →
      ∃ claim, db'.claims.get id = some claim ∧
        claim.status = claimStatusAfter expected result.status

/-- The claim the flight settles is held by its execution, in the status the flight expects. -/
def ClaimStands (db : Db) (flight : Flight) : Prop :=
  ∀ id ∈ flight.claimId, ∀ expected ∈ flight.expectedClaimStatus,
    ∃ claim ∈ db.claims.get id, claim.status = expected ∧
      claim.holderExecutionId = flight.context.executionId

/-- The grant of the flight's execution, if it has one, can take a side effect back. -/
def TakesBack (db : Db) (flight : Flight) : Prop :=
  ∀ execution ∈ db.getExecution flight.context.executionId, ∀ id ∈ execution.grantId,
    ∃ grant ∈ db.getGrant id, grant.Releasable

/-- The answer is a result of the tool, the claim is as the flight left it, and the grant
can take the side effect back where there was none. -/
def Persistable (db : Db) (flight : Flight) (answer : AdapterAnswer) : Prop :=
  ∃ result ∈ (adapterResult flight answer).toOption,
    ClaimStands db flight ∧ (Unspent flight result → TakesBack db flight)

instance (grant : GrantRecord) : Decidable grant.Releasable :=
  inferInstanceAs (Decidable (_ ∧ _))

instance (db : Db) (flight : Flight) (answer : AdapterAnswer) :
    Decidable (Persistable db flight answer) :=
  inferInstanceAs (Decidable (∃ result ∈ (adapterResult flight answer).toOption,
    (∀ id ∈ flight.claimId, ∀ expected ∈ flight.expectedClaimStatus,
      ∃ claim ∈ db.claims.get id, claim.status = expected ∧
        claim.holderExecutionId = flight.context.executionId) ∧
    (Unspent flight result →
      ∀ execution ∈ db.getExecution flight.context.executionId, ∀ id ∈ execution.grantId,
        ∃ grant ∈ db.getGrant id, grant.Releasable)))

theorem claimStands_iff {db : Db} {flight : Flight} :
    ClaimStands db flight ↔ flight.Unclaimed ∨ ∃ claim, ClaimHeld db flight claim := by
  constructor
  · intro h
    cases hid : flight.claimId with
    | none => exact Or.inl (Or.inl hid)
    | some id =>
      cases hexpected : flight.expectedClaimStatus with
      | none => exact Or.inl (Or.inr hexpected)
      | some expected =>
        obtain ⟨claim, hclaim, rfl, hholder⟩ := h id hid expected hexpected
        obtain rfl : claim.id = id := Table.key_of_get hclaim
        exact Or.inr ⟨claim, hid, hexpected, hclaim, hholder⟩
  · rintro ((hnone | hnone) | ⟨claim, hclaim, hstatus, hget, hholder⟩) id hid expected hexpected
    · rw [hnone] at hid
      cases hid
    · rw [hnone] at hexpected
      cases hexpected
    · obtain rfl : claim.id = id := Option.some.inj (hclaim.symm.trans hid)
      exact ⟨claim, hget, Option.some.inj (hstatus.symm.trans hexpected), hholder⟩

theorem mem_adapterResult {flight : Flight} {answer : AdapterAnswer} {result : ToolResult} :
    result ∈ (adapterResult flight answer).toOption ↔ adapterResult flight answer = .ok result :=
  toOption_eq_some

/-- Every outcome is a transition of a call that was requested or taken up. -/
theorem toCall_edge {status : ToolCallStatus} (result : ToolResultStatus)
    (h : status = .requesting ∨ status = .reconciling) :
    status = result.toCall ∨ result.toCall ∈ toolCallTransitions status := by
  rcases h with rfl | rfl <;> cases result <;> decide

/-- Every outcome is a transition of a claim that was requested or is unknown. -/
theorem claimStatusAfter_edge {status : ClaimStatus} (result : ToolResultStatus)
    (h : status = .requesting ∨ status = .unknown) :
    status = claimStatusAfter status result ∨
      claimStatusAfter status result ∈ externalActionClaimTransitions status := by
  rcases h with rfl | rfl <;> cases result <;> decide

variable {db db' : Db} {flight : Flight} {answer : AdapterAnswer} {result : ToolResult}
  {call : ToolCallRecord} (now : Instant)

theorem releaseUnspent_of_takesBack
    (hexec : (db.getExecution flight.context.executionId).isSome = true)
    (h : Unspent flight result → TakesBack db flight) :
    ∃ grants, releaseUnspent db flight result now = .ok { db with grants } := by
  by_cases hunspent : Unspent flight result
  · obtain ⟨execution, hexecution⟩ := Option.isSome_iff_exists.mp hexec
    cases hid : execution.grantId with
    | none =>
      exact ⟨db.grants, releaseUnspent_eq_ok.mpr
        (Or.inr ⟨hunspent, execution, hexecution, Or.inl ⟨hid, rfl⟩⟩)⟩
    | some id =>
      obtain ⟨grant, hgrant, hreleasable⟩ := h hunspent execution hexecution id hid
      obtain rfl : grant.id = id := Table.key_of_get hgrant
      exact ⟨_, releaseUnspent_eq_ok.mpr
        (Or.inr ⟨hunspent, execution, hexecution, Or.inr ⟨grant, hid, hgrant, hreleasable, rfl⟩⟩)⟩
  · exact ⟨db.grants, releaseUnspent_eq_ok.mpr (Or.inl ⟨hunspent, rfl⟩)⟩

theorem settleClaim_of_held
    (hexpects : ∀ id status, flight.claimId = some id →
      flight.expectedClaimStatus = some status → status = .requesting ∨ status = .unknown)
    (h : ClaimStands db flight) :
    ∃ claims, settleClaim db flight result = .ok { db with claims } := by
  rcases claimStands_iff.mp h with hunclaimed | ⟨claim, hheld⟩
  · exact ⟨db.claims, settleClaim_eq_ok.mpr (Or.inl ⟨hunclaimed, rfl⟩)⟩
  · have hedge := claimStatusAfter_edge result.status (hexpects _ _ hheld.1 hheld.2.1)
    exact ⟨_, settleClaim_eq_ok.mpr (Or.inr ⟨claim, hheld, hedge, rfl⟩)⟩

/-- The transaction commits where its claim is held and its grant takes the effect back. -/
theorem persistResult_commits (hcall : db.getToolCall flight.context.toolCallId = some call)
    (hopen : call.status = .requesting ∨ call.status = .reconciling)
    (hexec : (db.getExecution flight.context.executionId).isSome = true)
    (hexpects : ∀ id status, flight.claimId = some id →
      flight.expectedClaimStatus = some status → status = .requesting ∨ status = .unknown)
    (hclaim : ClaimStands db flight)
    (hgrant : Unspent flight result → TakesBack db flight) :
    ∃ db', persistResult flight result now db.newObservationId db = .ok (result, db') := by
  have hlive : call.status.isTerminal = false := by rcases hopen with h | h <;> rw [h] <;> rfl
  have hupdate : db.updateToolCall flight.context.toolCallId (some call.status)
      (resultUpdate result now) = .ok (call.updated (resultUpdate result now),
        { db with toolCalls := db.toolCalls.set (call.updated (resultUpdate result now)) }) :=
    Db.updateToolCall_eq_ok.mpr ⟨call, hcall, Or.inr rfl, toCall_edge result.status hopen,
      Or.inr ⟨hlive, rfl, rfl⟩⟩
  let updated : Db :=
    { db with toolCalls := db.toolCalls.set (call.updated (resultUpdate result now)) }
  obtain ⟨claims, hsettle⟩ : ∃ claims, settleClaim updated flight result =
      .ok { updated with claims } := settleClaim_of_held hexpects hclaim
  obtain ⟨grants, hrelease⟩ : ∃ grants, releaseUnspent { updated with claims } flight result now =
      .ok { updated with claims, grants } := releaseUnspent_of_takesBack now hexec hgrant
  have hstill : (({ updated with claims, grants } : Db).getExecution
      flight.context.executionId).isSome = true := hexec
  obtain ⟨record, observations, hobserve⟩ := Db.appendObservation_new hstill .tool
    (resultObservation flight.tool.spec result) flight.context.evidenceRefs
    (some flight.context.toolCallId)
  refine ⟨{ updated with claims, grants, observations }, ?_⟩
  unfold persistResult Db.getToolCallRequired
  simp only [bind_eq_ok, require_eq_ok]
  refine ⟨call, hcall, ?_⟩
  rw [if_neg (by simp [hlive])]
  simp only [bind_eq_ok, pure_eq_ok, Prod.exists]
  exact ⟨_, _, hupdate, _, hsettle, _, hrelease, _, _, hobserve, rfl⟩

theorem Persisted.commits (h : Persisted db db' flight result call) :
    (∃ new, db'.getToolCall flight.context.toolCallId = some new ∧
      new.status = result.status.toCall ∧ new.result = some result) ∧
    ∀ id expected, flight.claimId = some id → flight.expectedClaimStatus = some expected →
      ∃ claim, db'.claims.get id = some claim ∧
        claim.status = claimStatusAfter expected result.status := by
  obtain ⟨now, hwrites⟩ := h.writes
  have hid : call.id = flight.context.toolCallId := Table.key_of_get h.found
  refine ⟨⟨call.updated (resultUpdate result now), hid ▸ hwrites.1, rfl, rfl⟩,
    fun id expected hclaimId hexpected => ?_⟩
  rcases h.claims with ⟨hnone | hnone, -⟩ | ⟨claim, ⟨hclaim, hstatus, -, -⟩, hclaims⟩
  · rw [hnone] at hclaimId
    cases hclaimId
  · rw [hnone] at hexpected
    cases hexpected
  · obtain rfl : claim.id = id := Option.some.inj (hclaim.symm.trans hclaimId)
    obtain rfl : claim.status = expected := Option.some.inj (hstatus.symm.trans hexpected)
    exact ⟨claim.settled result, hclaims.1, rfl⟩

theorem GrantReleased.takesBack (h : GrantReleased db db' flight result)
    (hunspent : Unspent flight result) : TakesBack db flight := by
  intro execution hexec id hid
  rcases h with ⟨hspent, -⟩ | ⟨-, row, hrow, hrelease⟩
  · exact absurd hunspent hspent
  · obtain rfl : row = execution := Option.some.inj (hrow.symm.trans hexec)
    rcases hrelease with ⟨hnone, -⟩ | ⟨grant, _, hgrant, hget, hreleasable, -⟩
    · rw [hnone] at hid
      cases hid
    · obtain rfl : grant.id = id := Option.some.inj (hgrant.symm.trans hid)
      exact ⟨grant, hget, hreleasable⟩

theorem ClaimSettled.stands (h : ClaimSettled db db' flight result) : ClaimStands db flight := by
  rcases h with ⟨hunclaimed, -⟩ | ⟨claim, hheld, -⟩
  · exact claimStands_iff.mpr (Or.inl hunclaimed)
  · exact claimStands_iff.mpr (Or.inr ⟨claim, hheld⟩)

namespace ExecutorWorld

variable {cfg : ExecutorConfig} {u w : ExecutorWorld} {ls : List ExecutorAction} {i : ℕ}

/-- However an answer came about, its outcome is committed exactly where its claim is still
held and its grant can take back what was not spent. -/
theorem commitsOutcome_iff (hstart : u.Initial) (hrun : Run (Steps cfg) u ls w)
    (hi : w.answered[i]? = some (flight, answer))
    (hcall : w.db.getToolCall flight.context.toolCallId = some call)
    (hopen : call.status = .requesting ∨ call.status = .reconciling) :
    CommitsOutcome w.db flight answer now ↔ Persistable w.db flight answer := by
  have htracked := ((Initial.known hstart).run hrun).flights flight
    (List.mem_append_right _ (List.mem_map_of_mem (List.mem_of_getElem? hi)))
  constructor
  · rintro ⟨result, reply, db', hresult, hpersist, -⟩
    rcases persistResult_cases hpersist with ⟨row, hrow, hover, -⟩ | ⟨row, -, hpersisted⟩
    · obtain rfl : call = row := Option.some.inj (hcall.symm.trans hrow)
      rcases hopen with h | h <;> simp [h, ToolCallStatus.isTerminal] at hover
    · exact ⟨result, mem_adapterResult.mpr hresult, hpersisted.claims.stands,
        hpersisted.grants.takesBack⟩
  · rintro ⟨result, hmem, hclaim, hgrant⟩
    have hresult := mem_adapterResult.mp hmem
    obtain ⟨db', hpersist⟩ := persistResult_commits now hcall hopen htracked.execution
      htracked.expects hclaim hgrant
    rcases persistResult_cases hpersist with ⟨row, hrow, hover, -⟩ | ⟨row, -, hpersisted⟩
    · obtain rfl : call = row := Option.some.inj (hcall.symm.trans hrow)
      rcases hopen with h | h <;> simp [h, ToolCallStatus.isTerminal] at hover
    · exact ⟨result, result, db', hresult, hpersist, hpersisted.commits⟩

theorem confirmed_neZero : NeZero 2 := inferInstance

attribute [local instance] confirmed_neZero in
def refusal : AdapterAnswer := .result (.failure "refused" "The tracker refused." none (some 0))

def refusedTrace : List ExecutorAction := [.execute (fileTaskInput none), .callAdapter 0 refusal]

def refusedWorld : ExecutorWorld :=
  (follow (fun w a => next fileTaskConfig w a) refusedTrace (filingWorld (some 1))).get (by decide)

def revokedWorld : ExecutorWorld :=
  (refusedWorld.next fileTaskConfig (.service (.changeGrant 1 .revoked none 2))).get (by decide)

def refusedFlight : Flight := ((refusedWorld.answered[0]?).get (by decide)).1

/-- A refusal commits while the grant is active. -/
theorem refusal_commits :
    Run (Steps fileTaskConfig) (filingWorld (some 1)) refusedTrace refusedWorld ∧
      refusedWorld.answered[0]? = some (refusedFlight, refusal) ∧
      CommitsOutcome refusedWorld.db refusedFlight refusal 3 := by
  have hrun : Run (Steps fileTaskConfig) (filingWorld (some 1)) refusedTrace refusedWorld :=
    run_to_get (fun w a => next fileTaskConfig w a) refusedTrace _ (by decide)
  have hi : refusedWorld.answered[0]? = some (refusedFlight, refusal) := rfl
  have hcall : refusedWorld.db.getToolCall refusedFlight.context.toolCallId = some _ :=
    (Option.some_get (by decide)).symm
  exact ⟨hrun, hi, (commitsOutcome_iff 3 (filingWorld_initial (some 1)) hrun hi hcall
    (Or.inl (by decide))).mpr (by decide)⟩

/-- A refusal does not commit once the grant was revoked: the call stays requested. -/
theorem revoked_refusal_not_commits :
    Run (Steps fileTaskConfig) (filingWorld (some 1))
        (refusedTrace ++ [.service (.changeGrant 1 .revoked none 2)]) revokedWorld ∧
      revokedWorld.answered[0]? = some (refusedFlight, refusal) ∧
      (∃ call, revokedWorld.db.getToolCall refusedFlight.context.toolCallId = some call ∧
        call.status = .requesting) ∧
      (adapterResult refusedFlight refusal).toOption.isSome = true ∧
      ¬ CommitsOutcome revokedWorld.db refusedFlight refusal 3 := by
  have hrun : Run (Steps fileTaskConfig) (filingWorld (some 1)) refusedTrace refusedWorld :=
    run_to_get (fun w a => next fileTaskConfig w a) refusedTrace _ (by decide)
  have hraises : ∀ result ∈ (adapterResult refusedFlight refusal).toOption,
      (persistResult refusedFlight result 3 revokedWorld.db.newObservationId
        revokedWorld.db).toOption.isSome = false := by decide
  refine ⟨hrun.append (.single (Option.some_get _).symm), rfl,
    ⟨_, (Option.some_get (by decide)).symm, by decide⟩, by decide, ?_⟩
  rintro ⟨result, reply, db', hresult, hpersist, -⟩
  have hraised := hraises result (mem_adapterResult.mpr hresult)
  rw [hpersist] at hraised
  cases hraised

end ExecutorWorld

end Assistant
end Matinier
