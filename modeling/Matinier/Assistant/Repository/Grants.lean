import Matinier.Assistant.Repository.Executions

/-!
# Action grants

A grant authorizes a bounded number of external writes for one goal. Its budget
is consumed before a write is requested and released when the write turns out
to have had no effect. The functions below are the grant operations of the
repository and the check of one invocation against a grant.
-/

namespace Matinier
namespace Assistant

/-- The texts of a grant have the lengths they may have. -/
structure GrantRecord.Bounded (record : GrantRecord) : Prop where
  actorId : 1 ≤ record.actorId.length ∧ record.actorId.length ≤ 255
  goal : 1 ≤ record.goal.length
  linearTeamId : ∀ team ∈ record.linearTeamId, team.length ≤ 255

instance (record : GrantRecord) : Decidable record.Bounded :=
  decidable_of_iff
    ((1 ≤ record.actorId.length ∧ record.actorId.length ≤ 255) ∧ 1 ≤ record.goal.length ∧
      ∀ team ∈ record.linearTeamId, team.length ≤ 255)
    ⟨fun h => ⟨h.1, h.2.1, h.2.2⟩, fun h => ⟨h.actorId, h.goal, h.linearTeamId⟩⟩

/-- A grant as the checks see it: its texts are bounded, and its usage is within its maximum. -/
structure ActionGrant where
  record : GrantRecord
  bounded : record.Bounded
  usage : record.usedSideEffects ≤ record.maxSideEffects

def actionGrantFromRecord (record : GrantRecord) : Except Fault ActionGrant :=
  if hbounded : record.Bounded then
    if husage : record.usedSideEffects ≤ record.maxSideEffects then .ok ⟨record, hbounded, husage⟩
    else .error (.value "used side effects exceed the Grant maximum")
  else .error (.value "validation error for ActionGrant")

theorem actionGrantFromRecord_eq_ok {record : GrantRecord} {g : ActionGrant} :
    actionGrantFromRecord record = .ok g ↔ g.record = record := by
  unfold actionGrantFromRecord
  constructor
  · intro h
    split_ifs at h
    cases h
    rfl
  · rintro rfl
    rw [dif_pos g.bounded, dif_pos g.usage]

mutual

/-- The authorized value covers the requested one: objects by key, lists by element. -/
def scopeValueAllows : Json → Json → Bool
  | .obj authorized, .obj requested =>
    requested.all fun entry => scopeEntryAllows authorized entry.1 entry.2
  | .obj _, _ => false
  | .arr authorized, .arr requested => requested.all fun value => scopeItemAllows authorized value
  | .arr authorized, requested => scopeItemAllows authorized requested
  | authorized, requested => Json.eqv authorized requested

def scopeEntryAllows : List (String × Json) → String → Json → Bool
  | [], _, _ => false
  | (k, authorized) :: rest, key, requested =>
    if k = key then scopeValueAllows authorized requested
    else scopeEntryAllows rest key requested

def scopeItemAllows : List Json → Json → Bool
  | [], _ => false
  | authorized :: rest, requested =>
    scopeValueAllows authorized requested || scopeItemAllows rest requested

end

structure AuthorizationRequest where
  effect : ToolEffect
  capability : String
  sessionId : SessionId
  executionGoal : String
  candidateId : Option String
  requestedResourceScope : Json
  now : Instant

/-- Check one invocation against a grant without touching its budget. -/
def authorizeToolUse (normalizedText : String → String) (grant : Option ActionGrant)
    (request : AuthorizationRequest) : Except Fault (Option ActionGrant) :=
  if request.effect ≠ .externalWrite then .ok grant
  else do
    let some granted := grant
      | throw (.grantAuthorization "grant_required"
          "This external action requires an active authorization grant.")
    let record := granted.record
    ensure (record.status = .active ∧ request.now < record.expiresAt)
      (.grantAuthorization "grant_inactive" "The authorization grant is no longer active.")
    ensure (record.sessionId = request.sessionId)
      (.grantAuthorization "grant_session_mismatch"
        "The authorization grant belongs to another meeting.")
    ensure (normalizedText record.goal = normalizedText request.executionGoal)
      (.grantAuthorization "grant_goal_mismatch"
        "The authorization grant does not cover this action goal.")
    ensure (request.capability ∈ record.capabilities)
      (.grantAuthorization "grant_capability_missing"
        "The authorization grant does not include this capability.")
    ensure (∀ candidate ∈ request.candidateId, candidate ∈ record.candidateIds)
      (.grantAuthorization "grant_candidate_mismatch"
        "The authorization grant does not include this action candidate.")
    ensure (¬ (record.candidateIds ≠ [] ∧ request.candidateId = none))
      (.grantAuthorization "grant_candidate_required"
        "This authorization grant requires a selected action candidate.")
    ensure (scopeValueAllows record.resourceScope request.requestedResourceScope = true)
      (.grantAuthorization "grant_resource_scope_mismatch"
        "The requested resource is outside the authorization scope.")
    ensure (record.usedSideEffects < record.maxSideEffects)
      (.grantAuthorization "grant_budget_exhausted"
        "The authorization grant has no remaining external actions.")
    return some granted

structure GrantDraft where
  sessionId : SessionId
  actorId : String
  goal : String
  capabilities : List String
  resourceScope : Json
  candidateIds : List String
  linearTeamId : Option String
  maxSideEffects : ℕ
  expiresAt : Instant

def GrantDraft.row (draft : GrantDraft) (id : GrantId) : GrantRecord where
  id := id
  sessionId := draft.sessionId
  actorId := draft.actorId
  goal := draft.goal
  capabilities := draft.capabilities.eraseDups
  resourceScope := draft.resourceScope
  candidateIds := draft.candidateIds.eraseDups
  linearTeamId := draft.linearTeamId
  maxSideEffects := draft.maxSideEffects
  expiresAt := draft.expiresAt

namespace Db

def createGrant (db : Db) (draft : GrantDraft) (id : GrantId) :
    Except Fault (GrantRecord × Db) := do
  let grants ← require (db.grants.insert (draft.row id)) .integrity
  return (draft.row id, { db with grants })

/-- Reserve one side effect of an active grant. -/
def consumeGrant (db : Db) (id : GrantId) (consumedAt : Instant) :
    Except Fault (GrantRecord × Db) := do
  let record ← db.getGrantRequired id
  let nextUsed := record.usedSideEffects + 1
  ensure (record.status = .active ∧ consumedAt < record.expiresAt ∧
      nextUsed ≤ record.maxSideEffects)
    (.grantUnavailable s!"Action Grant is unavailable: {id}")
  let updated := { record with
    usedSideEffects := nextUsed
    status := if nextUsed = record.maxSideEffects then .consumed else .active }
  return (updated, { db with grants := db.grants.set updated })

/-- Give one reserved side effect back; the grant becomes active again, or expires. -/
def releaseGrantSideEffect (db : Db) (id : GrantId) (releasedAt : Instant) :
    Except Fault (GrantRecord × Db) := do
  let record ← db.getGrantRequired id
  ensure (1 ≤ record.usedSideEffects)
    (.grantUnavailable s!"Action Grant has no reserved side effect: {id}")
  ensure (record.status = .active ∨ record.status = .consumed)
    (.grantUnavailable s!"Action Grant changed: {id}")
  let updated := { record with
    usedSideEffects := record.usedSideEffects - 1
    status := if record.expiresAt ≤ releasedAt then .expired else .active }
  return (updated, { db with grants := db.grants.set updated })

def transitionGrantStatus (db : Db) (id : GrantId) (target : GrantStatus)
    (expectedStatus : Option GrantStatus) (changedAt : Instant) :
    Except Fault (GrantRecord × Db) := do
  ensure (target = .revoked ∨ target = .expired)
    (.value "Grant status changes must use consume/release or revoke/expire")
  let record ← db.getGrantRequired id
  ensure (expectedStatus = none ∨ expectedStatus = some record.status)
    (.grantUnavailable s!"Action Grant changed: {id}")
  if record.status = .revoked ∨ record.status = .expired then
    ensure (record.status = target) (.grantUnavailable s!"Action Grant is terminal: {id}")
    return (record, db)
  else
    let updated := { record with
      status := target
      revokedAt := if target = .revoked then some changedAt else record.revokedAt }
    return (updated, { db with grants := db.grants.set updated })

theorem createGrant_eq_ok {db db' : Db} {draft : GrantDraft} {id : GrantId}
    {record : GrantRecord} :
    db.createGrant draft id = .ok (record, db') ↔
      record = draft.row id ∧ ∃ grants, db.grants.insert (draft.row id) = some grants ∧
        db' = { db with grants } := by
  unfold createGrant
  simp only [bind_eq_ok, require_eq_ok, pure_eq_ok, Prod.mk.injEq]
  constructor
  · rintro ⟨grants, hins, rfl, rfl⟩
    exact ⟨rfl, grants, hins, rfl⟩
  · rintro ⟨rfl, grants, hins, rfl⟩
    exact ⟨grants, hins, rfl, rfl⟩

theorem consumeGrant_eq_ok {db db' : Db} {id : GrantId} {now : Instant} {record : GrantRecord} :
    db.consumeGrant id now = .ok (record, db') ↔
      ∃ old, db.getGrant id = some old ∧ old.status = .active ∧ now < old.expiresAt ∧
        old.usedSideEffects + 1 ≤ old.maxSideEffects ∧
        record = { old with
          usedSideEffects := old.usedSideEffects + 1
          status := if old.usedSideEffects + 1 = old.maxSideEffects then .consumed
            else .active } ∧
        db' = { db with grants := db.grants.set record } := by
  unfold consumeGrant getGrantRequired
  simp only [bind_eq_ok, require_eq_ok, ensure_eq_ok, pure_eq_ok, Prod.mk.injEq]
  constructor
  · rintro ⟨old, hold, _, ⟨hs, he, hm⟩, rfl, rfl⟩
    exact ⟨old, hold, hs, he, hm, rfl, rfl⟩
  · rintro ⟨old, hold, hs, he, hm, rfl, rfl⟩
    exact ⟨old, hold, (), ⟨hs, he, hm⟩, rfl, rfl⟩

theorem releaseGrantSideEffect_eq_ok {db db' : Db} {id : GrantId} {now : Instant}
    {record : GrantRecord} :
    db.releaseGrantSideEffect id now = .ok (record, db') ↔
      ∃ old, db.getGrant id = some old ∧ 1 ≤ old.usedSideEffects ∧
        (old.status = .active ∨ old.status = .consumed) ∧
        record = { old with
          usedSideEffects := old.usedSideEffects - 1
          status := if old.expiresAt ≤ now then .expired else .active } ∧
        db' = { db with grants := db.grants.set record } := by
  unfold releaseGrantSideEffect getGrantRequired
  simp only [bind_eq_ok, require_eq_ok, ensure_eq_ok, pure_eq_ok, Prod.mk.injEq]
  constructor
  · rintro ⟨old, hold, _, hu, _, hs, rfl, rfl⟩
    exact ⟨old, hold, hu, hs, rfl, rfl⟩
  · rintro ⟨old, hold, hu, hs, rfl, rfl⟩
    exact ⟨old, hold, (), hu, (), hs, rfl, rfl⟩

theorem transitionGrantStatus_ok {db db' : Db} {id : GrantId} {target : GrantStatus}
    {expected : Option GrantStatus} {now : Instant} {record : GrantRecord}
    (h : db.transitionGrantStatus id target expected now = .ok (record, db')) :
    ∃ old, db.getGrant id = some old ∧ record.id = old.id ∧
      record.usedSideEffects = old.usedSideEffects ∧
      record.maxSideEffects = old.maxSideEffects ∧
      (db' = db ∨ db' = { db with grants := db.grants.set record }) := by
  unfold transitionGrantStatus getGrantRequired at h
  simp only [bind_eq_ok, require_eq_ok, ensure_eq_ok] at h
  obtain ⟨_, -, old, hold, _, -, hwrite⟩ := h
  refine ⟨old, hold, ?_⟩
  split_ifs at hwrite
  · simp only [bind_eq_ok, ensure_eq_ok, pure_eq_ok, Prod.mk.injEq] at hwrite
    obtain ⟨_, -, rfl, rfl⟩ := hwrite
    exact ⟨rfl, rfl, rfl, Or.inl rfl⟩
  · simp only [pure_eq_ok, Prod.mk.injEq] at hwrite
    obtain ⟨rfl, rfl⟩ := hwrite
    exact ⟨rfl, rfl, rfl, Or.inr rfl⟩
  · simp only [pure_eq_ok, Prod.mk.injEq] at hwrite
    obtain ⟨rfl, rfl⟩ := hwrite
    exact ⟨rfl, rfl, rfl, Or.inr rfl⟩

end Db

/-- An authorized external write has an active grant with budget left. -/
theorem authorizeToolUse_external {normalizedText : String → String}
    {grant granted : Option ActionGrant} {request : AuthorizationRequest}
    (heffect : request.effect = .externalWrite)
    (h : authorizeToolUse normalizedText grant request = .ok granted) :
    ∃ g, grant = some g ∧ granted = some g ∧ g.record.status = .active ∧
      g.record.usedSideEffects < g.record.maxSideEffects := by
  unfold authorizeToolUse at h
  simp only [heffect, ne_eq, not_true_eq_false, if_false] at h
  cases grant with
  | none => simp at h
  | some g =>
    simp only [bind_eq_ok, ensure_eq_ok, pure_eq_ok] at h
    obtain ⟨_, hactive, _, -, _, -, _, -, _, -, _, -, _, -, _, hbudget, rfl⟩ := h
    exact ⟨g, rfl, rfl, hactive.1, hbudget⟩

end Assistant
end Matinier
