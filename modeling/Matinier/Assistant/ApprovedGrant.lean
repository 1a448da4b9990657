import Matinier.Assistant.Api

/-!
# What an approved grant authorizes

The grant an approval creates is made of what the approval shows. Checked later,
it authorizes the external writes of its execution that have the recorded
capability and candidate and stay within the recorded scope, and no other, for
as long as it is unexpired and unused. There are two exceptions: the grant of
an approval that names the empty candidate names no candidate at all, and a
grant with a text that is too long, or empty, is stored but not read back.
-/

namespace Matinier
namespace Assistant

/-- The requested scope stays within the authorized one: an object key by key, a list item
by item, and a single value within a list where an item covers it. -/
inductive ScopeContains : Json → Json → Prop
  | value {authorized requested : Json} (hobj : ∀ entries, authorized ≠ .obj entries)
      (harr : ∀ items, authorized ≠ .arr items) (h : Json.eqv authorized requested = true) :
      ScopeContains authorized requested
  | object {authorized requested : List (String × Json)} (value : String × Json → Json)
      (found : ∀ entry ∈ requested, Json.lookup entry.1 authorized = some (value entry))
      (within : ∀ entry ∈ requested, ScopeContains (value entry) entry.2) :
      ScopeContains (.obj authorized) (.obj requested)
  | items {authorized requested : List Json} (value : Json → Json)
      (found : ∀ item ∈ requested, value item ∈ authorized)
      (within : ∀ item ∈ requested, ScopeContains (value item) item) :
      ScopeContains (.arr authorized) (.arr requested)
  | item {authorized : List Json} {allowed requested : Json}
      (single : ∀ items, requested ≠ .arr items) (found : allowed ∈ authorized)
      (within : ScopeContains allowed requested) : ScopeContains (.arr authorized) requested

theorem scopeEntryAllows_eq_true {authorized : List (String × Json)} {key : String}
    {requested : Json} :
    scopeEntryAllows authorized key requested = true ↔
      ∃ value, Json.lookup key authorized = some value ∧
        scopeValueAllows value requested = true := by
  induction authorized with
  | nil => simp [scopeEntryAllows, Json.lookup]
  | cons entry rest ih =>
    obtain ⟨k, value⟩ := entry
    by_cases hk : k = key
    · simp [scopeEntryAllows, Json.lookup, hk]
    · simp [scopeEntryAllows, Json.lookup, hk, ih]

theorem scopeItemAllows_eq_true {authorized : List Json} {requested : Json} :
    scopeItemAllows authorized requested = true ↔
      ∃ value ∈ authorized, scopeValueAllows value requested = true := by
  induction authorized with
  | nil => simp [scopeItemAllows]
  | cons value rest ih => simp [scopeItemAllows, ih]

theorem ScopeContains.of_allows {authorized requested : Json}
    (h : scopeValueAllows authorized requested = true) : ScopeContains authorized requested := by
  induction authorized using Json.induction generalizing requested with
  | null | bool b | num n | float q | str s =>
    exact .value (by simp) (by simp) (by simpa [scopeValueAllows] using h)
  | arr authorized ih =>
    by_cases hlist : ∃ items, requested = .arr items
    · obtain ⟨items, rfl⟩ := hlist
      simp only [scopeValueAllows, List.all_eq_true, scopeItemAllows_eq_true] at h
      choose! value hfound hallows using h
      exact .items value hfound fun item hitem =>
        ih (value item) (hfound item hitem) (hallows item hitem)
    · have hitem : scopeItemAllows authorized requested = true := by
        cases requested with
        | arr items => exact absurd ⟨items, rfl⟩ hlist
        | null | bool | num | float | str | obj => simpa [scopeValueAllows] using h
      obtain ⟨allowed, hfound, hallows⟩ := scopeItemAllows_eq_true.mp hitem
      exact .item (fun items heq => hlist ⟨items, heq⟩) hfound (ih allowed hfound hallows)
  | obj authorized ih =>
    cases requested with
    | null | bool | num | float | str | arr => simp [scopeValueAllows] at h
    | obj entries =>
      simp only [scopeValueAllows, List.all_eq_true, scopeEntryAllows_eq_true] at h
      choose! value hfound hallows using h
      exact .object value hfound fun entry hentry =>
        ih _ (Json.mem_of_lookup (hfound entry hentry)) (hallows entry hentry)

theorem scopeValueAllows_eq_true {authorized requested : Json} :
    scopeValueAllows authorized requested = true ↔ ScopeContains authorized requested := by
  refine ⟨.of_allows, fun h => ?_⟩
  induction h with
  | @value authorized requested hobj harr heq =>
    cases authorized with
    | obj entries => exact absurd rfl (hobj entries)
    | arr items => exact absurd rfl (harr items)
    | null | bool | num | float | str => simpa [scopeValueAllows] using heq
  | object value found _ ih =>
    simp only [scopeValueAllows, List.all_eq_true, scopeEntryAllows_eq_true]
    exact fun entry hentry => ⟨value entry, found entry hentry, ih entry hentry⟩
  | items value found _ ih =>
    simp only [scopeValueAllows, List.all_eq_true, scopeItemAllows_eq_true]
    exact fun item hitem => ⟨value item, found item hitem, ih item hitem⟩
  | @item authorized allowed requested single found _ ih =>
    have hitem : scopeItemAllows authorized requested = true :=
      scopeItemAllows_eq_true.mpr ⟨allowed, found, ih⟩
    cases requested with
    | arr items => exact absurd rfl (single items)
    | null | bool | num | float | str | obj => simpa [scopeValueAllows] using hitem

theorem ScopeContains.self {scope : Json} (h : scope.KeysUnique) : ScopeContains scope scope := by
  induction h with
  | null | bool b | num n | float q | str s => exact .value (by simp) (by simp) (by simp [Json.eqv])
  | arr _ ih => exact .items id (fun _ hitem => hitem) ih
  | obj keys _ ih => exact .object Prod.snd (fun _ hentry => Json.lookup_of_mem keys hentry) ih

theorem authorizeToolUse_grant_eq_ok {normalizedText : String → String} {g : ActionGrant}
    {granted : Option ActionGrant} {request : AuthorizationRequest}
    (heffect : request.effect = .externalWrite) :
    authorizeToolUse normalizedText (some g) request = .ok granted ↔
      granted = some g ∧ (g.record.status = .active ∧ request.now < g.record.expiresAt) ∧
        g.record.sessionId = request.sessionId ∧
        normalizedText g.record.goal = normalizedText request.executionGoal ∧
        request.capability ∈ g.record.capabilities ∧
        (∀ candidate ∈ request.candidateId, candidate ∈ g.record.candidateIds) ∧
        ¬ (g.record.candidateIds ≠ [] ∧ request.candidateId = none) ∧
        ScopeContains g.record.resourceScope request.requestedResourceScope ∧
        g.record.usedSideEffects < g.record.maxSideEffects := by
  unfold authorizeToolUse
  simp only [heffect, ne_eq, not_true_eq_false, if_false, bind_eq_ok, ensure_eq_ok, pure_eq_ok,
    exists_const, scopeValueAllows_eq_true]
  tauto

/-- The row has the terms the grant was created with. -/
structure GrantRecord.SameTerms (row grant : GrantRecord) : Prop where
  sessionId : row.sessionId = grant.sessionId
  actorId : row.actorId = grant.actorId
  goal : row.goal = grant.goal
  capabilities : row.capabilities = grant.capabilities
  resourceScope : row.resourceScope = grant.resourceScope
  candidateIds : row.candidateIds = grant.candidateIds
  linearTeamId : row.linearTeamId = grant.linearTeamId
  maxSideEffects : row.maxSideEffects = grant.maxSideEffects
  expiresAt : row.expiresAt = grant.expiresAt

theorem GrantRecord.SameTerms.refl (grant : GrantRecord) : grant.SameTerms grant :=
  ⟨rfl, rfl, rfl, rfl, rfl, rfl, rfl, rfl, rfl⟩

/-- The row is that of the grant, which is active and of which nothing is used. -/
structure GrantRecord.Unused (row grant : GrantRecord) : Prop extends row.SameTerms grant where
  active : row.status = .active
  unused : row.usedSideEffects = 0

def Authorizes (normalizedText : String → String) (row : GrantRecord)
    (request : AuthorizationRequest) : Prop :=
  ∃ g, actionGrantFromRecord row = .ok g ∧
    authorizeToolUse normalizedText (some g) request = .ok (some g)

def recordedInvocation (execution : ExecutionRecord) (approval : ApprovalRecord) (now : Instant) :
    AuthorizationRequest where
  effect := .externalWrite
  capability := approval.capability
  sessionId := execution.sessionId
  executionGoal := execution.goal
  candidateId := approval.candidateId
  requestedResourceScope := approval.resourceScope
  now := now

def GoesBeyond (approval : ApprovalRecord) (request : AuthorizationRequest) : Prop :=
  request.capability ≠ approval.capability ∨ request.candidateId ≠ approval.candidateId ∨
    ¬ ScopeContains approval.resourceScope request.requestedResourceScope

/-- Unused, the grant authorizes the recorded write until it expires, and none that goes
beyond the record. -/
def AuthorizesRecorded (normalizedText : String → String) (execution : ExecutionRecord)
    (approval : ApprovalRecord) (grant : GrantRecord) : Prop :=
  ∀ row : GrantRecord, row.Unused grant →
    (∀ now < grant.expiresAt,
      Authorizes normalizedText row (recordedInvocation execution approval now)) ∧
    ∀ request : AuthorizationRequest, request.effect = .externalWrite →
      GoesBeyond approval request → ¬ Authorizes normalizedText row request

/-- The approval makes a grant of what it records: its candidate is none or is named, and the
texts of the grant may be read back. -/
structure Grantable (execution : ExecutionRecord) (approval : ApprovalRecord) : Prop where
  candidateId : approval.candidateId ≠ some ""
  actorId : 1 ≤ approval.actorId.length ∧ approval.actorId.length ≤ 255
  goal : 1 ≤ execution.goal.length
  team : ∀ team ∈ scopeTeam approval.resourceScope, team.length ≤ 255

section Approved

variable {normalizedText : String → String} {execution : ExecutionRecord}
  {approval : ApprovalRecord} {grantId : GrantId} {ttl : ℕ} {now : Instant} {db db' : Db}

/-- What the acceptance of an approval leaves: the grant, bound to the execution. -/
theorem approveAssistantAction_granted {executionId : ExecutionId} {approvalId : ApprovalId}
    {version : ℕ} {updated : ExecutionRecord}
    (h : approveAssistantAction executionId approvalId version grantId ttl now db =
      .ok (.granted updated, db')) :
    ∃ record approval, db.getExecution executionId = some record ∧
      db.approvals.get approvalId = some approval ∧ now < approval.expiresAt ∧
      db'.getGrant grantId = some ((approvedGrant record approval ttl now).row grantId) ∧
      updated.grantId = some grantId ∧ db'.getExecution executionId = some updated := by
  unfold approveAssistantAction requireApproval at h
  simp only [bind_eq_ok, Db.getExecutionRequired, require_eq_ok] at h
  obtain ⟨record, hrecord, approval, ⟨_, happroval, _, -, hsame⟩, h⟩ := h
  cases hsame
  split_ifs at h with _ hlate
  · cases h
  · simp only [bind_eq_ok, pure_eq_ok, Prod.mk.injEq, Prod.exists] at h
    obtain ⟨_, -, _, _, -, hreply, -⟩ := h
    cases hreply
  · simp only [grantApproval, bind_eq_ok, pure_eq_ok, Prod.mk.injEq, Prod.exists] at h
    obtain ⟨_, -, _, -, _, -, moved, db₁, ⟨grant, db₂, hcreate, resolved, db₃, hresolve,
      hmove⟩, hreply, rfl⟩ := h
    cases hreply
    obtain ⟨rfl, grants, hins, rfl⟩ := Db.createGrant_eq_ok.mp hcreate
    have hgrants : db₃.grants = grants := by
      obtain ⟨_, -, ⟨-, -, rfl⟩ | ⟨-, -, -, rfl⟩⟩ := Db.resolveActionApproval_ok hresolve <;> rfl
    obtain rfl : record.id = executionId := Table.key_of_get hrecord
    rw [not_or, Nat.not_le] at hlate
    refine ⟨record, approval, hrecord, happroval, hlate.1, ?_, ?_, ?_⟩
    · rw [(Db.transitionExecution_moves hmove).rest]
      change db₃.grants.get grantId = _
      rw [hgrants, Table.get_insert hins, if_pos]
      rfl
    · obtain ⟨row, -, -, -, _, rfl, -⟩ := Db.transitionExecution_eq_ok.mp hmove
      rfl
    · rw [Db.getExecution_transition hmove, if_pos rfl]

theorem approvedGrant_candidates {candidate : Option String}
    (hcandidate : approval.candidateId ≠ some "") :
    ((∀ c ∈ candidate, c ∈ ((approvedGrant execution approval ttl now).row grantId).candidateIds) ∧
      ¬ (((approvedGrant execution approval ttl now).row grantId).candidateIds ≠ [] ∧
        candidate = none)) ↔ candidate = approval.candidateId := by
  cases hrecorded : approval.candidateId with
  | none => cases candidate <;> simp [GrantDraft.row, approvedGrant, hrecorded]
  | some recorded =>
    have hne : recorded ≠ "" := fun heq => hcandidate (heq ▸ hrecorded)
    cases candidate <;>
      simp [GrantDraft.row, approvedGrant, hrecorded, hne, Option.filter, List.eraseDups_cons]

theorem approvedGrant_bounded {row : GrantRecord}
    (hrow : row.SameTerms ((approvedGrant execution approval ttl now).row grantId)) :
    row.Bounded ↔ (1 ≤ approval.actorId.length ∧ approval.actorId.length ≤ 255) ∧
      1 ≤ execution.goal.length ∧
      ∀ team ∈ scopeTeam approval.resourceScope, team.length ≤ 255 := by
  have hactor : row.actorId = approval.actorId := hrow.actorId
  have hgoal : row.goal = execution.goal := hrow.goal
  have hteam : row.linearTeamId = scopeTeam approval.resourceScope := hrow.linearTeamId
  rw [← hactor, ← hgoal, ← hteam]
  exact ⟨fun h => ⟨h.actorId, h.goal, h.linearTeamId⟩, fun h => ⟨h.1, h.2.1, h.2.2⟩⟩

theorem approvedGrant_authorizes {row : GrantRecord} {request : AuthorizationRequest}
    (happroval : Grantable execution approval)
    (hrow : row.Unused ((approvedGrant execution approval ttl now).row grantId))
    (heffect : request.effect = .externalWrite) :
    Authorizes normalizedText row request ↔
      request.now < row.expiresAt ∧ execution.sessionId = request.sessionId ∧
        normalizedText execution.goal = normalizedText request.executionGoal ∧
        ¬ GoesBeyond approval request := by
  have husage : row.usedSideEffects ≤ row.maxSideEffects := by simp [hrow.unused]
  have hleft : row.usedSideEffects < row.maxSideEffects := by
    simp [hrow.unused, hrow.maxSideEffects, GrantDraft.row, approvedGrant]
  have hgoal : row.goal = execution.goal := hrow.goal
  have hsession : row.sessionId = execution.sessionId := hrow.sessionId
  have hscope : row.resourceScope = approval.resourceScope := hrow.resourceScope
  have hcapability : request.capability ∈ row.capabilities ↔
      request.capability = approval.capability := by
    simp [hrow.capabilities, GrantDraft.row, approvedGrant, List.eraseDups_cons]
  have hcandidates := @approvedGrant_candidates execution approval grantId ttl now
    request.candidateId happroval.candidateId
  rw [← hrow.candidateIds] at hcandidates
  have hbounded : row.Bounded := (approvedGrant_bounded hrow.toSameTerms).mpr
    ⟨happroval.actorId, happroval.goal, happroval.team⟩
  have hparsed : actionGrantFromRecord row = .ok ⟨row, hbounded, husage⟩ :=
    actionGrantFromRecord_eq_ok.mpr rfl
  simp only [Authorizes, hparsed, Except.ok.injEq, exists_eq_left',
    authorizeToolUse_grant_eq_ok heffect, GoesBeyond]
  simp only [hrow.active, hleft, hgoal, hsession, hscope, hcapability]
  tauto

/-- The grant of an approval authorizes its write at some time only where it is one for it. -/
theorem Grantable.of_authorizes {row : GrantRecord} {at' : Instant}
    (hrow : row.SameTerms ((approvedGrant execution approval ttl now).row grantId))
    (h : Authorizes normalizedText row (recordedInvocation execution approval at')) :
    Grantable execution approval := by
  obtain ⟨g, hparsed, hauthorized⟩ := h
  obtain rfl := actionGrantFromRecord_eq_ok.mp hparsed
  obtain ⟨hactor, hgoal, hteam⟩ := (approvedGrant_bounded hrow).mp g.bounded
  refine ⟨fun hempty => ?_, hactor, hgoal, hteam⟩
  obtain ⟨-, -, -, -, -, hcandidates, -⟩ := (authorizeToolUse_grant_eq_ok rfl).mp hauthorized
  have hmem := hcandidates "" hempty
  rw [hrow.candidateIds] at hmem
  simp [GrantDraft.row, approvedGrant, hempty, Option.filter] at hmem

/-- The grant an accepted approval creates authorizes what the approval records, and nothing
beyond it, exactly where the approval does not name the empty candidate and the grant is read
back. -/
theorem approved_authorizesRecorded_iff {executionId : ExecutionId} {approvalId : ApprovalId}
    {version : ℕ} {updated : ExecutionRecord} (httl : 0 < ttl)
    (h : approveAssistantAction executionId approvalId version grantId ttl now db =
      .ok (.granted updated, db'))
    (hscopes : ∀ approval ∈ db.approvals.get approvalId, approval.resourceScope.KeysUnique) :
    ∃ record approval grant, db.getExecution executionId = some record ∧
      db.approvals.get approvalId = some approval ∧ updated.grantId = some grantId ∧
      db'.getGrant grantId = some grant ∧
      (AuthorizesRecorded normalizedText record approval grant ↔ Grantable record approval) := by
  obtain ⟨record, approval, hrecord, happroval, htime, hgrant, hbound, -⟩ :=
    approveAssistantAction_granted h
  refine ⟨record, approval, _, hrecord, happroval, hbound, hgrant, fun hauthorizes => ?_,
    fun hgrantable row hrow => ?_⟩
  · have hterms := GrantRecord.SameTerms.refl ((approvedGrant record approval ttl now).row grantId)
    have hbefore : now < min approval.expiresAt (now + ttl) :=
      Nat.lt_min.mpr ⟨htime, Nat.lt_add_of_pos_right httl⟩
    exact .of_authorizes hterms ((hauthorizes _ ⟨hterms, rfl, rfl⟩).1 now hbefore)
  · refine ⟨fun at' hbefore => ?_, fun request heffect hbeyond hauthorized => ?_⟩
    · refine (approvedGrant_authorizes hgrantable hrow rfl).mpr ?_
      refine ⟨hrow.expiresAt ▸ hbefore, rfl, rfl, ?_⟩
      simp only [GoesBeyond, recordedInvocation, ne_eq, not_true_eq_false, false_or, not_not]
      exact .self (hscopes approval happroval)
    · exact ((approvedGrant_authorizes hgrantable hrow heffect).mp hauthorized).2.2.2 hbeyond

end Approved

section Example

def askedForApproval (candidate : Option String) : Db where
  executions := (Table.empty.insert
    { id := 1, sessionId := 1, profile := .actionRun, rootExecutionId := 1, goal := "file the task"
      status := .needsInput, createdAt := 0, statusDeclared := by decide }).getD .empty
  approvals := (Table.empty.insert
    { id := 1, executionId := 1, sessionId := 1, actorId := "local-user"
      capability := "task.create", toolName := "task.create", candidateId := candidate
      logicalActionKey := some "file-the-task", resourceScope := .obj [], arguments := .obj []
      evidenceRefs := [], expiresAt := 900 }).getD .empty

/-- The approval of a task is accepted, and its grant authorizes what was approved. -/
theorem approvedTask_authorizesRecorded :
    ∃ (updated : ExecutionRecord) (db' : Db),
      approveAssistantAction 1 1 1 7 60 10 (askedForApproval (some "candidate-1")) =
        .ok (.granted updated, db') ∧
      ∃ record approval grant, (askedForApproval (some "candidate-1")).getExecution 1 =
          some record ∧
        (askedForApproval (some "candidate-1")).approvals.get 1 = some approval ∧
        updated.grantId = some 7 ∧ db'.getGrant 7 = some grant ∧
        (AuthorizesRecorded id record approval grant ↔ Grantable record approval) := by
  obtain ⟨updated, db', haccepted⟩ : ∃ (updated : ExecutionRecord) (db' : Db),
      approveAssistantAction 1 1 1 7 60 10 (askedForApproval (some "candidate-1")) =
        .ok (.granted updated, db') := ⟨_, _, rfl⟩
  refine ⟨updated, db', haccepted, approved_authorizesRecorded_iff (by decide) haccepted ?_⟩
  intro approval happroval
  cases happroval
  exact .obj (by simp) (by simp)

/-- Approved for the empty candidate, the task is refused under the very grant the approval
created. -/
theorem emptyCandidate_not_authorizesRecorded :
    ∃ (updated record : ExecutionRecord) (db' : Db) (approval : ApprovalRecord)
      (grant : GrantRecord),
      approveAssistantAction 1 1 1 7 60 10 (askedForApproval (some "")) =
        .ok (.granted updated, db') ∧
      (askedForApproval (some "")).getExecution 1 = some record ∧
      (askedForApproval (some "")).approvals.get 1 = some approval ∧
      db'.getGrant 7 = some grant ∧ 11 < grant.expiresAt ∧ grant.usedSideEffects = 0 ∧
      ¬ AuthorizesRecorded id record approval grant ∧
      (actionGrantFromRecord grant >>= fun g =>
        authorizeToolUse id (some g) (recordedInvocation record approval 11)) =
        .error (.grantAuthorization "grant_candidate_mismatch"
          "The authorization grant does not include this action candidate.") := by
  refine ⟨_, _, _, _, _, rfl, rfl, rfl, rfl, by decide, rfl, fun h => ?_, rfl⟩
  obtain ⟨g, hparsed, hauthorized⟩ := (h _ ⟨.refl _, rfl, rfl⟩).1 11 (by decide)
  cases hparsed
  cases hauthorized

end Example

end Assistant
end Matinier
