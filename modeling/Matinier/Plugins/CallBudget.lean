import Matinier.Plugins.BrokerRuns

/-!
# The calls a grant is limited to

A grant may be limited to a number of calls. What is compared with the limit are not the calls that
were authorized under the grant, but all that are recorded for the plugin's version, the session and
the capability: calls under earlier grants count, and those that were rolled back do not.
-/

namespace Matinier
namespace Plugins

open Assistant

section Decisions

variable {request : AuthorizationRequest} {basePermissions : List String}
  {grants : List PluginGrant} {now : Instant}

/-- What a request can be authorized by authorizes it. -/
theorem Authorized.authorize (h : Authorized request basePermissions grants now) :
    ∃ decision, Plugins.authorize request basePermissions grants now = .ok decision := by
  unfold Plugins.authorize
  rw [if_neg (not_not.mpr h.permitted)]
  split_ifs with hrequires
  · obtain ⟨grant, hgrant, hmatches, hactive, hscope, hleft⟩ := h.granted hrequires
    dsimp only
    split
    · exact ⟨_, rfl⟩
    · rename_i hnone
      have hover := List.find?_eq_none.mp hnone grant
        (List.mem_filter.mpr ⟨hgrant, decide_eq_true ⟨hmatches, hactive, hscope⟩⟩)
      simp [hleft] at hover
  · exact ⟨_, rfl⟩

/-- The grant a request is authorized under covers it, and has calls left. -/
theorem grant_of_authorize {decision : AuthorizationDecision} {grantId : ℕ}
    (h : authorize request basePermissions grants now = .ok decision)
    (hgrant : decision.grantId = some grantId) : ∃ grant ∈ grants, grant.grantId = grantId ∧
      grant.Matches request ∧ grant.Exhausted request.callCount = false := by
  unfold authorize at h
  split_ifs at h
  · dsimp only at h
    split at h
    · rename_i grant hfound
      cases h
      have hwithin := List.mem_of_find?_eq_some hfound
      rw [List.mem_filter, decide_eq_true_eq] at hwithin
      have hleft := List.find?_some hfound
      exact ⟨grant, hwithin.1, Option.some.inj hgrant, hwithin.2.1, by simpa using hleft⟩
    · split_ifs at h
  · cases h
    cases hgrant

end Decisions

namespace BrokerDb

variable (db : BrokerDb) (request : AuthorizationRequest)

def asked : AuthorizationRequest :=
  let callCount := db.countCapabilityInvocations request.principal request.mediaSessionId
    request.capability
  { request with callCount := callCount }

def decision (now : Instant) : Except Fault AuthorizationDecision :=
  authorize (db.asked request) (db.listBasePermissions request.principal)
    (db.listCapabilityGrants request.principal request.capability) now

end BrokerDb

/-- The grant a reservation is authorized under, if it needs one, with the key of the call. -/
def BrokerAction.authorizedUnder (registry : CapabilityRegistry) (db : BrokerDb) :
    BrokerAction → Option (ℕ × (String × InvocationKey))
  | .invoke c call env _ | .beginModel c call env =>
    match beginInvocation registry c call env db with
    | .ok (.reserved record e, _) =>
      match db.decision e.request e.now with
      | .ok decision => decision.grantId.map fun grantId => (grantId, Row.key record)
      | .error _ => none
    | _ => none
  | _ => none

/-- The grants of plugins over time: the broker, every grant as it was issued, and the calls that
were authorized under each. -/
structure GrantHistory where
  world : BrokerWorld := {}
  issued : List PluginGrant := []
  authorized : List (ℕ × (String × InvocationKey)) := []

/-- What happens to grants, or to the broker with the grants that there are. -/
inductive GrantAction where
  | broker (a : BrokerAction)
  | issue (grant : PluginGrant)
  | change (grantId : ℕ) (status : GrantStatus) (revokedAt : Option Instant)

/-- The action leaves the grants alone, but for those that go with their plugin. -/
def BrokerAction.LeavesGrants (grants : List PluginGrant) : BrokerAction → Prop
  | .authority a => a.grants = grants
  | _ => True

namespace GrantHistory

variable (registry : CapabilityRegistry) (h : GrantHistory)

def setGrants (grants : List PluginGrant) : GrantHistory :=
  { h with world := { h.world with db := { h.world.db with grants := grants } } }

def issueGrant (grant : PluginGrant) : GrantHistory :=
  { h.setGrants (grant :: h.world.db.grants) with issued := grant :: h.issued }

def changeGrant (grantId : ℕ) (status : GrantStatus) (revokedAt : Option Instant) :
    GrantHistory :=
  h.setGrants (h.world.db.grants.map fun g =>
    if g.grantId = grantId then { g with status := status, revokedAt := revokedAt } else g)

/-- One step; grants are issued under identifiers that are new. -/
inductive Steps : GrantHistory → GrantAction → GrantHistory → Prop
  | broker {h : GrantHistory} {a : BrokerAction} {w : BrokerWorld}
      (leaves : a.LeavesGrants h.world.db.grants) (next : h.world.next registry a = some w) :
      Steps h (.broker a) { h with
        world := w
        authorized := h.authorized ++ (a.authorizedUnder registry h.world.db).toList }
  | issue {h : GrantHistory} {grant : PluginGrant}
      (new : ∀ g ∈ h.issued, g.grantId ≠ grant.grantId) :
      Steps h (.issue grant) (h.issueGrant grant)
  | change {h : GrantHistory} {grantId : ℕ} {status : GrantStatus} {revokedAt : Option Instant} :
      Steps h (.change grantId status revokedAt) (h.changeGrant grantId status revokedAt)

def callsUnder (grantId : ℕ) : List (ℕ × (String × InvocationKey)) :=
  h.authorized.filter fun entry => entry.1 = grantId

def Bounded : Prop :=
  ∀ grant ∈ h.issued, ∀ limit, grant.scope.get? "max_calls" = some (.num limit) →
    (h.callsUnder grant.grantId).length ≤ limit.toNat

/-- The request is for what an active grant of the list covers. -/
def Covers (grant : PluginGrant) (request : AuthorizationRequest) (now : Instant) : Prop :=
  grant ∈ h.world.db.grants ∧ grant.Matches request ∧ grant.Active now ∧
    scopeValueAllows grant.scope request.requestedScope = true

/-- A request under a grant with calls to make, none of which was made, is authorized. -/
def FirstCallsPass : Prop :=
  ∀ grant request now limit, h.Covers grant request now →
    request.capability ∈ h.world.db.listBasePermissions request.principal →
    grant.scope.get? "max_calls" = some (.num limit) → 0 < limit →
    h.callsUnder grant.grantId = [] →
    ∃ decision, h.world.db.decision request now = .ok decision

/-- For every such request, fewer calls are recorded of the plugin's version, the session and the
capability than some active grant that covers it is limited to. -/
def CallsLeft : Prop :=
  ∀ grant request now limit, h.Covers grant request now → request.RequiresSessionGrant →
    request.capability ∈ h.world.db.listBasePermissions request.principal →
    grant.scope.get? "max_calls" = some (.num limit) → 0 < limit →
    h.callsUnder grant.grantId = [] →
    ∃ other, h.Covers other request now ∧
      other.Exhausted (h.world.db.asked request).callCount = false

variable {h}

variable {request : AuthorizationRequest} {now : Instant}

theorem decision_ok_iff : (∃ decision, h.world.db.decision request now = .ok decision) ↔
    request.capability ∈ h.world.db.listBasePermissions request.principal ∧
      (request.RequiresSessionGrant → ∃ other, h.Covers other request now ∧
        other.Exhausted (h.world.db.asked request).callCount = false) := by
  constructor
  · rintro ⟨decision, hdecision⟩
    obtain ⟨hpermitted, hgranted⟩ := authorized_of_authorize hdecision
    refine ⟨hpermitted, fun hrequires => ?_⟩
    obtain ⟨other, hother, hmatches, hactive, hscope, hleft⟩ := hgranted hrequires
    exact ⟨other, ⟨(List.mem_filter.mp hother).1, hmatches, hactive, hscope⟩, hleft⟩
  · rintro ⟨hpermitted, hgranted⟩
    have hauthorized : Authorized (h.world.db.asked request)
        (h.world.db.listBasePermissions request.principal)
        (h.world.db.listCapabilityGrants request.principal request.capability) now := by
      refine ⟨hpermitted, fun hrequires => ?_⟩
      obtain ⟨other, ⟨hother, hmatches, hactive, hscope⟩, hleft⟩ := hgranted hrequires
      refine ⟨other, ?_, hmatches, hactive, hscope, hleft⟩
      exact List.mem_filter.mpr
        ⟨hother, decide_eq_true ⟨hmatches.1, hmatches.2.1, hmatches.2.2.1⟩⟩
    exact hauthorized.authorize

theorem firstCallsPass_iff : h.FirstCallsPass ↔ h.CallsLeft := by
  constructor
  · intro hpass grant request now limit hcovers hrequires hpermitted hlimit hpositive hnone
    exact (decision_ok_iff.mp
      (hpass grant request now limit hcovers hpermitted hlimit hpositive hnone)).2 hrequires
  · intro hleft grant request now limit hcovers hpermitted hlimit hpositive hnone
    exact decision_ok_iff.mpr ⟨hpermitted, fun hrequires =>
      hleft grant request now limit hcovers hrequires hpermitted hlimit hpositive hnone⟩

end GrantHistory

/-- The grants stay, and every record, as one of the same version, session and capability. -/
structure IdentityKept (db db' : BrokerDb) : Prop where
  grants : db'.grants = db.grants
  records : ∀ key old, db.invocations.get key = some old → ∃ new,
    db'.invocations.get key = some new ∧ new.pluginVersion = old.pluginVersion ∧
      new.mediaSessionId = old.mediaSessionId ∧ new.capability = old.capability

section Records

variable {registry : CapabilityRegistry} {c : BrokerConnection} {call : CapabilityCall}
  {env : Surroundings} {db db' db'' : BrokerDb} {record new : InvocationRecord} {e : Execution}

theorem IdentityKept.refl (db : BrokerDb) : IdentityKept db db :=
  ⟨rfl, fun _ old hold => ⟨old, hold, rfl, rfl, rfl⟩⟩

theorem IdentityKept.trans (h : IdentityKept db db') (h' : IdentityKept db' db'') :
    IdentityKept db db'' := by
  refine ⟨h'.grants.trans h.grants, fun key old hold => ?_⟩
  obtain ⟨middle, hmiddle, hversion, hsession, hcapability⟩ := h.records key old hold
  obtain ⟨new, hnew, hversion', hsession', hcapability'⟩ := h'.records key middle hmiddle
  exact ⟨new, hnew, hversion'.trans hversion, hsession'.trans hsession,
    hcapability'.trans hcapability⟩

theorem IdentityKept.of_writes (hgrants : db'.grants = db.grants)
    (hwrites : Table.Writes db.invocations db'.invocations new)
    (hold : ∀ old, db.invocations.get (Row.key new) = some old →
      new.pluginVersion = old.pluginVersion ∧ new.mediaSessionId = old.mediaSessionId ∧
      new.capability = old.capability) : IdentityKept db db' := by
  refine ⟨hgrants, fun key old hget => ?_⟩
  by_cases hkey : key = Row.key new
  · subst hkey
    exact ⟨new, hwrites.1, hold old hget⟩
  · exact ⟨old, (hwrites.2 key hkey).trans hget, rfl, rfl, rfl⟩

theorem identityKept_set (hget : db.invocations.get (Row.key record) = some record)
    (hkey : Row.key new = Row.key record)
    (hsame : new.pluginVersion = record.pluginVersion ∧
      new.mediaSessionId = record.mediaSessionId ∧ new.capability = record.capability) :
    IdentityKept db { db with invocations := db.invocations.set new } := by
  have hwrites : Table.Writes db.invocations (db.invocations.set new) new :=
    .of_set (hkey ▸ hget) ⟨hkey.symm, Or.inl rfl⟩
  refine .of_writes rfl hwrites fun old hold => ?_
  rw [hkey, hget] at hold
  cases hold
  exact hsame

theorem identityKept_settle (hget : db.invocations.get (Row.key record) = some record)
    (run : HandlerRun) : IdentityKept db (settle record run db).2 := by
  unfold settle
  split
  · exact identityKept_set hget rfl ⟨rfl, rfl, rfl⟩
  · exact .refl db
  · exact .refl db
  · exact identityKept_set hget rfl ⟨rfl, rfl, rfl⟩
  · exact identityKept_set hget rfl ⟨rfl, rfl, rfl⟩
  · exact identityKept_set hget rfl ⟨rfl, rfl, rfl⟩
  · exact .refl db

theorem identityKept_resume {capability : String} {result : Json}
    (hget : db.invocations.get (Row.key record) = some record)
    (h : resumeExisting registry capability record env db = .ok (result, db')) :
    IdentityKept db db' := by
  rcases resumeExisting_cases h with ⟨-, rfl⟩ | ⟨-, -, -, rfl⟩
  · exact .refl _
  · exact identityKept_set hget rfl ⟨rfl, rfl, rfl⟩

/-- What a reservation records, and what it was decided by. -/
structure Decided (db db' : BrokerDb) (record : InvocationRecord) (e : Execution) : Prop where
  plugin : record.pluginId = e.request.principal.pluginId
  version : record.pluginVersion = e.request.principal.version
  session : record.mediaSessionId = e.request.mediaSessionId
  capability : record.capability = e.request.capability
  counted : e.request = db.asked e.request
  granted : ∃ decision, db.decision e.request e.now = .ok decision
  free : db.invocations.get (Row.key record) = none
  stored : db'.invocations.get (Row.key record) = some record
  kept : IdentityKept db db'

theorem begin_decided (h : beginInvocation registry c call env db = .ok (.reserved record e, db')) :
    Decided db db' record e := by
  have hreserved := begin_reserved h
  unfold beginInvocation at h
  simp only [bind_eq_ok] at h
  obtain ⟨checked, hchecked, h⟩ := h
  obtain ⟨hkey, hversion, -, -⟩ := checkCall_record hchecked
  split at h
  · simp only [bind_eq_ok, pure_eq_ok, Prod.mk.injEq, reduceCtorEq, false_and, and_false,
      exists_false] at h
  · rename_i hget
    simp only [bind_eq_ok, Prod.exists, pure_eq_ok, Prod.mk.injEq, Begun.reserved.injEq] at h
    obtain ⟨_, -, decision, hdecision, created, created', hcreate, ⟨rfl, rfl⟩, rfl⟩ := h
    obtain ⟨rfl, invocations, hwrites, rfl⟩ := createCapabilityInvocation_new hget hcreate
    have hplugin : checked.record.pluginId = c.pluginId := congrArg Prod.fst hkey
    refine ⟨hplugin, hversion, rfl, rfl, rfl, ⟨decision, hdecision⟩, hget, hwrites.1, ?_⟩
    refine .of_writes rfl hwrites fun old hold => ?_
    rw [hget] at hold
    cases hold

end Records

/-- The handler of a call that is reserved returns, if it is run with the host's lock. -/
def BrokerAction.Completes : BrokerAction → Prop
  | .invoke _ _ _ run => ∃ result, run = .returned result
  | _ => True

theorem BrokerAction.Completes.returns {a : BrokerAction} (ha : a.Completes) : a.Returns := by
  cases a with
  | invoke c call env run =>
    obtain ⟨result, rfl⟩ := ha
    trivial
  | beginModel | startModel | settleModel | dropModel | authority | uninstall => trivial

/-- Two grants are the same but for their status. -/
structure PluginGrant.SameTerms (grant other : PluginGrant) : Prop where
  grantId : grant.grantId = other.grantId
  pluginId : grant.pluginId = other.pluginId
  pluginVersion : grant.pluginVersion = other.pluginVersion
  session : grant.mediaSessionId = other.mediaSessionId
  capability : grant.capability = other.capability
  scope : grant.scope = other.scope

theorem PluginGrant.SameTerms.refl (grant : PluginGrant) : grant.SameTerms grant :=
  ⟨rfl, rfl, rfl, rfl, rfl, rfl⟩

theorem PluginGrant.SameTerms.symm {grant other : PluginGrant} (h : grant.SameTerms other) :
    other.SameTerms grant :=
  ⟨h.grantId.symm, h.pluginId.symm, h.pluginVersion.symm, h.session.symm, h.capability.symm,
    h.scope.symm⟩

theorem PluginGrant.SameTerms.trans {grant other third : PluginGrant} (h : grant.SameTerms other)
    (h' : other.SameTerms third) : grant.SameTerms third :=
  ⟨h.grantId.trans h'.grantId, h.pluginId.trans h'.pluginId, h.pluginVersion.trans h'.pluginVersion,
    h.session.trans h'.session, h.capability.trans h'.capability, h.scope.trans h'.scope⟩

def RecordedFor (db : BrokerDb) (key : String × InvocationKey) (grant : PluginGrant) : Prop :=
  key.1 = grant.pluginId ∧ ∃ record, db.invocations.get key = some record ∧
    record.pluginVersion = grant.pluginVersion ∧
    record.mediaSessionId = grant.mediaSessionId ∧ record.capability = grant.capability

theorem RecordedFor.kept {db db' : BrokerDb} {key : String × InvocationKey} {grant : PluginGrant}
    (h : RecordedFor db key grant) (hkept : IdentityKept db db') : RecordedFor db' key grant := by
  obtain ⟨hplugin, record, hget, hversion, hsession, hcapability⟩ := h
  obtain ⟨new, hnew, hversion', hsession', hcapability'⟩ := hkept.records key record hget
  exact ⟨hplugin, new, hnew, hversion'.trans hversion, hsession'.trans hsession,
    hcapability'.trans hcapability⟩

theorem RecordedFor.terms {db : BrokerDb} {key : String × InvocationKey}
    {grant other : PluginGrant} (h : RecordedFor db key grant) (hsame : grant.SameTerms other) :
    RecordedFor db key other := by
  obtain ⟨hplugin, record, hget, hversion, hsession, hcapability⟩ := h
  exact ⟨hplugin.trans hsame.pluginId, record, hget, hversion.trans hsame.pluginVersion,
    hsession.trans hsame.session, hcapability.trans hsame.capability⟩

section Broker

variable {registry : CapabilityRegistry} {w w' : BrokerWorld} {a : BrokerAction}

/-- What a call is reserved for stays when its handler has returned. -/
theorem invoke_kept {c : BrokerConnection} {call : CapabilityCall} {env : Surroundings}
    {db reserved : BrokerDb} {record : InvocationRecord} {e : Execution} (result : Json)
    (hbegin : beginInvocation registry c call env db = .ok (.reserved record e, reserved)) :
    IdentityKept reserved (hostInvoke registry c call env (.returned result) db).db := by
  simp only [hostInvoke, hbegin, settle]
  exact identityKept_set (begin_decided hbegin).stored rfl ⟨rfl, rfl, rfl⟩

theorem resumed_kept {c : BrokerConnection} {call : CapabilityCall} {env : Surroundings}
    {capability : String} {db found resumed : BrokerDb} {record : InvocationRecord} {result : Json}
    (hbegin : beginInvocation registry c call env db = .ok (.existing record, found))
    (hresume : resumeExisting registry capability record env found = .ok (result, resumed)) :
    IdentityKept db resumed := by
  obtain ⟨rfl, hrecord, -⟩ := begin_existing hbegin
  exact identityKept_resume (Table.get_of_mem (Table.mem_of_get hrecord)) hresume

theorem broker_kept (hs : w.Sound) (ha : a.Completes) (hleaves : a.LeavesGrants w.db.grants)
    (hnext : w.next registry a = some w') :
    IdentityKept w.db w'.db ∨ ∃ pluginId, a = .uninstall pluginId := by
  cases a with
  | invoke c call env run =>
    simp only [BrokerWorld.next] at hnext
    split_ifs at hnext
    cases hnext
    obtain ⟨result, rfl⟩ := ha
    refine .inl ?_
    unfold BrokerWorld.invoke
    cases hbegin : beginInvocation registry c call env w.db with
    | error fault =>
      simp only [hostInvoke, hbegin]
      exact .refl _
    | ok begun =>
      obtain ⟨begun, found⟩ := begun
      cases begun with
      | existing record =>
        simp only [hostInvoke, hbegin]
        split
        · exact .refl _
        · rename_i stored resumed hresume
          exact resumed_kept hbegin hresume
      | reserved record e => exact (begin_decided hbegin).kept.trans (invoke_kept result hbegin)
  | beginModel c call env =>
    simp only [BrokerWorld.next] at hnext
    split_ifs at hnext
    cases hnext
    refine .inl ?_
    unfold BrokerWorld.beginModel
    split
    · exact .refl _
    · rename_i record found hbegin
      split
      · exact .refl _
      · rename_i stored resumed hresume
        exact resumed_kept hbegin hresume
    · rename_i record e reserved hbegin
      exact (begin_decided hbegin).kept
  | startModel i =>
    simp only [BrokerWorld.next, Option.bind_eq_bind, Option.bind_eq_some_iff] at hnext
    obtain ⟨call, -, hnext⟩ := hnext
    split_ifs at hnext
    cases hnext
    exact .inl (.refl _)
  | settleModel i run =>
    simp only [BrokerWorld.next, Option.bind_eq_bind, Option.bind_eq_some_iff] at hnext
    obtain ⟨call, hcall, hnext⟩ := hnext
    split_ifs at hnext
    cases hnext
    exact .inl (identityKept_settle (hs.waiting call (List.mem_of_getElem? hcall)).stored run)
  | dropModel i =>
    cases hnext
    exact .inl (.refl _)
  | authority authority =>
    cases hnext
    exact .inl ⟨hleaves, fun _ old hold => ⟨old, hold, rfl, rfl, rfl⟩⟩
  | uninstall pluginId => exact .inr ⟨pluginId, rfl⟩

/-- The grant that a reservation was authorized under is for what was recorded, and had calls
left. -/
theorem Decided.grant {db reserved : BrokerDb} {record : InvocationRecord} {e : Execution}
    {decision : AuthorizationDecision} {grantId : ℕ} (h : Decided db reserved record e)
    (hdecision : db.decision e.request e.now = .ok decision)
    (hgrant : decision.grantId = some grantId) :
    ∃ grant ∈ db.grants, grant.grantId = grantId ∧ record.pluginId = grant.pluginId ∧
      record.pluginVersion = grant.pluginVersion ∧ record.mediaSessionId = grant.mediaSessionId ∧
      record.capability = grant.capability ∧
      grant.Exhausted (db.countCapabilityInvocations ⟨grant.pluginId, grant.pluginVersion⟩
        grant.mediaSessionId grant.capability) = false := by
  obtain ⟨grant, hlisted, hid, hmatches, hleft⟩ := grant_of_authorize hdecision hgrant
  obtain ⟨hplugin, hversion, hcapability, -, hsession⟩ := hmatches
  refine ⟨grant, List.mem_of_mem_filter hlisted, hid, h.plugin.trans hplugin.symm,
    h.version.trans hversion.symm, h.session.trans hsession.symm,
    h.capability.trans hcapability.symm, ?_⟩
  have hprincipal : (⟨grant.pluginId, grant.pluginVersion⟩ : PluginPrincipal) =
      e.request.principal := by
    rw [hplugin, hversion]
    rfl
  rw [hprincipal, hsession, hcapability]
  exact hleft

/-- A call that is authorized under a grant leaves a record of what that grant is for, under a key
that had none, and finds the grant with calls left. -/
structure RecordedUnder (w w' : BrokerWorld) (key : String × InvocationKey) (grant : PluginGrant) :
    Prop where
  free : w.db.invocations.get key = none
  left : grant.Exhausted (w.db.countCapabilityInvocations
    ⟨grant.pluginId, grant.pluginVersion⟩ grant.mediaSessionId grant.capability) = false
  recorded : RecordedFor w'.db key grant

theorem RecordedUnder.of_decided {reserved : BrokerDb} {record : InvocationRecord} {e : Execution}
    {decision : AuthorizationDecision} {grantId : ℕ} (h : Decided w.db reserved record e)
    (hdecision : w.db.decision e.request e.now = .ok decision)
    (hgrant : decision.grantId = some grantId) (hkept : IdentityKept reserved w'.db) :
    ∃ grant ∈ w.db.grants, grant.grantId = grantId ∧
      RecordedUnder w w' (Row.key record) grant := by
  obtain ⟨grant, hmem, hid, hplugin, hversion, hsession, hcapability, hleft⟩ :=
    h.grant hdecision hgrant
  obtain ⟨new, hnew, hversion', hsession', hcapability'⟩ := hkept.records _ _ h.stored
  exact ⟨grant, hmem, hid, h.free, hleft, hplugin, new, hnew, hversion'.trans hversion,
    hsession'.trans hsession, hcapability'.trans hcapability⟩

theorem authorizedUnder_some {grantId : ℕ} {key : String × InvocationKey} (ha : a.Completes)
    (hnext : w.next registry a = some w')
    (h : a.authorizedUnder registry w.db = some (grantId, key)) :
    ∃ grant ∈ w.db.grants, grant.grantId = grantId ∧ RecordedUnder w w' key grant := by
  cases a with
  | invoke c call env run =>
    simp only [BrokerWorld.next] at hnext
    split_ifs at hnext
    cases hnext
    obtain ⟨result, rfl⟩ := ha
    simp only [BrokerAction.authorizedUnder] at h
    split at h
    · rename_i record e reserved hbegin
      split at h
      · rename_i decision hdecision
        obtain ⟨_, hgrant, hentry⟩ := Option.map_eq_some_iff.mp h
        cases hentry
        exact RecordedUnder.of_decided (begin_decided hbegin) hdecision hgrant
          (invoke_kept result hbegin)
      · cases h
    · cases h
  | beginModel c call env =>
    simp only [BrokerWorld.next] at hnext
    split_ifs at hnext
    cases hnext
    simp only [BrokerAction.authorizedUnder] at h
    split at h
    · rename_i record e reserved hbegin
      split at h
      · rename_i decision hdecision
        obtain ⟨_, hgrant, hentry⟩ := Option.map_eq_some_iff.mp h
        cases hentry
        refine RecordedUnder.of_decided (begin_decided hbegin) hdecision hgrant ?_
        simp only [BrokerWorld.beginModel, hbegin]
        exact .refl _
      · cases h
    · cases h
  | startModel | settleModel | dropModel | authority | uninstall => cases h

end Broker

namespace GrantHistory

variable {registry : CapabilityRegistry} {h h' : GrantHistory} {a : GrantAction}

/-- What holds of grants over time: those there are were issued, under identifiers of their own,
and the calls that were authorized under one of them are recorded, and no more than its limit. -/
structure Standing (h : GrantHistory) : Prop where
  sound : h.world.Sound
  different : (h.issued.map PluginGrant.grantId).Nodup
  known : ∀ entry ∈ h.authorized, ∃ grant ∈ h.issued, grant.grantId = entry.1
  terms : ∀ grant ∈ h.world.db.grants, ∃ g ∈ h.issued, g.SameTerms grant
  once : h.authorized.Nodup
  recorded : ∀ entry ∈ h.authorized, ∀ grant ∈ h.world.db.grants, grant.grantId = entry.1 →
    RecordedFor h.world.db entry.2 grant
  bounded : h.Bounded

/-- Keys that are recorded for what a grant is for are among the calls that are counted for it. -/
theorem length_le_count {db : BrokerDb} {keys : List (String × InvocationKey)}
    {grant : PluginGrant} (hnodup : keys.Nodup)
    (hrecorded : ∀ key ∈ keys, RecordedFor db key grant) :
    keys.length ≤ db.countCapabilityInvocations ⟨grant.pluginId, grant.pluginVersion⟩
      grant.mediaSessionId grant.capability := by
  unfold BrokerDb.countCapabilityInvocations
  refine le_trans ?_ (List.length_map (f := Row.key)).le
  refine (List.subperm_of_subset hnodup fun key hkey => ?_).length_le
  obtain ⟨hplugin, record, hget, hversion, hsession, hcapability⟩ := hrecorded key hkey
  have hkey := Table.key_of_get hget
  have hrow : record.pluginId = grant.pluginId := (congrArg Prod.fst hkey).trans hplugin
  exact List.mem_map.mpr ⟨record, Table.mem_select.mpr
    ⟨Table.mem_of_get hget, decide_eq_true ⟨hrow, hversion, hsession, hcapability⟩⟩, hkey⟩

theorem Standing.same (h : Standing h') {grant other : PluginGrant}
    (hgrant : grant ∈ h'.issued) (hother : other ∈ h'.world.db.grants)
    (hid : grant.grantId = other.grantId) : grant.SameTerms other := by
  obtain ⟨g, hg, hsame⟩ := h.terms other hother
  have hg : g = grant :=
    List.inj_on_of_nodup_map h.different hg hgrant (hsame.grantId.trans hid.symm)
  exact hg ▸ hsame

/-- A grant with calls left has fewer calls authorized under it than it is limited to. -/
theorem Standing.left (h : Standing h') {grant : PluginGrant} (hgrant : grant ∈ h'.world.db.grants)
    (hleft : grant.Exhausted (h'.world.db.countCapabilityInvocations
      ⟨grant.pluginId, grant.pluginVersion⟩ grant.mediaSessionId grant.capability) = false)
    {limit : ℤ} (hlimit : grant.scope.get? "max_calls" = some (.num limit)) :
    (h'.callsUnder grant.grantId).length < limit.toNat := by
  have hkeys : ∀ entry ∈ h'.callsUnder grant.grantId, entry ∈ h'.authorized ∧
      grant.grantId = entry.1 := fun entry hentry => by
    obtain ⟨hmem, hid⟩ := List.mem_filter.mp hentry
    exact ⟨hmem, (of_decide_eq_true hid).symm⟩
  have hnodup : ((h'.callsUnder grant.grantId).map Prod.snd).Nodup := by
    refine List.Nodup.map_on (fun a ha b hb heq => ?_) (h.once.filter _)
    exact Prod.ext ((hkeys a ha).2.symm.trans (hkeys b hb).2) heq
  have hcount := length_le_count hnodup fun key hkey => by
    obtain ⟨entry, hentry, rfl⟩ := List.mem_map.mp hkey
    exact h.recorded entry (hkeys entry hentry).1 grant hgrant (hkeys entry hentry).2
  rw [List.length_map] at hcount
  simp only [PluginGrant.Exhausted, hlimit, decide_eq_false_iff_not] at hleft
  omega

def HandlersReturn (_ : GrantHistory) (a : GrantAction) : Prop :=
  ∀ b, a = .broker b → b.Completes

theorem handlersReturn_issue (grant : PluginGrant) : HandlersReturn h (.issue grant) :=
  fun _ heq => by cases heq

theorem handlersReturn_change {grantId : ℕ} {status : GrantStatus} {revokedAt : Option Instant} :
    HandlersReturn h (.change grantId status revokedAt) :=
  fun _ heq => by cases heq

theorem callsUnder_append (h : GrantHistory) (w : BrokerWorld)
    (entry : ℕ × (String × InvocationKey)) (grantId : ℕ) :
    ({ h with world := w, authorized := h.authorized ++ [entry] } :
      GrantHistory).callsUnder grantId =
      h.callsUnder grantId ++ [entry].filter fun e => e.1 = grantId :=
  List.filter_append ..

/-- What a step of the broker leaves of the grants and of what is recorded for them. -/
theorem Standing.kept (hs : Standing h) {b : BrokerAction} {w : BrokerWorld} (hb : b.Completes)
    (leaves : b.LeavesGrants h.world.db.grants) (next : h.world.next registry b = some w) :
    (∀ grant ∈ w.db.grants, grant ∈ h.world.db.grants) ∧
      ∀ entry ∈ h.authorized, ∀ grant ∈ w.db.grants, grant.grantId = entry.1 →
        RecordedFor w.db entry.2 grant := by
  rcases broker_kept hs.sound hb leaves next with hkept | ⟨pluginId, rfl⟩
  · exact ⟨fun grant hgrant => hkept.grants ▸ hgrant, fun entry hentry grant hgrant hid =>
      (hs.recorded entry hentry grant (hkept.grants ▸ hgrant) hid).kept hkept⟩
  · cases next
    refine ⟨fun grant hgrant => List.mem_of_mem_filter hgrant,
      fun entry hentry grant hgrant hid => ?_⟩
    obtain ⟨hmem, hother⟩ := List.mem_filter.mp hgrant
    obtain ⟨hplugin, record, hget, hrest⟩ := hs.recorded entry hentry grant hmem hid
    have hother : entry.2.1 ≠ pluginId := hplugin ▸ of_decide_eq_true hother
    exact ⟨hplugin, record,
      (BrokerWorld.get_deletePlugin _ pluginId entry.2).trans ((if_neg hother).trans hget), hrest⟩

theorem Standing.broker (hs : Standing h) {b : BrokerAction} {w : BrokerWorld} (hb : b.Completes)
    (leaves : b.LeavesGrants h.world.db.grants) (next : h.world.next registry b = some w) :
    Standing { h with
      world := w
      authorized := h.authorized ++ (b.authorizedUnder registry h.world.db).toList } := by
  obtain ⟨hgrants, hrecorded⟩ := hs.kept hb leaves next
  have hsound := (hs.sound.next hb.returns next).1
  cases hentry : b.authorizedUnder registry h.world.db with
  | none =>
    simp only [Option.toList_none, List.append_nil]
    exact ⟨hsound, hs.different, hs.known,
      fun grant hgrant => hs.terms grant (hgrants grant hgrant), hs.once, hrecorded, hs.bounded⟩
  | some entry =>
    obtain ⟨grantId, key⟩ := entry
    obtain ⟨grant, hgrant, rfl, hunder⟩ := authorizedUnder_some hb next hentry
    obtain ⟨issued, hissued, hterms⟩ := hs.terms grant hgrant
    simp only [Option.toList_some]
    refine ⟨hsound, hs.different, fun entry he => ?_,
      fun grant hgrant => hs.terms grant (hgrants grant hgrant), ?_,
      fun entry he other hother hid => ?_, fun other hother limit hlimit => ?_⟩
    · rcases List.mem_append.mp he with he | he
      · exact hs.known entry he
      · obtain rfl := List.mem_singleton.mp he
        exact ⟨issued, hissued, hterms.grantId⟩
    · refine List.nodup_append.mpr
        ⟨hs.once, List.nodup_singleton _, fun old hold new hnew heq => ?_⟩
      obtain rfl := List.mem_singleton.mp hnew
      subst heq
      obtain ⟨-, record, hget, -⟩ := hs.recorded _ hold grant hgrant rfl
      rw [hunder.free] at hget
      cases hget
    · rcases List.mem_append.mp he with he | he
      · exact hrecorded entry he other hother hid
      · obtain rfl := List.mem_singleton.mp he
        have hsame := hs.same hissued (hgrants other hother) (hterms.grantId.trans hid.symm)
        exact hunder.recorded.terms (hterms.symm.trans hsame)
    · rw [callsUnder_append, List.length_append]
      by_cases hid : other.grantId = grant.grantId
      · have hsame := hs.same hother hgrant hid
        have hleft := hs.left hgrant hunder.left (hsame.scope ▸ hlimit)
        rw [List.filter_cons_of_pos (by simp [hid]), List.filter_nil, hid]
        exact hleft
      · rw [List.filter_cons_of_neg (by simpa using Ne.symm hid), List.filter_nil, List.length_nil]
        exact hs.bounded other hother limit hlimit

/-- A grant may be issued, and any number of them changed, as long as each of them was issued. -/
theorem Standing.setGrants (hs : Standing h) {grants : List PluginGrant}
    (hgrants : ∀ grant ∈ grants, ∃ g ∈ h.world.db.grants, g.SameTerms grant) :
    Standing (h.setGrants grants) := by
  have hsound := hs.sound
  refine ⟨⟨hsound.once, hsound.recorded, fun call hcall => ?_, hsound.different⟩, hs.different,
    hs.known, fun grant hgrant => ?_, hs.once, fun entry hentry grant hgrant hid => ?_, hs.bounded⟩
  · obtain ⟨hstored, hpending, hknown, hexecution, hfresh⟩ := hsound.waiting call hcall
    exact ⟨hstored, hpending, hknown, hexecution, hfresh⟩
  · obtain ⟨g, hg, hsame⟩ := hgrants grant hgrant
    obtain ⟨issued, hissued, hterms⟩ := hs.terms g hg
    exact ⟨issued, hissued, hterms.trans hsame⟩
  · obtain ⟨g, hg, hsame⟩ := hgrants grant hgrant
    exact (hs.recorded entry hentry g hg (hsame.grantId.trans hid)).terms hsame

theorem Standing.issue (hs : Standing h) {grant : PluginGrant}
    (new : ∀ g ∈ h.issued, g.grantId ≠ grant.grantId) :
    Standing (h.issueGrant grant) := by
  have hnone : ∀ entry ∈ h.authorized, entry.1 ≠ grant.grantId := fun entry hentry heq => by
    obtain ⟨g, hg, hid⟩ := hs.known entry hentry
    exact new g hg (hid.trans heq)
  have hsound := hs.sound
  refine ⟨⟨hsound.once, hsound.recorded, fun call hcall => ?_, hsound.different⟩, ?_,
    fun entry hentry => ?_, fun other hother => ?_, hs.once,
    fun entry hentry other hother hid => ?_, fun other hother limit hlimit => ?_⟩
  · obtain ⟨hstored, hpending, hknown, hexecution, hfresh⟩ := hsound.waiting call hcall
    exact ⟨hstored, hpending, hknown, hexecution, hfresh⟩
  · refine List.nodup_cons.mpr ⟨fun hmem => ?_, hs.different⟩
    obtain ⟨g, hg, hid⟩ := List.mem_map.mp hmem
    exact new g hg hid
  · obtain ⟨g, hg, hid⟩ := hs.known entry hentry
    exact ⟨g, List.mem_cons_of_mem _ hg, hid⟩
  · rcases List.mem_cons.mp hother with rfl | hother
    · exact ⟨other, List.mem_cons_self, .refl other⟩
    · obtain ⟨g, hg, hsame⟩ := hs.terms other hother
      exact ⟨g, List.mem_cons_of_mem _ hg, hsame⟩
  · rcases List.mem_cons.mp hother with rfl | hother
    · exact absurd hid.symm (hnone entry hentry)
    · exact hs.recorded entry hentry other hother hid
  · rcases List.mem_cons.mp hother with rfl | hother
    · have hempty : h.callsUnder other.grantId = [] :=
        List.filter_eq_nil_iff.mpr fun entry hentry => by simpa using hnone entry hentry
      change (h.callsUnder other.grantId).length ≤ limit.toNat
      simp [hempty]
    · exact hs.bounded other hother limit hlimit

theorem Standing.next (hs : Standing h) (ha : HandlersReturn h a) (hstep : Steps registry h a h') :
    Standing h' := by
  cases hstep with
  | @broker b w leaves next => exact hs.broker (ha _ rfl) leaves next
  | issue new => exact hs.issue new
  | change =>
    refine hs.setGrants fun grant hgrant => ?_
    obtain ⟨g, hg, rfl⟩ := List.mem_map.mp hgrant
    refine ⟨g, hg, ?_⟩
    split_ifs
    · exact ⟨rfl, rfl, rfl, rfl, rfl, rfl⟩
    · exact .refl g

structure Initial (h : GrantHistory) : Prop where
  world : h.world.Initial
  grants : h.world.db.grants = []
  issued : h.issued = []
  authorized : h.authorized = []

theorem Initial.standing (hinitial : h.Initial) : Standing h where
  sound := hinitial.world.sound
  different := by simp [hinitial.issued]
  known := by simp [hinitial.authorized]
  terms := by simp [hinitial.grants]
  once := by simp [hinitial.authorized]
  recorded := by simp [hinitial.authorized]
  bounded := by simp [Bounded, hinitial.issued]

/-- Grants are budgets of their own: no more calls are authorized under one than it is limited to,
and its first calls are authorized whatever was called before. -/
structure BudgetKept (h : GrantHistory) : Prop where
  bounded : h.Bounded
  first : h.FirstCallsPass

/-- In every run whose handlers return, grants are budgets of their own exactly if each first call
finds fewer calls recorded than some grant for it is limited to. -/
theorem budgetKept_iff {h₀ : GrantHistory} {actions : List GrantAction} (hinitial : h₀.Initial)
    (hrun : Run (Under HandlersReturn (Steps registry)) h₀ actions h) :
    h.BudgetKept ↔ h.CallsLeft := by
  have hstanding : Standing h :=
    hrun.invariant (fun _ _ _ hs hstep => hs.next hstep.1 hstep.2) hinitial.standing
  exact ⟨fun hkept => firstCallsPass_iff.mp hkept.first,
    fun hleft => ⟨hstanding.bounded, firstCallsPass_iff.mpr hleft⟩⟩

def oneCallGrant (grantId : ℕ) : PluginGrant :=
  { fetchGrant with
    grantId := grantId
    scope := .obj [("destinations", .arr [.str "example.com"]), ("methods", .arr [.str "POST"]),
      ("max_calls", .num 1)] }

def ungranted : GrantHistory where
  world := { installedWorld with db := { installedWorld.db with grants := [] } }

theorem ungranted_initial : ungranted.Initial := ⟨⟨rfl, rfl, rfl⟩, rfl, rfl, rfl⟩

def firstFetch : BrokerAction := .invoke smallConnection fetchCall {} (.returned .null)

def granted : GrantHistory := ungranted.issueGrant (oneCallGrant 0)

def fetched : GrantHistory where
  world := (granted.world.next smallRegistry firstFetch).get (by decide +kernel)
  issued := [oneCallGrant 0]
  authorized := (firstFetch.authorizedUnder smallRegistry granted.world.db).toList

theorem fetched_run : Run (Under HandlersReturn (Steps smallRegistry)) ungranted
    [.issue (oneCallGrant 0), .broker firstFetch] fetched := by
  refine .more ⟨handlersReturn_issue _, .issue (by simp [ungranted])⟩
    (.more ⟨fun _ h => ?_, ?_⟩ (.done _))
  · cases h
    exact ⟨.null, rfl⟩
  · exact Steps.broker (h := granted) trivial (Option.some_get _).symm

theorem fetched_budgetKept : fetched.BudgetKept := by
  refine (budgetKept_iff ungranted_initial fetched_run).mpr
    fun grant _ _ _ hcovers _ _ _ _ hnone => ?_
  have hcalled : ∀ grant ∈ fetched.world.db.grants, fetched.callsUnder grant.grantId ≠ [] := by
    decide +kernel
  exact absurd hnone (hcalled grant hcovers.1)

def reissued : GrantHistory :=
  (fetched.changeGrant 0 .revoked (some 1)).issueGrant (oneCallGrant 1)

def fetchRequest : AuthorizationRequest where
  principal := ⟨"p", "1"⟩
  capability := "network.fetch"
  effect := .network
  mediaSessionId := none
  requestedScope := .obj [("destinations", .arr [.str "example.com"]),
    ("methods", .arr [.str "POST"])]

/-- The call under the first grant is counted for the second one, whose first call is refused. -/
theorem reissued_not_budgetKept : ungranted.Initial ∧
    Run (Under HandlersReturn (Steps smallRegistry)) ungranted
      [.issue (oneCallGrant 0), .broker firstFetch, .change 0 .revoked (some 1),
        .issue (oneCallGrant 1)] reissued ∧
    reissued.callsUnder 1 = [] ∧ ¬ reissued.BudgetKept := by
  refine ⟨ungranted_initial, fetched_run.append (.more ⟨handlersReturn_change, .change⟩
    (.more ⟨handlersReturn_issue _, .issue (by decide)⟩ (.done _))), by decide +kernel, fun h => ?_⟩
  have hrefused : (reissued.world.db.decision fetchRequest 0).isOk = false := by decide +kernel
  have hcovers : reissued.Covers (oneCallGrant 1) fetchRequest 0 :=
    ⟨List.mem_cons_self, by decide, by decide, by decide +kernel⟩
  obtain ⟨decision, hdecision⟩ := h.first (oneCallGrant 1) fetchRequest 0 1 hcovers
    (by decide +kernel) rfl (by decide) (by decide +kernel)
  rw [hdecision] at hrefused
  cases hrefused

end GrantHistory

end Plugins
end Matinier
