import Matinier.Assistant.Plugin.Records

/-!
# Plugin permissions

A capability needs a permission that was accepted at installation. Reading media, network and
external writes need an active grant of the session besides: of this plugin, version, capability
and effect, with a scope around the request and with calls left.
-/

namespace Matinier
namespace Plugins

open Assistant

inductive CapabilityEffect where
  | read
  | localWrite
  | network
  | externalWrite
  deriving DecidableEq, Repr

structure PluginPrincipal where
  pluginId : String
  version : String
  deriving DecidableEq, Repr

inductive GrantStatus where
  | active
  | expired
  | revoked
  deriving DecidableEq, Repr

structure PluginGrant where
  grantId : ℕ
  pluginId : String
  pluginVersion : String
  mediaSessionId : Option MediaSessionId
  capability : String
  effect : CapabilityEffect
  scope : Json
  status : GrantStatus := .active
  expiresAt : Instant
  revokedAt : Option Instant := none

structure AuthorizationRequest where
  principal : PluginPrincipal
  capability : String
  effect : CapabilityEffect
  mediaSessionId : Option MediaSessionId
  requestedScope : Json
  callCount : ℕ := 0

structure AuthorizationDecision where
  capability : String
  grantId : Option ℕ
  authorizedScope : Json

mutual

/-- What is authorized covers what is requested. -/
def scopeValueAllows : Json → Json → Bool
  | .obj authorized, .obj requested =>
    requested.all fun entry => entryAllows authorized entry.1 entry.2
  | .obj _, _ => false
  | .arr authorized, .arr requested => requested.all fun item => anyAllows authorized item
  | .arr authorized, requested => anyAllows authorized requested
  | authorized, requested => authorized.eqv requested

def anyAllows : List Json → Json → Bool
  | [], _ => false
  | item :: rest, requested => scopeValueAllows item requested || anyAllows rest requested

/-- The value under a key covers the one requested under it. -/
def entryAllows : List (String × Json) → String → Json → Bool
  | [], _, _ => false
  | (key, value) :: rest, name, requested =>
    if key = name then scopeValueAllows value requested else entryAllows rest name requested

end

namespace AuthorizationRequest

def RequiresSessionGrant (request : AuthorizationRequest) : Prop :=
  request.capability.startsWith "media." = true ∨
    request.capability = "meeting.execution.input" ∨
    request.effect = .network ∨ request.effect = .externalWrite

instance (request : AuthorizationRequest) : Decidable request.RequiresSessionGrant :=
  inferInstanceAs (Decidable (_ ∨ _ ∨ _ ∨ _))

end AuthorizationRequest

namespace PluginGrant

/-- The grant is of the plugin, version, capability, effect and session of a request. -/
def Matches (grant : PluginGrant) (request : AuthorizationRequest) : Prop :=
  grant.pluginId = request.principal.pluginId ∧
    grant.pluginVersion = request.principal.version ∧
    grant.capability = request.capability ∧ grant.effect = request.effect ∧
    grant.mediaSessionId = request.mediaSessionId

instance (grant : PluginGrant) (request : AuthorizationRequest) :
    Decidable (grant.Matches request) :=
  inferInstanceAs (Decidable (_ ∧ _ ∧ _ ∧ _ ∧ _))

def Active (grant : PluginGrant) (now : Instant) : Prop :=
  grant.status = .active ∧ grant.revokedAt = none ∧ now < grant.expiresAt

instance (grant : PluginGrant) (now : Instant) : Decidable (grant.Active now) :=
  inferInstanceAs (Decidable (_ ∧ _ ∧ _))

/-- The calls the grant is limited to are used up. -/
def Exhausted (grant : PluginGrant) (callCount : ℕ) : Bool :=
  match grant.scope.get? "max_calls" with
  | some (.num limit) => limit ≤ callCount
  | _ => false

end PluginGrant

/-- Decide on a request; a capability that needs no session grant needs its permission only. -/
def authorize (request : AuthorizationRequest) (basePermissions : List String)
    (grants : List PluginGrant) (now : Instant) : Except Fault AuthorizationDecision :=
  if request.capability ∉ basePermissions then
    .error (.denied "The plugin did not request this capability at installation.")
  else if ¬ request.RequiresSessionGrant then
    .ok { capability := request.capability, grantId := none, authorizedScope := .obj [] }
  else
    let withinScope := grants.filter fun grant => grant.Matches request ∧ grant.Active now ∧
      scopeValueAllows grant.scope request.requestedScope = true
    match withinScope.find? fun grant => ¬ grant.Exhausted request.callCount with
    | some grant =>
      .ok { capability := request.capability, grantId := some grant.grantId
            authorizedScope := grant.scope }
    | none =>
      if withinScope = [] then
        .error (.denied "This capability requires an active, matching session grant.")
      else .error (.denied "The capability grant call budget is exhausted.")

/-- What a request is authorized by: its permission and, where it needs one, an active grant. -/
structure Authorized (request : AuthorizationRequest) (basePermissions : List String)
    (grants : List PluginGrant) (now : Instant) : Prop where
  permitted : request.capability ∈ basePermissions
  granted : request.RequiresSessionGrant → ∃ grant ∈ grants, grant.Matches request ∧
    grant.Active now ∧ scopeValueAllows grant.scope request.requestedScope = true ∧
    grant.Exhausted request.callCount = false

theorem authorized_of_authorize {request : AuthorizationRequest} {basePermissions : List String}
    {grants : List PluginGrant} {now : Instant} {decision : AuthorizationDecision}
    (h : authorize request basePermissions grants now = .ok decision) :
    Authorized request basePermissions grants now := by
  unfold authorize at h
  split_ifs at h with hpermitted hrequires
  · refine ⟨hpermitted, fun _ => ?_⟩
    dsimp only at h
    split at h
    · rename_i grant hfound
      have hwithin := List.mem_of_find?_eq_some hfound
      rw [List.mem_filter, decide_eq_true_eq] at hwithin
      obtain ⟨hgrant, hmatches, hactive, hscope⟩ := hwithin
      have hleft := List.find?_some hfound
      exact ⟨grant, hgrant, hmatches, hactive, hscope, by simpa using hleft⟩
    · split_ifs at h
  · exact ⟨hpermitted, fun h => absurd h hrequires⟩

end Plugins
end Matinier
