import Matinier.Assistant.Plugin.RevocationFence

/-!
# Previews

A trusted page has the host prepare an action, and is shown a preview: the scope that is to be
confirmed, and its digest. To confirm a preview builds its scope again, which may not have
changed, and creates the intent; the answer is kept with the preview, and confirming it again
gets the same one. Contexts and previews are in the memory of the host, under one lock: each
request is one step here, between any others.
-/

namespace Matinier
namespace Assistant

abbrev PreviewId := ℕ

structure HostActionsConfig extends HostConfig where
  previewHash : PreviewId → HostActionScope → List Json → Instant → Digest
  corsOrigins : List String := []
  uiContextLimit : ℕ := 64
  uiNonceTtl : ℕ := 900
  grantMaxTtl : ℕ := 900

structure TrustedUIContext where
  nonceHash : Digest
  origin : Option String
  expiresAt : Instant
  actorId : String := "local-user"
  deriving DecidableEq

inductive HostResponse where
  | cancelled
  | applied (action : HostAction)
  | accepted (operationId : OperationId) (action : HostAction)
  | authorized (action : HostAction) (arguments : HostArguments) (requestId : String)
      (tokenHash : Digest)

/-- A preview; its request stands in its normal form, and the token of an answer for its hash. -/
structure Preview where
  id : PreviewId
  context : TrustedUIContext
  requestId : String
  scope : HostActionScope
  arguments : HostArguments
  previewHash : Digest
  expiresAt : Instant
  response : Option HostResponse := none

structure HostActions where
  contexts : List TrustedUIContext := []
  previews : List Preview := []
  nextPreviewId : PreviewId := 0

namespace HostActions

variable (actions : HostActions)

def cleanup (now : Instant) : HostActions :=
  { actions with
    contexts := actions.contexts.filter fun context => now < context.expiresAt
    previews := actions.previews.filter fun preview => now < preview.expiresAt }

def issueUiNonce (cfg : HostActionsConfig) (origin : Option String) (nonceHash : Digest)
    (now : Instant) : Except Fault HostActions := do
  ensure (∀ o ∈ origin, o ∈ cfg.corsOrigins) (deny "untrusted UI origin")
  let actions := actions.cleanup now
  ensure (actions.contexts.length < cfg.uiContextLimit) (deny "too many UI contexts")
  let context : TrustedUIContext :=
    { nonceHash := nonceHash, origin := origin, expiresAt := now + cfg.uiNonceTtl }
  return { actions with
    contexts := (actions.contexts.filter fun c => c.nonceHash ≠ nonceHash) ++ [context] }

def requireContext (context : TrustedUIContext) : Except Fault Unit :=
  ensure ((actions.contexts.find? fun c => c.nonceHash = context.nonceHash) = some context)
    (deny "trusted UI context is missing or expired")

def getPreview (id : PreviewId) : Option Preview :=
  actions.previews.find? fun preview => preview.id = id

def popPreview (id : PreviewId) : HostActions :=
  { actions with previews := actions.previews.filter fun preview => preview.id ≠ id }

/-- Keep the answer to a preview, for when it is confirmed again. -/
def answer (id : PreviewId) (response : HostResponse) : HostActions :=
  { actions with previews := actions.previews.map fun preview =>
      if preview.id = id then { preview with response := some response } else preview }

end HostActions

/-- A request to prepare an action, and what is derived for it from the host's tables; its
arguments are normalized. -/
structure Preparation where
  context : TrustedUIContext
  requestId : String
  arguments : HostArguments
  derived : Except Fault HostActionScope
  candidates : List Json := []
  now : Instant

/-- The scope of a request carries the digest of its identifier and its arguments. -/
def Preparation.scope (cfg : HostActionsConfig) (input : Preparation) :
    Except Fault HostActionScope :=
  input.derived.map fun scope =>
    { scope with payloadHash := cfg.canonicalHash input.requestId input.arguments }

def prepare (cfg : HostActionsConfig) (input : Preparation) (actions : HostActions)
    (db : MeetingDb) : Except Fault (Preview × HostActions × MeetingDb) := do
  let actions := actions.cleanup input.now
  actions.requireContext input.context
  ensure (actions.previews.length < cfg.uiContextLimit * 4) (deny "too many pending previews")
  let (scope, db) ← db.buildScope (input.scope cfg)
  let expiresAt := min input.context.expiresAt (input.now + min 900 cfg.grantMaxTtl)
  let id := actions.nextPreviewId
  let preview : Preview :=
    { id := id
      context := input.context
      requestId := input.requestId
      scope := scope
      arguments := input.arguments
      previewHash := cfg.previewHash id scope input.candidates expiresAt
      expiresAt := expiresAt }
  let actions : HostActions :=
    { actions with previews := actions.previews ++ [preview], nextPreviewId := id + 1 }
  return (preview, actions, db)

/-- A page's answer to a preview, with what is derived and drawn to confirm it. -/
structure HostActionConfirm where
  context : TrustedUIContext
  mediaSessionId : MediaSessionId
  previewId : PreviewId
  previewHash : Digest
  confirmed : Bool
  derived : Except Fault HostActionScope
  tokenHash : Digest
  intentId : IntentId
  capabilityGrantId : CapabilityGrantId
  snapshot : ContextSnapshot
  ids : AdmissionIds
  now : Instant

def HostActionConfirm.confirmation (input : HostActionConfirm) (preview : Preview) :
    Confirmation where
  previewed := preview.scope
  derived := input.derived
  requestId := preview.requestId
  arguments := preview.arguments
  tokenHash := input.tokenHash
  intentId := input.intentId
  capabilityGrantId := input.capabilityGrantId
  expiresAt := preview.expiresAt
  snapshot := input.snapshot
  ids := input.ids
  now := input.now

/-- What is answered where the intent has been created. -/
def HostActionConfirm.response (input : HostActionConfirm) (preview : Preview) : HostResponse :=
  let scope := preview.scope
  match scope.action, scope.source with
  | .analysisActivate, _ | .analysisDeactivate, _ => .applied scope.action
  | _, .hostHistory => .accepted input.ids.operation scope.action
  | _, .plugin => .authorized scope.action preview.arguments preview.requestId input.tokenHash

def confirmPreview (cfg : HostActionsConfig) (input : HostActionConfirm) (actions : HostActions)
    (db : MeetingDb) : Except Fault (HostResponse × HostActions × MeetingDb) := do
  let actions := actions.cleanup input.now
  actions.requireContext input.context
  let preview ← require (actions.getPreview input.previewId)
    (deny "preview is missing or out of scope")
  ensure (preview.scope.mediaSessionId = input.mediaSessionId ∧ preview.context = input.context)
    (deny "preview is missing or out of scope")
  ensure (preview.previewHash = input.previewHash) (deny "preview changed")
  if input.confirmed = false then
    return (.cancelled, actions.popPreview preview.id, db)
  else
    match preview.response with
    | some response => return (response, actions, db)
    | none => do
      let (_, db) ← confirm cfg.toHostConfig (input.confirmation preview) db
      let response := input.response preview
      return (response, actions.answer preview.id response, db)

/-- What one confirmation of a preview has added to the tables. -/
structure Yield where
  preview : Preview
  intents : List IntentId
  grants : List CapabilityGrantId

/-- The host with its pages; what was shown to them, what their confirmations have added, and
which intents were consumed, is remembered. -/
structure HostWorld where
  actions : HostActions := {}
  db : MeetingDb := {}
  shown : List Preview := []
  yields : List Yield := []
  consumptions : List IntentId := []

inductive HostStep where
  | issueNonce (origin : Option String) (nonceHash : Digest) (now : Instant)
  | prepare (input : Preparation)
  | confirm (input : HostActionConfirm)
  | remember (id : PreviewId) (operationId : OperationId) (action : HostAction)
  | restart
  | other (action : PluginAction)

def newIntents (db db' : MeetingDb) : List IntentId :=
  (db'.intents.rows.map IntentRecord.id).filter fun id => (db.intents.get id).isNone

def newGrants (db db' : MeetingDb) : List CapabilityGrantId :=
  (db'.capabilityGrants.rows.map CapabilityGrantRecord.id).filter fun id =>
    (db.capabilityGrants.get id).isNone

/-- The intents that are consumed in the second state, and were not in the first. -/
def newlyConsumed (db db' : MeetingDb) : List IntentId :=
  ((db'.intents.select fun i => i.status = .consumed).map IntentRecord.id).filter fun id =>
    (db.intents.get id).map IntentRecord.status ≠ some .consumed

namespace HostWorld

variable (w : HostWorld)

def advance (db : MeetingDb) : HostWorld :=
  { w with db := db, consumptions := w.consumptions ++ newlyConsumed w.db db }

/-- A request that is refused leaves what has not expired. -/
def refuse (now : Instant) : HostWorld := { w with actions := w.actions.cleanup now }

def prepareStep (cfg : HostActionsConfig) (input : Preparation) : HostWorld :=
  match prepare cfg input w.actions w.db with
  | .error _ => w.refuse input.now
  | .ok (preview, actions, db) =>
    { w.advance db with actions := actions, shown := w.shown ++ [preview] }

def confirmStep (cfg : HostActionsConfig) (input : HostActionConfirm) : HostWorld :=
  match confirmPreview cfg input w.actions w.db with
  | .error _ => w.refuse input.now
  | .ok (_, actions, db) =>
    let yields := ((w.actions.getPreview input.previewId).map fun preview =>
      Yield.mk preview (newIntents w.db db) (newGrants w.db db)).toList
    { w.advance db with actions := actions, yields := w.yields ++ yields }

/-- The steps of the host; what is confirmed is confirmed as a preview. -/
def next (cfg : HostActionsConfig) (executor : ExecutorConfig) : HostStep → Option HostWorld
  | .issueNonce origin nonceHash now =>
    match w.actions.issueUiNonce cfg origin nonceHash now with
    | .error _ => some (w.refuse now)
    | .ok actions => some { w with actions := actions }
  | .prepare input => some (w.prepareStep cfg input)
  | .confirm input => some (w.confirmStep cfg input)
  | .remember id operationId action =>
    some { w with actions := w.actions.answer id (.accepted operationId action) }
  | .restart => some { w with actions := { nextPreviewId := w.actions.nextPreviewId } }
  | .other action =>
    match action with
    | .confirm _ => none
    | action => (w.db.next executor cfg.toHostConfig action).map w.advance

end HostWorld

abbrev HostSteps (cfg : HostActionsConfig) (executor : ExecutorConfig) (w : HostWorld)
    (step : HostStep) (w' : HostWorld) : Prop :=
  w.next cfg executor step = some w'

end Assistant
end Matinier
