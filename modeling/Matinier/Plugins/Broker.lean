import Matinier.Foundation.Machine
import Matinier.Plugins.Permissions

/-!
# The capability broker

A plugin asks the host for a capability, under a key of its own or a fresh one. The first call
under a key is authorized and recorded before its handler runs; any other is answered from the
record. The host runs a call in one transaction, which it commits where the call returns and
rolls back where it raises. Calls of the model are the exception: their record is committed
before the model is waited for.

Calls hold the write lock of the host, and its write transaction, from their first check to their
end, so a call is one step here. A call of the model gives the lock up: it is reserved in one
step, its handler is called in another one, and what it returned is recorded in a third; between
them other calls go through, and the call may be lost. Users and installations change packages,
permissions and grants at any time. The handlers that were run are remembered for as long as the
plugin stays installed; with it go its process, the calls it waits for, and all that is stored
of it.
-/

namespace Matinier
namespace Plugins

open Assistant

inductive InvocationStatus where
  | pending
  | completed
  | failed
  | unknown
  deriving DecidableEq, Repr

/-- The key of a call: one of the plugin's, or one made for the call. -/
inductive InvocationKey where
  | given (key : String)
  | generated (id : ℕ)
  deriving DecidableEq, Repr

/-- What was asked for under a key; the request stands for its hash. -/
structure InvocationRecord where
  pluginId : String
  pluginVersion : String
  mediaSessionId : Option MediaSessionId
  capability : String
  effect : CapabilityEffect
  idempotencyKey : InvocationKey
  request : String
  status : InvocationStatus := .pending
  result : Option Json := none
  errorCode : Option String := none
  outcomeUnknown : Bool := false

instance : Row InvocationRecord (String × InvocationKey) Empty where
  key r := (r.pluginId, r.idempotencyKey)
  unique _ := none

/-- The tables a broker reads and writes; grants are listed newest first. -/
structure BrokerDb where
  packages : List PluginPrincipal := []
  permissions : List (PluginPrincipal × String) := []
  grants : List PluginGrant := []
  invocations : Table InvocationRecord := .empty

inductive InputKind where
  | mediaQuery (eventTypes : List String)
  | networkFetch (hostname method : String)
  | actionExecute (action : String)
  | modelInvoke (inputCategory : String)
  | other
  deriving DecidableEq

structure CapabilityInput where
  kind : InputKind
  stored : String
  deriving DecidableEq

structure CapabilityBinding where
  effect : CapabilityEffect
  supportsIdempotency : Bool
  hasReconciler : Bool
  validate : Json → Except Fault CapabilityInput

abbrev CapabilityRegistry := String → Option CapabilityBinding

structure BrokerConnection where
  pluginId : String
  pluginVersion : String
  sessionScopes : List (String × MediaSessionId)

def BrokerConnection.principal (c : BrokerConnection) : PluginPrincipal :=
  ⟨c.pluginId, c.pluginVersion⟩

def BrokerConnection.resolveSession (c : BrokerConnection) (scope : Option String) :
    Except Fault (Option MediaSessionId) :=
  match scope with
  | none => .ok none
  | some scope =>
    match c.sessionScopes.lookup scope with
    | some mediaSessionId => .ok (some mediaSessionId)
    | none =>
      .error (.denied "The session scope is stale or belongs to another plugin process.")

structure CapabilityCall where
  capability : String
  params : Json
  sessionScope : Option String := none
  idempotencyKey : Option String := none

/-- What the code around a call answers while it is checked. -/
structure Surroundings where
  networkTarget : Except Fault Unit := .ok ()
  meetingScope : Except Fault Json := .ok (.obj [])
  reconciled : Except Fault Json := .error (.runtime "no reconciler")
  callId : ℕ := 0
  now : Instant := 0

def CapabilityCall.IsMeeting (call : CapabilityCall) : Bool :=
  call.capability.startsWith "meeting."

/-- The key a call is recorded under; an empty one counts as none. -/
def CapabilityCall.effectiveKey (call : CapabilityCall) (env : Surroundings) : InvocationKey :=
  match call.idempotencyKey with
  | none => .generated env.callId
  | some key => if key = "" then .generated env.callId else .given key

def requestedScope (kind : InputKind) : Json :=
  match kind with
  | .mediaQuery eventTypes => .obj [("event_types", .arr (eventTypes.map Json.str))]
  | .networkFetch hostname method =>
    .obj [("destinations", .arr [.str hostname]), ("methods", .arr [.str method])]
  | .actionExecute action => .obj [("actions", .arr [.str action])]
  | .modelInvoke inputCategory => .obj [("input_categories", .arr [.str inputCategory])]
  | .other => .obj []

namespace BrokerDb

def requirePackage (db : BrokerDb) (principal : PluginPrincipal) : Except Fault Unit :=
  ensure (principal ∈ db.packages) (.lookup "plugin package does not exist")

def listBasePermissions (db : BrokerDb) (principal : PluginPrincipal) : List String :=
  (db.permissions.filter fun entry => entry.1 = principal).map Prod.snd

def listCapabilityGrants (db : BrokerDb) (principal : PluginPrincipal) (capability : String) :
    List PluginGrant :=
  db.grants.filter fun grant => grant.pluginId = principal.pluginId ∧
    grant.pluginVersion = principal.version ∧ grant.capability = capability

def countCapabilityInvocations (db : BrokerDb) (principal : PluginPrincipal)
    (mediaSessionId : Option MediaSessionId) (capability : String) : ℕ :=
  (db.invocations.select fun r => r.pluginId = principal.pluginId ∧
    r.pluginVersion = principal.version ∧ r.mediaSessionId = mediaSessionId ∧
    r.capability = capability).length

/-- Record a call under its key, or find the record of the same call. -/
def createCapabilityInvocation (db : BrokerDb) (record : InvocationRecord) :
    Except Fault (InvocationRecord × BrokerDb) := do
  db.requirePackage ⟨record.pluginId, record.pluginVersion⟩
  match db.invocations.get (Row.key record) with
  | some existing => do
    ensure (existing.request = record.request)
      (.value "idempotency key was reused with a different request")
    ensure (existing.pluginVersion = record.pluginVersion ∧
        existing.mediaSessionId = record.mediaSessionId ∧
        existing.capability = record.capability ∧ existing.effect = record.effect)
      (.value "idempotency key belongs to another capability scope")
    pure (existing, db)
  | none => do
    let invocations ← require (db.invocations.insert record) .integrity
    pure (record, { db with invocations := invocations })

def deletePlugin (db : BrokerDb) (pluginId : String) : BrokerDb where
  packages := db.packages.filter fun p => p.pluginId ≠ pluginId
  permissions := db.permissions.filter fun entry => entry.1.pluginId ≠ pluginId
  grants := db.grants.filter fun grant => grant.pluginId ≠ pluginId
  invocations := db.invocations.delete fun r => r.pluginId = pluginId

def completeCapabilityInvocation (db : BrokerDb) (record : InvocationRecord) (result : Json) :
    BrokerDb :=
  let completed : InvocationRecord := { record with
    status := .completed, result := some result, errorCode := none, outcomeUnknown := false }
  { db with invocations := db.invocations.set completed }

def failCapabilityInvocation (db : BrokerDb) (record : InvocationRecord) (errorCode : String)
    (outcomeUnknown : Bool) : BrokerDb :=
  let failed : InvocationRecord := { record with
    status := if outcomeUnknown then .unknown else .failed
    result := none, errorCode := some errorCode, outcomeUnknown := outcomeUnknown }
  { db with invocations := db.invocations.set failed }

end BrokerDb

/-- A run of a handler: the key and the request it is for, and when that was authorized. -/
structure Execution where
  key : InvocationKey
  request : AuthorizationRequest
  now : Instant

def Execution.call (e : Execution) : String × InvocationKey :=
  (e.request.principal.pluginId, e.key)

inductive Begun where
  | existing (record : InvocationRecord)
  | reserved (record : InvocationRecord) (execution : Execution)

/-- A call that passed its checks: the record it asks for, and the scope it needs. -/
structure CheckedCall where
  record : InvocationRecord
  requestedScope : Json

def validateNetworkTarget (kind : InputKind) (env : Surroundings) : Except Fault Unit :=
  match kind with
  | .networkFetch .. => env.networkTarget
  | _ => .ok ()

/-- The scope of a meeting capability is that of its confirmed intent. -/
def callScope (call : CapabilityCall) (kind : InputKind) (env : Surroundings) :
    Except Fault Json :=
  if call.IsMeeting then env.meetingScope else .ok (requestedScope kind)

def checkCall (registry : CapabilityRegistry) (c : BrokerConnection) (call : CapabilityCall)
    (env : Surroundings) : Except Fault CheckedCall := do
  let binding ← require (registry call.capability) (.lookup "unknown capability")
  ensure (call.IsMeeting = true → c.pluginId = meetingPluginId)
    (.denied "This capability is reserved for the meeting plugin.")
  let input ← binding.validate call.params
  let mediaSessionId ← c.resolveSession call.sessionScope
  ensure (binding.supportsIdempotency = true → call.idempotencyKey.getD "" ≠ "")
    (.value "an idempotency key is required")
  ensure ((call.idempotencyKey.getD "").utf8ByteSize ≤ 255)
    (.value "idempotency key exceeds 255 bytes")
  validateNetworkTarget input.kind env
  let scope ← callScope call input.kind env
  let record : InvocationRecord := {
    pluginId := c.pluginId
    pluginVersion := c.pluginVersion
    mediaSessionId := mediaSessionId
    capability := call.capability
    effect := binding.effect
    idempotencyKey := call.effectiveKey env
    request := input.stored }
  pure { record := record, requestedScope := scope }

/-- Check a call, and find its record or authorize and reserve it. -/
def beginInvocation (registry : CapabilityRegistry) (c : BrokerConnection)
    (call : CapabilityCall) (env : Surroundings) (db : BrokerDb) :
    Except Fault (Begun × BrokerDb) := do
  let checked ← checkCall registry c call env
  let record := checked.record
  match db.invocations.get (Row.key record) with
  | some _ => do
    let (existing, db) ← db.createCapabilityInvocation record
    pure (.existing existing, db)
  | none => do
    db.requirePackage c.principal
    let request : AuthorizationRequest := {
      principal := c.principal
      capability := record.capability
      effect := record.effect
      mediaSessionId := record.mediaSessionId
      requestedScope := checked.requestedScope
      callCount :=
        db.countCapabilityInvocations c.principal record.mediaSessionId record.capability }
    let permissions := db.listBasePermissions c.principal
    let grants := db.listCapabilityGrants c.principal record.capability
    let _ ← authorize request permissions grants env.now
    let (created, db) ← db.createCapabilityInvocation record
    pure (.reserved created ⟨record.idempotencyKey, request, env.now⟩, db)

/-- Answer a call from the record of an earlier one. -/
def resumeExisting (registry : CapabilityRegistry) (capability : String)
    (record : InvocationRecord) (env : Surroundings) (db : BrokerDb) :
    Except Fault (Json × BrokerDb) :=
  match record.status, record.result with
  | .completed, some result => pure (result, db)
  | _, _ => do
    ensure (record.outcomeUnknown = true)
      (.value "idempotent capability invocation is still pending or failed")
    let binding ← require (registry capability) (.lookup "unknown capability")
    ensure (binding.hasReconciler = true)
      (.runtime "capability has no reconciliation adapter")
    let result ← env.reconciled
    pure (result, db.completeCapabilityInvocation record result)

/-- What becomes of a call that was reserved: it raises before its handler is called, or the
handler returns, raises, or leaves open what it did; or the call is cancelled or cut off with
the handler at work. -/
inductive HandlerRun where
  | refused (fault : Fault)
  | returned (result : Json)
  | raised (fault : Fault)
  | outcomeUnknown
  | lost

def HandlerRun.handled : HandlerRun → Bool
  | .refused _ => false
  | .returned _ | .raised _ | .outcomeUnknown | .lost => true

def settle (record : InvocationRecord) (run : HandlerRun) (db : BrokerDb) :
    Except Fault Json × BrokerDb :=
  match run with
  | .returned result => (.ok result, db.completeCapabilityInvocation record result)
  | .refused (.denied message) | .raised (.denied message) => (.error (.denied message), db)
  | .refused fault | .raised fault =>
    (.error fault, db.failCapabilityInvocation record "capability_failed" false)
  | .outcomeUnknown =>
    (.error (.runtime "External action outcome is unknown; reconciliation is required."),
      db.failCapabilityInvocation record "outcome_unknown" true)
  | .lost => (.error (.runtime "cancelled"), db)

/-- What the host answers to a call, what it commits, and the handler it has run. -/
structure HostResult where
  result : Except Fault Json
  db : BrokerDb
  executed : Option Execution := none

/-- Run a call in one transaction, which is rolled back where the call raises. -/
def hostInvoke (registry : CapabilityRegistry) (c : BrokerConnection) (call : CapabilityCall)
    (env : Surroundings) (run : HandlerRun) (db : BrokerDb) : HostResult :=
  match beginInvocation registry c call env db with
  | .error fault => { result := .error fault, db := db }
  | .ok (.existing record, found) =>
    match resumeExisting registry call.capability record env found with
    | .error fault => { result := .error fault, db := db }
    | .ok (result, resumed) => { result := .ok result, db := resumed }
  | .ok (.reserved record execution, reserved) =>
    let executed := if run.handled then some execution else none
    match settle record run reserved with
    | (.error fault, _) => { result := .error fault, db := db, executed := executed }
    | (.ok result, settled) => { result := .ok result, db := settled, executed := executed }

def modelCapability : String := "model.invoke"

structure ModelCall where
  record : InvocationRecord
  execution : Execution
  started : Bool := false

/-- What of the authority of plugins may change. -/
structure Authority where
  packages : List PluginPrincipal
  permissions : List (PluginPrincipal × String)
  grants : List PluginGrant

structure BrokerWorld where
  db : BrokerDb := {}
  modelCalls : List ModelCall := []
  executions : List Execution := []

inductive BrokerAction where
  | invoke (c : BrokerConnection) (call : CapabilityCall) (env : Surroundings) (run : HandlerRun)
  | beginModel (c : BrokerConnection) (call : CapabilityCall) (env : Surroundings)
  | startModel (i : ℕ)
  | settleModel (i : ℕ) (run : HandlerRun)
  | dropModel (i : ℕ)
  | authority (authority : Authority)
  | uninstall (pluginId : String)

namespace BrokerWorld

variable (registry : CapabilityRegistry) (w : BrokerWorld)

def invoke (c : BrokerConnection) (call : CapabilityCall) (env : Surroundings)
    (run : HandlerRun) : BrokerWorld :=
  let answer := hostInvoke registry c call env run w.db
  { w with db := answer.db, executions := w.executions ++ answer.executed.toList }

/-- A call of the model up to where it gives up the lock; its record is committed there. -/
def beginModel (c : BrokerConnection) (call : CapabilityCall) (env : Surroundings) :
    BrokerWorld :=
  match beginInvocation registry c call env w.db with
  | .error _ => w
  | .ok (.existing record, found) =>
    match resumeExisting registry call.capability record env found with
    | .error _ => w
    | .ok (_, resumed) => { w with db := resumed }
  | .ok (.reserved record execution, reserved) =>
    { w with db := reserved, modelCalls := w.modelCalls ++ [{ record, execution }] }

def uninstall (pluginId : String) : BrokerWorld where
  db := w.db.deletePlugin pluginId
  modelCalls := w.modelCalls.filter fun call => call.record.pluginId ≠ pluginId
  executions := w.executions.filter fun e => e.request.principal.pluginId ≠ pluginId

def next : BrokerAction → Option BrokerWorld
  | .invoke c call env run =>
    if call.capability = modelCapability then none else some (w.invoke registry c call env run)
  | .beginModel c call env =>
    if call.capability = modelCapability then some (w.beginModel registry c call env) else none
  | .startModel i => do
    let call ← w.modelCalls[i]?
    if call.started then none
    else some { w with
      modelCalls := w.modelCalls.set i { call with started := true }
      executions := w.executions ++ [call.execution] }
  | .settleModel i run => do
    let call ← w.modelCalls[i]?
    if call.started = run.handled then
      some { w with db := (settle call.record run w.db).2, modelCalls := w.modelCalls.eraseIdx i }
    else none
  | .dropModel i => some { w with modelCalls := w.modelCalls.eraseIdx i }
  | .authority a =>
    let db := { w.db with packages := a.packages, permissions := a.permissions, grants := a.grants }
    some { w with db := db }
  | .uninstall pluginId => some (w.uninstall pluginId)

end BrokerWorld

abbrev BrokerSteps (registry : CapabilityRegistry) (w : BrokerWorld) (action : BrokerAction)
    (w' : BrokerWorld) : Prop :=
  w.next registry action = some w'

/-- Only for the model's calls does a record outlast a handler that does not return. -/
def BrokerAction.Returns : BrokerAction → Prop
  | .invoke _ _ _ (.raised _) | .invoke _ _ _ .outcomeUnknown | .invoke _ _ _ .lost => False
  | _ => True

instance (a : BrokerAction) : Decidable a.Returns := by
  unfold BrokerAction.Returns
  split <;> infer_instance

end Plugins
end Matinier
