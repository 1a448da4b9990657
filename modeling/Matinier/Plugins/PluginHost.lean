import Matinier.Foundation.Cells
import Matinier.Plugins.EventDelivery
import Matinier.Plugins.Supervisor

/-!
# The plugin host

The host enables its plugins one after the other when it starts, and opens a media session with
each that is ready, delivering what is pending, when one is resolved. What the supervisor and the
tables hold of a plugin is in a slot of its own; what the plugin and its container answer is given
beforehand.
-/

namespace Matinier
namespace Plugins

structure VersionNumber where
  major : ℕ
  minor : ℕ
  patch : ℕ
  deriving DecidableEq, Repr

inductive RangeOperator where
  | atLeast
  | atMost
  | greater
  | less
  | equal
  | caret
  | tilde
  deriving DecidableEq, Repr

structure RangeToken where
  operator : RangeOperator
  target : VersionNumber
  deriving DecidableEq, Repr

namespace VersionNumber

def lt (v w : VersionNumber) : Bool :=
  v.major < w.major || v.major = w.major &&
    (v.minor < w.minor || v.minor = w.minor && v.patch < w.patch)

def le (v w : VersionNumber) : Bool := v.lt w || v = w

def caretUpper (v : VersionNumber) : VersionNumber :=
  if v.major ≠ 0 then ⟨v.major + 1, 0, 0⟩
  else if v.minor ≠ 0 then ⟨0, v.minor + 1, 0⟩
  else ⟨0, 0, v.patch + 1⟩

def tildeUpper (v : VersionNumber) : VersionNumber := ⟨v.major, v.minor + 1, 0⟩

end VersionNumber

def RangeToken.admits (token : RangeToken) (host : VersionNumber) : Bool :=
  match token.operator with
  | .atLeast => token.target.le host
  | .atMost => host.le token.target
  | .greater => token.target.lt host
  | .less => host.lt token.target
  | .equal => host = token.target
  | .caret => token.target.le host && host.lt token.target.caretUpper
  | .tilde => token.target.le host && host.lt token.target.tildeUpper

def hostApiVersion : VersionNumber := ⟨1, 0, 0⟩

/-- The host's interface meets every token of a requirement; a token may be none of a range. -/
def hostApiCompatible (requirement : List (Option RangeToken)) : Bool :=
  requirement.all fun token => token.any fun token => token.admits hostApiVersion

structure PluginManifest where
  hostApi : List (Option RangeToken)
  resources : String := ""
  subscriptions : List String
  stateSchemaVersion : ℕ := 1
  deriving DecidableEq

/-- A package; what is stored as its manifest may not be one. -/
structure PluginPackage where
  imageRef : String
  manifest : Option PluginManifest

structure PluginContainerSpec where
  imageRef : String
  resources : String
  hostApi : List (Option RangeToken)
  deriving DecidableEq

def PluginPackage.containerSpec (package : PluginPackage) : Except Raised PluginContainerSpec := do
  let manifest ← require package.manifest .value
  return ⟨package.imageRef, manifest.resources, manifest.hostApi⟩

structure SupervisedSession where
  mediaSessionId : String
  session : OpenSession
  generation : ℕ

structure BindingRow where
  mediaSessionId : String
  lastDeliveredSequence : ℤ := 0
  lastAcknowledgedSequence : ℤ := 0

/-- What the supervisor and the tables hold of one version of a plugin, with the batches of events
it was sent. It has no settings before it is enabled first. -/
structure PluginSlot where
  spec : Option PluginContainerSpec := none
  status : SupervisedStatus := .disabled
  running : Bool := false
  generation : ℕ := 0
  desiredEnabled : Bool := true
  sessions : List SupervisedSession := []
  rows : List BindingRow := []
  scopes : List (String × String) := []
  delivered : List (List MediaEvent) := []

namespace PluginSlot

variable (slot : PluginSlot)

def session? (mediaSessionId : String) : Option SupervisedSession :=
  slot.sessions.find? fun s => s.mediaSessionId = mediaSessionId

def row? (mediaSessionId : String) : Option BindingRow :=
  slot.rows.find? fun row => row.mediaSessionId = mediaSessionId

/-- Store a session over the one of its media session, or as the last one. -/
def putSession (s : SupervisedSession) : PluginSlot :=
  if slot.sessions.any fun old => old.mediaSessionId = s.mediaSessionId then
    { slot with sessions := slot.sessions.map fun old =>
        if old.mediaSessionId = s.mediaSessionId then s else old }
  else { slot with sessions := slot.sessions ++ [s] }

def bindSession (mediaSessionId : String) : PluginSlot :=
  if (slot.row? mediaSessionId).isSome then slot
  else { slot with rows := slot.rows ++ [{ mediaSessionId := mediaSessionId }] }

def addScope (scope mediaSessionId : String) : PluginSlot :=
  { slot with scopes := slot.scopes.filter (fun entry => entry.1 ≠ scope) ++
      [(scope, mediaSessionId)] }

def removeScope (scope : String) : PluginSlot :=
  { slot with scopes := slot.scopes.filter fun entry => entry.1 ≠ scope }

def loadPersistedSessions : PluginSlot :=
  { slot with sessions := slot.rows.map fun row =>
      ⟨row.mediaSessionId, ⟨"pending-restore", row.lastAcknowledgedSequence⟩, 0⟩ }

end PluginSlot

/-- What comes of a launch: of starting the container, of the first request, of stopping a process
that is not the plugin, and of opening each session again under a scope that is drawn for it. -/
structure LaunchAnswers where
  start : Option Raised := none
  initialized : Reply
  stop : Option Raised := none
  scope : ℕ → String
  openSession : ℕ → Reply

def hasString (key value : String) (entries : JsonEntries) : Bool :=
  match JsonValue.lookup key entries with
  | some (.str s) => s = value
  | _ => false

/-- The first answer of a process says that it is the plugin. -/
def negotiated (identity : PluginIdentity) : JsonValue → Bool
  | .obj entries => hasString "plugin_id" identity.pluginId entries &&
      hasString "version" identity.version entries &&
      hasString "protocol_version" "1.0" entries && hasString "host_api" "1.0.0" entries
  | _ => false

/-- Open sessions again with a new process; what one request raises ends it. -/
def restoreSessions (answers : LaunchAnswers) :
    ℕ → List SupervisedSession → PluginSlot → PluginSlot × Option Raised
  | _, [], slot => (slot, none)
  | n, previous :: left, slot =>
    let scope := answers.scope n
    let withScope := slot.addScope scope previous.mediaSessionId
    match answers.openSession n with
    | .raised e => (withScope.removeScope scope, some e)
    | .result _ =>
      let restored := ⟨previous.mediaSessionId,
        ⟨scope, previous.session.lastAcknowledgedSequence⟩, slot.generation⟩
      restoreSessions answers (n + 1) left
        ((withScope.putSession restored).bindSession previous.mediaSessionId)

def PluginSlot.launch (slot : PluginSlot) (identity : PluginIdentity) (spec : PluginContainerSpec)
    (answers : LaunchAnswers) : PluginSlot × Option Raised :=
  if hostApiCompatible spec.hostApi = false then
    ({ slot with status := .incompatible }, some .runtime)
  else
    let starting := { slot with status := .starting }
    match answers.start, answers.initialized with
    | some e, _ => (starting, some e)
    | none, .raised e => ({ starting with scopes := [] }, some e)
    | none, .result value =>
      if negotiated identity value then
        let started := { starting with
          scopes := []
          running := true
          generation := slot.generation + 1
          sessions := [] }
        match restoreSessions answers 0 slot.sessions started with
        | (restored, some e) => (restored, some e)
        | (restored, none) => ({ restored with status := .ready }, none)
      else
        match answers.stop with
        | some e => ({ starting with scopes := [] }, some e)
        | none => ({ starting with scopes := [], status := .incompatible }, some .runtime)

def PluginSlot.enable (slot : PluginSlot) (identity : PluginIdentity) (package : PluginPackage)
    (answers : LaunchAnswers) : PluginSlot × Option Raised :=
  match package.containerSpec with
  | .error e => (slot, some e)
  | .ok spec =>
    if slot.spec.any (fun old => old ≠ spec) then (slot, some .value)
    else
      let enabled := { slot with spec := some spec, desiredEnabled := true }
      if slot.running = true ∨ slot.status = .quarantined then (enabled, none)
      else if slot.generation = 0 ∧ slot.sessions.isEmpty then
        enabled.loadPersistedSessions.launch identity spec answers
      else enabled.launch identity spec answers

/-- What comes of opening a session under a scope that is drawn for it, and what each batch of the
delivery behind it finds. -/
structure OpenAnswers where
  scope : String
  openSession : Reply
  rounds : List Round

/-- The batches a pass sends. -/
def EventBinding.sentBatches (cfg : DeliveryConfig) :
    List Round → ℤ → EventBinding → List (List MediaEvent)
  | [], _, _ => []
  | r :: rounds, cursor, b =>
    let events := (r.log.listEventsAfter cursor cfg.batchSize).filter
      fun e => e.eventType ∈ cfg.subscriptions
    let isSent := r.ready && !events.isEmpty && b.session.any fun session =>
      (sendError (batchMessage r.requestId b.mediaSessionId session.scope events)).isNone
    let rest := match b.deliverBatch cfg r cursor with
      | (b', .ok (some cursor')) => sentBatches cfg rounds cursor' b'
      | _ => []
    if isSent then events :: rest else rest

namespace PluginSlot

variable (slot : PluginSlot)

/-- The binding of a media session, from its row and what the supervisor holds. -/
def eventBinding (row : BindingRow) : EventBinding where
  mediaSessionId := row.mediaSessionId
  lastDeliveredSequence := row.lastDeliveredSequence
  lastAcknowledgedSequence := row.lastAcknowledgedSequence
  session := (slot.session? row.mediaSessionId).map SupervisedSession.session

def storeBinding (b : EventBinding) : PluginSlot :=
  { slot with
    rows := slot.rows.map fun row =>
      if row.mediaSessionId = b.mediaSessionId then
        ⟨row.mediaSessionId, b.lastDeliveredSequence, b.lastAcknowledgedSequence⟩
      else row
    sessions := slot.sessions.map fun s =>
      if s.mediaSessionId = b.mediaSessionId then
        { s with session := b.session.getD s.session }
      else s }

/-- Open a media session, unless it is open with this process. -/
def openSession (mediaSessionId : String) (answers : OpenAnswers) : PluginSlot × Option Raised :=
  if ¬ slot.status.Serves ∨ slot.running = false then (slot, some .runtime)
  else if (slot.session? mediaSessionId).any (fun s => s.generation = slot.generation) then
    (slot, none)
  else
    let withScope := slot.addScope answers.scope mediaSessionId
    match answers.openSession with
    | .raised e => (withScope.removeScope answers.scope, some e)
    | .result _ => ((withScope.putSession ⟨mediaSessionId, ⟨answers.scope, 0⟩,
        slot.generation⟩).bindSession mediaSessionId, none)

/-- Deliver what is pending of a media session, if it has a scope. -/
def deliverPendingEvents (batchSize : { n : ℕ // 0 < n }) (package : PluginPackage)
    (mediaSessionId : String) (rounds : List Round) : PluginSlot × Option Raised :=
  if slot.scopes.any fun entry => entry.2 = mediaSessionId then
    match slot.row? mediaSessionId, package.manifest with
    | none, _ => (slot, some .assertion)
    | some _, none => (slot, some .value)
    | some row, some manifest =>
      let cfg : DeliveryConfig := ⟨batchSize.1, batchSize.2, manifest.subscriptions⟩
      let b := slot.eventBinding row
      let passed := b.deliverEventBatches cfg rounds row.lastAcknowledgedSequence
      let sent := b.sentBatches cfg rounds row.lastAcknowledgedSequence
      ({ slot.storeBinding passed.1 with delivered := slot.delivered ++ sent }, passed.2)
  else (slot, none)

def openAndDeliver (batchSize : { n : ℕ // 0 < n }) (package : PluginPackage)
    (mediaSessionId : String) (answers : OpenAnswers) : PluginSlot × Option Raised :=
  match slot.openSession mediaSessionId answers with
  | (opened, some e) => (opened, some e)
  | (opened, none) =>
    opened.deliverPendingEvents batchSize package mediaSessionId answers.rounds

end PluginSlot

structure PluginInstallation where
  pluginId : String
  enabled : Bool
  preferred : String
  versions : List String
  versions_nodup : versions.Nodup

structure PluginHost where
  installations : List PluginInstallation
  installations_nodup : (installations.map PluginInstallation.pluginId).Nodup
  packages : PluginIdentity → PluginPackage
  slots : PluginIdentity → PluginSlot
  batchSize : { n : ℕ // 0 < n }

namespace PluginHost

variable (h : PluginHost)

/-- The preferred version of a plugin and those it has sessions open with. -/
def enabledVersions (inst : PluginInstallation) : List PluginIdentity :=
  (inst.preferred :: inst.versions.filter fun version => version ≠ inst.preferred ∧
    (h.slots ⟨inst.pluginId, version⟩).rows.isEmpty = false).map fun version =>
      ⟨inst.pluginId, version⟩

def enabledPlugins : List PluginIdentity :=
  (h.installations.filter PluginInstallation.enabled).flatMap h.enabledVersions

/-- The version that a media session is open with, or the preferred one. -/
def openVersion (mediaSessionId : String) (inst : PluginInstallation) : PluginIdentity :=
  ⟨inst.pluginId, (inst.versions.find? fun version =>
    ((h.slots ⟨inst.pluginId, version⟩).row? mediaSessionId).isSome).getD inst.preferred⟩

def readyPlugins (mediaSessionId : String) : List PluginIdentity :=
  ((h.installations.filter PluginInstallation.enabled).map (h.openVersion mediaSessionId)).filter
    fun identity => (h.slots identity).spec.isSome ∧ (h.slots identity).status.Serves

def enableOne (answers : PluginIdentity → LaunchAnswers) (identity : PluginIdentity)
    (slot : PluginSlot) : PluginSlot × Option Raised :=
  slot.enable identity (h.packages identity) (answers identity)

/-- Enable the plugins one after the other, where containers can be run. -/
def start (available : Bool) (answers : PluginIdentity → LaunchAnswers) :
    (PluginIdentity → PluginSlot) × Option Raised :=
  if available then onCells (h.enableOne answers) (fun _ => false) h.enabledPlugins h.slots
  else (h.slots, none)

def openOne (mediaSessionId : String) (answers : PluginIdentity → OpenAnswers)
    (identity : PluginIdentity) (slot : PluginSlot) : PluginSlot × Option Raised :=
  slot.openAndDeliver h.batchSize (h.packages identity) mediaSessionId (answers identity)

/-- Open a media session that was found or made with the plugins that are ready; a `RuntimeError`
is passed over. -/
def resolveMediaSession (mediaSessionId : String) (answers : PluginIdentity → OpenAnswers) :
    (PluginIdentity → PluginSlot) × Option Raised :=
  onCells (h.openOne mediaSessionId answers) (fun e => e = .runtime)
    (h.readyPlugins mediaSessionId) h.slots

def without (pluginId : String) : PluginHost where
  installations := h.installations.filter fun inst => inst.pluginId ≠ pluginId
  installations_nodup :=
    h.installations_nodup.sublist ((List.filter_sublist).map PluginInstallation.pluginId)
  packages := h.packages
  slots := h.slots
  batchSize := h.batchSize

end PluginHost

end Plugins
end Matinier
