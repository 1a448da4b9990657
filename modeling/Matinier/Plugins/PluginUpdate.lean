import Mathlib.Data.List.Sort
import Mathlib.Data.String.Basic
import Matinier.Plugins.PluginHost

/-!
# Plugin updates

An update launches the new version of a plugin beside the old one, has it migrate the old state,
and switches in one transaction. The old version goes on meanwhile: its writes come between the
steps of the update, wherever that waits.
-/

namespace Matinier
namespace Plugins

open JsonText

/-- A row of what a version of a plugin has stored. -/
structure StateItem where
  itemNamespace : String
  key : String
  value : JsonEntries
  version : ℤ

namespace StateItem

variable (item : StateItem)

def Precedes (item item' : StateItem) : Prop :=
  item.itemNamespace < item'.itemNamespace ∨
    item.itemNamespace = item'.itemNamespace ∧ item.key ≤ item'.key

instance : DecidableRel Precedes := fun _ _ => inferInstanceAs (Decidable (_ ∨ _))

def sizeBytes : ℕ := byteLength (dumps (.obj item.value))

def toJson : JsonValue :=
  .obj [("namespace", .str item.itemNamespace), ("key", .str item.key),
    ("value", .obj item.value), ("version", .int item.version)]

end StateItem

def stateQuotaBytes : ℕ := 2 * 1024 * 1024

def exportState (rows : List StateItem) : List StateItem := rows.insertionSort StateItem.Precedes

/-- Write under a key; a write that expects another version, or one over the quota, is refused. -/
def putState (itemNamespace key : String) (value : JsonEntries) (expectedVersion : ℤ)
    (rows : List StateItem) : List StateItem :=
  let record := rows.find? fun item => item.itemNamespace = itemNamespace ∧ item.key = key
  let used := (rows.map StateItem.sizeBytes).sum
  let size := byteLength (dumps (.obj value))
  if record.elim 0 StateItem.version ≠ expectedVersion then rows
  else if stateQuotaBytes < used - record.elim 0 StateItem.sizeBytes + size then rows
  else match record with
    | none => rows ++ [⟨itemNamespace, key, value, 1⟩]
    | some _ => rows.map fun item =>
        if item.itemNamespace = itemNamespace ∧ item.key = key then
          { item with value := value, version := item.version + 1 }
        else item

/-- What replaces the rows of a version, if it is within the quota. -/
def replaceStateSnapshot (items : List StateItem) : Option (List StateItem) :=
  if (items.map StateItem.sizeBytes).sum ≤ stateQuotaBytes then some items else none

def statePrefix (pluginId version : String) : String :=
  "plugin:" ++ pluginId ++ ":" ++ version ++ ":"

def stateNamespace (pluginId version : String) (mediaSessionId : Option String) : String :=
  statePrefix pluginId version ++ "session:" ++ mediaSessionId.getD "global"

def hasPrefix (start text : String) : Bool := start.toList.isPrefixOf text.toList

/-- The items of one version under the namespaces of another one. -/
def migratedInput (oldPrefix newPrefix : String) (items : List StateItem) : List StateItem :=
  (items.filter fun item => hasPrefix oldPrefix item.itemNamespace).map fun item =>
    { item with itemNamespace :=
        newPrefix ++ String.ofList (item.itemNamespace.toList.drop oldPrefix.length) }

def validateStateItem (start : String) : JsonValue → Option StateItem
  | .obj entries =>
    let fields := ["namespace", "key", "value", "version"]
    let keys := entries.map Prod.fst
    if (∀ key ∈ keys, key ∈ fields) ∧ ∀ field ∈ fields, field ∈ keys then
      match JsonValue.lookup "namespace" entries, JsonValue.lookup "key" entries,
          JsonValue.lookup "value" entries, JsonValue.lookup "version" entries with
      | some (.str itemNamespace), some (.str key), some (.obj value), some (.int version) =>
        if hasPrefix start itemNamespace ∧ itemNamespace.length ≤ 192 ∧ key ≠ "" ∧
            key.length ≤ 192 ∧ 1 ≤ version then
          some ⟨itemNamespace, key, value, version⟩
        else none
      | _, _, _, _ => none
    else none
  | _ => none

def validateStateItems (start : String) :
    List (String × String) → List JsonValue → Option (List StateItem)
  | _, [] => some []
  | seen, raw :: rest => do
    let item ← validateStateItem start raw
    guard ((item.itemNamespace, item.key) ∉ seen)
    let items ← validateStateItems start ((item.itemNamespace, item.key) :: seen) rest
    return item :: items

def validateMigratedState (start : String) : Option JsonValue → Option (List StateItem)
  | some (.arr items) =>
    if items.length ≤ 1000 then validateStateItems start [] items else none
  | _ => none

/-- Disable a plugin: its process is stopped and its sessions lose their scopes. -/
def PluginSlot.disable (slot : PluginSlot) : PluginSlot :=
  { slot with
    desiredEnabled := false
    status := .disabled
    running := false
    scopes := slot.scopes.filter fun entry =>
      slot.sessions.all fun s => s.session.scope ≠ entry.1 }

/-- A version of a plugin that was installed, and what comes of asking it to migrate state from
one schema version to another. -/
structure PluginUpdate where
  pluginId : String
  candidate : String
  packages : String → PluginPackage
  respond : ℕ → ℕ → List StateItem → Reply

/-- Where an update waits, or whether it reported success. -/
inductive UpdatePhase where
  | idle
  | asking (fromSchema toSchema : ℕ) (items : List StateItem)
  | launching (fromSchema toSchema : ℕ) (items : List StateItem)
  | migrating (fromSchema toSchema : ℕ) (items : List StateItem)
  | disabling
  | undoing
  | done (success : Bool)

def UpdatePhase.waits : UpdatePhase → Bool
  | .idle => false
  | .done _ => false
  | _ => true

/-- What the tables and the supervisor hold of the versions of a plugin. -/
structure UpdateWorld where
  preferred : String
  enabled : Bool
  state : String → List StateItem
  slots : String → PluginSlot
  phase : UpdatePhase

/-- A step of the update, with what comes of what it waited for, or something that goes on
meanwhile: a write of another version, or a change to the process of the new one. -/
inductive UpdateAction where
  | put (version : String) (mediaSessionId : Option String) (key : String) (value : JsonEntries)
      (expectedVersion : ℤ)
  | candidate (slot : PluginSlot)
  | start (raised : Option Raised)
  | asked (answer : Except Raised Bool)
  | launched (answers : LaunchAnswers)
  | migrated (commit : Option Raised)
  | disabled (raised : Option Raised)

namespace UpdateWorld

variable (u : PluginUpdate) (w : UpdateWorld)

def setState (version : String) (rows : List StateItem) : UpdateWorld :=
  { w with state := Function.update w.state version rows }

def setSlot (version : String) (slot : PluginSlot) : UpdateWorld :=
  { w with slots := Function.update w.slots version slot }

def enter (phase : UpdatePhase) : UpdateWorld := { w with phase := phase }

/-- What was raised ends the update; the new version is disabled first if it is supervised. -/
def fail : UpdateWorld :=
  if (w.slots u.candidate).spec.isSome then w.enter .undoing else w.enter (.done false)

def start (raised : Option Raised) : UpdateWorld :=
  if raised.isSome then w.enter (.done false)
  else if w.preferred = u.candidate then w.enter (.done true)
  else match (u.packages w.preferred).manifest, (u.packages u.candidate).manifest with
    | some previous, some manifest =>
      w.enter (.asking previous.stateSchemaVersion manifest.stateSchemaVersion
        (migratedInput (statePrefix u.pluginId w.preferred) (statePrefix u.pluginId u.candidate)
          (exportState (w.state w.preferred))))
    | _, _ => w.enter (.done false)

def asked (fromSchema toSchema : ℕ) (items : List StateItem) : Except Raised Bool → UpdateWorld
  | .ok true => w.enter (.launching fromSchema toSchema items)
  | _ => w.fail u

def launched (fromSchema toSchema : ℕ) (items : List StateItem) (answers : LaunchAnswers) :
    UpdateWorld :=
  match (w.slots u.candidate).enable ⟨u.pluginId, u.candidate⟩ (u.packages u.candidate)
      answers with
  | (slot, none) => (w.setSlot u.candidate slot).enter (.migrating fromSchema toSchema items)
  | (slot, some _) => (w.setSlot u.candidate slot).fail u

end UpdateWorld

/-- What the new version makes of the items, if it is a snapshot that can be stored. -/
def PluginUpdate.migrateState (u : PluginUpdate) (fromSchema toSchema : ℕ)
    (items : List StateItem) : Option (List StateItem) :=
  match u.respond fromSchema toSchema items with
  | .result (.obj entries) =>
    (validateMigratedState (statePrefix u.pluginId u.candidate)
      (JsonValue.lookup "items" entries)).bind replaceStateSnapshot
  | _ => none

namespace UpdateWorld

variable (u : PluginUpdate) (w : UpdateWorld)

/-- Store the migrated state and prefer the new version, in one transaction. -/
def commit (rows : List StateItem) : UpdateWorld :=
  { w.setState u.candidate rows with preferred := u.candidate }

def migrated (fromSchema toSchema : ℕ) (items : List StateItem) (raised : Option Raised) :
    UpdateWorld :=
  let slot := w.slots u.candidate
  if ¬ slot.status.Serves ∨ slot.running = false then w.fail u
  else match u.migrateState fromSchema toSchema items, raised with
    | some rows, none =>
      (w.commit u rows).enter (if w.enabled then .done true else .disabling)
    | _, _ => w.fail u

/-- The new version is disabled; what that raises is handled as what the update raises. -/
def disabled (raised : Option Raised) : UpdateWorld :=
  let stopped := w.setSlot u.candidate (w.slots u.candidate).disable
  if raised.isSome then stopped.fail u else stopped.enter (.done true)

def undone : UpdateWorld :=
  (w.setSlot u.candidate (w.slots u.candidate).disable).enter (.done false)

def put (version : String) (mediaSessionId : Option String) (key : String) (value : JsonEntries)
    (expectedVersion : ℤ) : UpdateWorld :=
  w.setState version (putState (stateNamespace u.pluginId version mediaSessionId) key value
    expectedVersion (w.state version))

end UpdateWorld

/-- The steps of an update and of what goes on while it waits. -/
inductive UpdateSteps (u : PluginUpdate) : UpdateWorld → UpdateAction → UpdateWorld → Prop
  | put {w : UpdateWorld} (version : String) (mediaSessionId : Option String) (key : String)
      (value : JsonEntries) (expectedVersion : ℤ) (hwaits : w.phase.waits = true)
      (hversion : version ≠ u.candidate) :
      UpdateSteps u w (.put version mediaSessionId key value expectedVersion)
        (w.put u version mediaSessionId key value expectedVersion)
  | candidate {w : UpdateWorld} (slot : PluginSlot) (hwaits : w.phase.waits = true)
      (hspec : slot.spec = (w.slots u.candidate).spec) :
      UpdateSteps u w (.candidate slot) (w.setSlot u.candidate slot)
  | start {w : UpdateWorld} (raised : Option Raised) (hphase : w.phase = .idle) :
      UpdateSteps u w (.start raised) (w.start u raised)
  | asked {w : UpdateWorld} {fromSchema toSchema : ℕ} {items : List StateItem}
      (answer : Except Raised Bool) (hphase : w.phase = .asking fromSchema toSchema items) :
      UpdateSteps u w (.asked answer) (w.asked u fromSchema toSchema items answer)
  | launched {w : UpdateWorld} {fromSchema toSchema : ℕ} {items : List StateItem}
      (answers : LaunchAnswers) (hphase : w.phase = .launching fromSchema toSchema items) :
      UpdateSteps u w (.launched answers) (w.launched u fromSchema toSchema items answers)
  | migrated {w : UpdateWorld} {fromSchema toSchema : ℕ} {items : List StateItem}
      (raised : Option Raised) (hphase : w.phase = .migrating fromSchema toSchema items) :
      UpdateSteps u w (.migrated raised) (w.migrated u fromSchema toSchema items raised)
  | disabled {w : UpdateWorld} (raised : Option Raised) (hphase : w.phase = .disabling) :
      UpdateSteps u w (.disabled raised) (w.disabled u raised)
  | undone {w : UpdateWorld} (raised : Option Raised) (hphase : w.phase = .undoing) :
      UpdateSteps u w (.disabled raised) (w.undone u)

end Plugins
end Matinier
