import Matinier.Foundation.Checked
import Matinier.Foundation.CanonicalJson
import Mathlib.Algebra.Field.Rat
import Mathlib.Algebra.Order.Ring.Rat

/-!
# Views of plugins

A view is a tree of components and a list of actions. What the schema says of single fields is
in their types: patterns, lengths and ranges. A view is written out as JSON twice: with every
field for the checks behind the schema, and without the fields that are empty for storage.

A view that satisfies the schema is written out as JSON, and this JSON is walked for the checks
of the whole view. A dictionary with a text under `type` counts as a component there, wherever it
is, and a text under the name of a reference as a reference.
-/

namespace Matinier
namespace PluginUI

def maxDepth : ℕ := 8

def maxNodes : ℕ := 200

def maxTotalStringChars : ℕ := 64000

def maxTableRows : ℕ := 100

def maxOptions : ℕ := 50

def maxActions : ℕ := 32

def overlayComponents : List String :=
  ["text", "safe_markdown", "media_anchor", "badge", "metric", "progress", "empty_state",
    "error_state"]

def isIdChar (c : Char) : Bool := c.isAlphanum || c == '_' || c == '.' || c == '-'

/-- A letter and up to 127 letters, digits, underscores, points and dashes. -/
def isStableId (s : String) : Bool :=
  match s.toList with
  | [] => false
  | c :: cs => c.isAlpha && cs.all isIdChar && cs.length ≤ 127

def isCommand (s : String) : Bool :=
  match s.toList with
  | [] => false
  | c :: cs => c.isLower && (cs.all fun c => c.isLower || c.isDigit || c == '_' || c == '-') &&
      cs.length ≤ 63

abbrev StableId := { s : String // isStableId s = true }

abbrev Command := { s : String // isCommand s = true }

/-- A text of some number of characters. -/
abbrev Text (low high : ℕ) := { s : String // low ≤ s.length ∧ s.length ≤ high }

/-- Some number of things. -/
abbrev Items (low high : ℕ) (α : Type) :=
  { items : List α // low ≤ items.length ∧ items.length ≤ high }

inductive BadgeTone where
  | neutral
  | info
  | success
  | warning
  | danger
  deriving DecidableEq

def BadgeTone.name : BadgeTone → String
  | neutral => "neutral"
  | info => "info"
  | success => "success"
  | warning => "warning"
  | danger => "danger"

inductive ButtonTone where
  | neutral
  | primary
  | danger
  deriving DecidableEq

def ButtonTone.name : ButtonTone → String
  | neutral => "neutral"
  | primary => "primary"
  | danger => "danger"

structure ListItem where
  id : StableId
  primary : Text 1 2000
  secondary : Option (Text 0 4000)

structure TableColumn where
  id : StableId
  label : Text 1 200

/-- A table. Its rows have cells in some of its columns. -/
structure TableContent where
  columns : Items 1 20 TableColumn
  rows : Items 0 maxTableRows (List (String × String))
  rowKeys : ∀ row ∈ rows.val, (row.map Prod.fst).Nodup
  rowColumns : ∀ row ∈ rows.val, ∀ cell ∈ row, cell.1 ∈ columns.val.map fun column => column.id.val
  cellLength : ∀ row ∈ rows.val, ∀ cell ∈ row, cell.2.length ≤ 4000

structure TimelineItem where
  id : StableId
  timeMs : ℕ
  title : Text 1 500
  body : Option (Text 0 4000)

structure SelectOption where
  id : StableId
  label : Text 1 200
  value : Text 0 500

def digitsValue (digits : List Char) : ℕ := digits.foldl (fun n c => 10 * n + (c.toNat - 48)) 0

def exponentValue : List Char → ℤ
  | '-' :: digits => -(digitsValue digits)
  | '+' :: digits => digitsValue digits
  | digits => digitsValue digits

/-- The number that a literal stands for. -/
def literalValue (token : List Char) : ℚ :=
  let unsigned := JsonText.dropSign token
  let whole := unsigned.takeWhile Char.isDigit
  let (fraction, exponent) := match unsigned.dropWhile Char.isDigit with
    | '.' :: rest => (rest.takeWhile Char.isDigit, (rest.dropWhile Char.isDigit).drop 1)
    | rest => ([], rest.drop 1)
  let sign : ℚ := if token.head? = some '-' then -1 else 1
  sign * digitsValue (whole ++ fraction) * (10 : ℚ) ^ (exponentValue exponent - fraction.length)

/-- A number from 0 to 100. -/
abbrev Percentage := { f : FloatLiteral // 0 ≤ literalValue f.token ∧ literalValue f.token ≤ 100 }

/-- What a component without children shows. -/
inductive LeafContent where
  | text (text : Text 0 32000)
  | safeMarkdown (markdown : Text 0 32000)
  | list (items : Items 0 200 ListItem)
  | table (table : TableContent)
  | timeline (items : Items 0 200 TimelineItem)
  | mediaAnchor (mediaTimeMs : ℕ) (label : Text 1 500)
  | badge (text : Text 1 200) (tone : BadgeTone)
  | metric (label : Text 1 200) (value : Text 1 500) (detail : Option (Text 0 1000))
  | progress (label : Text 1 200) (value : Percentage)
  | input (name : StableId) (label : Text 1 200) (placeholder : Option (Text 0 500))
  | textarea (name : StableId) (label : Text 1 200) (placeholder : Option (Text 0 500))
      (rows : { n : ℕ // 2 ≤ n ∧ n ≤ 20 })
  | select (name : StableId) (label : Text 1 200) (options : Items 1 maxOptions SelectOption)
  | checkbox (name : StableId) (label : Text 1 500) (checked : Bool)
  | button (label : Text 1 200) (actionId : StableId) (tone : ButtonTone)
  | confirmation (title : Text 1 500) (body : Text 1 4000) (confirmActionId : StableId)
      (cancelActionId : Option StableId)
  | emptyState (title : Text 1 500) (message : Option (Text 0 4000))
  | errorState (title : Text 1 500) (message : Text 1 4000)

def LeafContent.typeName : LeafContent → String
  | text .. => "text"
  | safeMarkdown .. => "safe_markdown"
  | list .. => "list"
  | table .. => "table"
  | timeline .. => "timeline"
  | mediaAnchor .. => "media_anchor"
  | badge .. => "badge"
  | metric .. => "metric"
  | progress .. => "progress"
  | input .. => "input"
  | textarea .. => "textarea"
  | select .. => "select"
  | checkbox .. => "checkbox"
  | button .. => "button"
  | confirmation .. => "confirmation"
  | emptyState .. => "empty_state"
  | errorState .. => "error_state"

mutual

inductive PluginComponent where
  | leaf (id : StableId) (content : LeafContent)
  | card (id : StableId) (title : Option (Text 0 500)) (children : List PluginComponent)
  | sectionOf (id : StableId) (title : Text 0 500) (children : List PluginComponent)
  | tabs (id : StableId) (tabs : List TabItem)

inductive TabItem where
  | mk (id : StableId) (label : Text 1 200) (children : List PluginComponent)

end

namespace PluginComponent

def id : PluginComponent → StableId
  | leaf id _ | card id _ _ | .sectionOf id _ _ | tabs id _ => id

def typeName : PluginComponent → String
  | leaf _ content => content.typeName
  | card .. => "card"
  | .sectionOf .. => "section"
  | tabs .. => "tabs"

end PluginComponent

structure UIViewAction where
  id : StableId
  command : Command

inductive Surface where
  | panel
  | overlay
  deriving DecidableEq

def Surface.name : Surface → String
  | panel => "panel"
  | overlay => "overlay"

section Dump

variable (excludeNone : Bool)

/-- An entry that is null, or missing, where there is no value. -/
def entry (key : String) : Option JsonValue → List (String × JsonValue)
  | none => if excludeNone then [] else [(key, .null)]
  | some value => [(key, value)]

def textEntry (key : String) {low high : ℕ} (text : Option (Text low high)) :
    List (String × JsonValue) :=
  entry excludeNone key (text.map fun text => .str text.val)

def ListItem.dump (item : ListItem) : JsonValue :=
  .obj ([("id", .str item.id), ("primary", .str item.primary)] ++
    textEntry excludeNone "secondary" item.secondary)

def TableColumn.dump (column : TableColumn) : JsonValue :=
  .obj [("id", .str column.id), ("label", .str column.label)]

def dumpRow (row : List (String × String)) : JsonValue :=
  .obj (row.map fun cell => (cell.1, .str cell.2))

def TimelineItem.dump (item : TimelineItem) : JsonValue :=
  .obj ([("id", .str item.id), ("time_ms", .int item.timeMs), ("title", .str item.title)] ++
    textEntry excludeNone "body" item.body)

def SelectOption.dump (option : SelectOption) : JsonValue :=
  .obj [("id", .str option.id), ("label", .str option.label), ("value", .str option.value)]

def LeafContent.fields : LeafContent → List (String × JsonValue)
  | .text value => [("text", .str value)]
  | .safeMarkdown markdown => [("markdown", .str markdown)]
  | .list items => [("items", .arr (items.val.map (ListItem.dump excludeNone)))]
  | .table content => [("columns", .arr (content.columns.val.map TableColumn.dump)),
      ("rows", .arr (content.rows.val.map dumpRow))]
  | .timeline items => [("items", .arr (items.val.map (TimelineItem.dump excludeNone)))]
  | .mediaAnchor mediaTimeMs label => [("media_time_ms", .int mediaTimeMs), ("label", .str label)]
  | .badge value tone => [("text", .str value), ("tone", .str tone.name)]
  | .metric label value detail =>
    [("label", .str label), ("value", .str value)] ++ textEntry excludeNone "detail" detail
  | .progress label value => [("label", .str label), ("value", .float value)]
  | .input name label placeholder =>
    [("name", .str name), ("label", .str label)] ++ textEntry excludeNone "placeholder" placeholder
  | .textarea name label placeholder rows =>
    [("name", .str name), ("label", .str label)] ++
      textEntry excludeNone "placeholder" placeholder ++ [("rows", .int rows.val)]
  | .select name label options => [("name", .str name), ("label", .str label),
      ("options", .arr (options.val.map SelectOption.dump))]
  | .checkbox name label checked =>
    [("name", .str name), ("label", .str label), ("checked", .bool checked)]
  | .button label actionId tone =>
    [("label", .str label), ("action_id", .str actionId), ("tone", .str tone.name)]
  | .confirmation title body confirmActionId cancelActionId =>
    [("title", .str title), ("body", .str body), ("confirm_action_id", .str confirmActionId)] ++
      entry excludeNone "cancel_action_id" (cancelActionId.map fun id => .str id.val)
  | .emptyState title message =>
    [("title", .str title)] ++ textEntry excludeNone "message" message
  | .errorState title message => [("title", .str title), ("message", .str message)]

mutual

/-- `model_dump` of a component. -/
def PluginComponent.dump : PluginComponent → JsonValue
  | .leaf id content =>
    .obj ([("id", .str id), ("type", .str content.typeName)] ++ content.fields excludeNone)
  | .card id title children =>
    .obj ([("id", .str id), ("type", .str "card")] ++ textEntry excludeNone "title" title ++
      [("children", .arr (PluginComponent.dumpAll children))])
  | .sectionOf id title children =>
    .obj [("id", .str id), ("type", .str "section"), ("title", .str title),
      ("children", .arr (PluginComponent.dumpAll children))]
  | .tabs id tabs =>
    .obj [("id", .str id), ("type", .str "tabs"), ("tabs", .arr (TabItem.dumpAll tabs))]

def PluginComponent.dumpAll : List PluginComponent → List JsonValue
  | [] => []
  | child :: children => child.dump :: PluginComponent.dumpAll children

def TabItem.dump : TabItem → JsonValue
  | .mk id label children =>
    .obj [("id", .str id), ("label", .str label),
      ("children", .arr (PluginComponent.dumpAll children))]

def TabItem.dumpAll : List TabItem → List JsonValue
  | [] => []
  | tab :: tabs => tab.dump :: TabItem.dumpAll tabs

end

def UIViewAction.dump (action : UIViewAction) : JsonValue :=
  .obj [("id", .str action.id), ("kind", .str "command"), ("command", .str action.command)]

end Dump

mutual

/-- The numbers of children and of tabs are in their ranges. -/
def PluginComponent.InRange : PluginComponent → Prop
  | .leaf .. => True
  | .card _ _ children | .sectionOf _ _ children =>
    children.length ≤ 500 ∧ PluginComponent.AllInRange children
  | .tabs _ tabs => 1 ≤ tabs.length ∧ tabs.length ≤ 20 ∧ TabItem.AllInRange tabs

def PluginComponent.AllInRange : List PluginComponent → Prop
  | [] => True
  | child :: children => child.InRange ∧ PluginComponent.AllInRange children

def TabItem.InRange : TabItem → Prop
  | .mk _ _ children => children.length ≤ 500 ∧ PluginComponent.AllInRange children

def TabItem.AllInRange : List TabItem → Prop
  | [] => True
  | tab :: tabs => tab.InRange ∧ TabItem.AllInRange tabs

end

/-- A view that satisfies the schema. -/
structure PluginUIViewDocument where
  surface : Surface
  viewId : StableId
  viewVersion : ℕ
  root : PluginComponent
  actions : Items 0 maxActions UIViewAction
  version_pos : 1 ≤ viewVersion
  inRange : root.InRange

/-- `model_dump` of a view. -/
def PluginUIViewDocument.dump (excludeNone : Bool) (document : PluginUIViewDocument) : JsonValue :=
  .obj [("schema_version", .int 1), ("surface", .str document.surface.name),
    ("view_id", .str document.viewId), ("view_version", .int document.viewVersion),
    ("root", document.root.dump excludeNone),
    ("actions", .arr (document.actions.val.map UIViewAction.dump))]

end PluginUI

namespace JsonValue

/-- A dictionary with a text under `type`. -/
structure Visited where
  depth : ℕ
  type : String
  id : Option String
  deriving DecidableEq

/-- The text under a key. -/
def textAt (key : String) (entries : List (String × JsonValue)) : Option String :=
  match lookup key entries with
  | some (.str text) => some text
  | _ => none

mutual

/-- The dictionaries that `_component_nodes` counts, in the order of its visits. -/
def visit (depth : ℕ) : JsonValue → List Visited
  | .arr items => visitItems depth items
  | .obj entries =>
    match textAt "type" entries with
    | some type => ⟨depth, type, textAt "id" entries⟩ :: visitEntries (depth + 1) entries
    | none => visitEntries depth entries
  | _ => []

def visitItems (depth : ℕ) : List JsonValue → List Visited
  | [] => []
  | item :: items => visit depth item ++ visitItems depth items

def visitEntries (depth : ℕ) : List (String × JsonValue) → List Visited
  | [] => []
  | (_, value) :: entries => visit depth value ++ visitEntries depth entries

end

mutual

/-- `_total_string_chars`. -/
def totalStringChars : JsonValue → ℕ
  | .str text => text.length
  | .arr items => totalItemChars items
  | .obj entries => totalEntryChars entries
  | _ => 0

def totalItemChars : List JsonValue → ℕ
  | [] => 0
  | item :: items => totalStringChars item + totalItemChars items

def totalEntryChars : List (String × JsonValue) → ℕ
  | [] => 0
  | (key, value) :: entries => key.length + totalStringChars value + totalEntryChars entries

end

def referenceKeys : List String := ["action_id", "confirm_action_id", "cancel_action_id"]

/-- The text of an entry that refers to an action by its key. -/
def referenceAt (key : String) : JsonValue → Option String
  | .str text => if key ∈ referenceKeys then some text else none
  | _ => none

mutual

/-- `_action_references`. -/
def actionReferences : JsonValue → List String
  | .arr items => itemReferences items
  | .obj entries => entryReferences entries
  | _ => []

def itemReferences : List JsonValue → List String
  | [] => []
  | item :: items => actionReferences item ++ itemReferences items

def entryReferences : List (String × JsonValue) → List String
  | [] => []
  | (key, value) :: entries =>
    (match referenceAt key value with
      | some text => [text]
      | none => actionReferences value) ++ entryReferences entries

end

mutual

/-- `_media_anchors`. -/
def mediaAnchors : JsonValue → List ℤ
  | .arr items => itemAnchors items
  | .obj entries =>
    (match textAt "type" entries, lookup "media_time_ms" entries with
      | some "media_anchor", some (.int time) => [time]
      | _, _ => []) ++ entryAnchors entries
  | _ => []

def itemAnchors : List JsonValue → List ℤ
  | [] => []
  | item :: items => mediaAnchors item ++ itemAnchors items

def entryAnchors : List (String × JsonValue) → List ℤ
  | [] => []
  | (_, value) :: entries => mediaAnchors value ++ entryAnchors entries

end

end JsonValue

namespace PluginUI

open JsonValue

inductive ViewError where
  | validation (message : String)
  | value (message : String)
  deriving DecidableEq

/-- What is said of a view that does not satisfy the schema. -/
def schemaError (messages : List String) : ViewError :=
  let joined := "; ".intercalate (messages.take 4)
  .validation (if joined = "" then "plugin UI schema validation failed" else joined)

/-- The checks of a view that satisfies the schema. -/
def checkView (document : PluginUIViewDocument) (allowedCommands : List String)
    (mediaDurationMs : Option ℤ) : Except ViewError PluginUIViewDocument := do
  let canonical := document.dump false
  let root := document.root.dump false
  let nodes := visit 1 root
  ensure (nodes.length ≤ maxNodes) (.validation "plugin UI exceeds maximum nodes")
  ensure (∀ node ∈ nodes, node.depth ≤ maxDepth) (.validation "plugin UI exceeds maximum depth")
  ensure (totalStringChars canonical ≤ maxTotalStringChars)
    (.validation "plugin UI exceeds total string limit")
  ensure (nodes.filterMap Visited.id).Nodup (.validation "plugin UI component IDs must be unique")
  ensure (document.surface = .overlay → ∀ node ∈ nodes, node.type ∈ overlayComponents)
    (.validation "overlay contains a component that is not allowed")
  let actionIds := document.actions.val.map fun action => action.id.val
  ensure actionIds.Nodup (.validation "plugin UI action IDs must be unique")
  ensure (∀ action ∈ document.actions.val, action.command.val ∈ allowedCommands)
    (.validation "plugin UI action command was not declared")
  ensure (∀ reference ∈ actionReferences root, reference ∈ actionIds)
    (.validation "plugin UI action reference does not exist")
  match mediaDurationMs with
  | none => return document
  | some duration =>
    ensure (0 ≤ duration) (.value "media duration must not be negative")
    ensure (∀ anchor ∈ mediaAnchors root, anchor ≤ duration)
      (.validation "plugin UI media anchor exceeds media duration")
    return document

/-- `parse_plugin_view`, with the validation of pydantic. -/
def parsePluginView {Raw : Type} (modelValidate : Raw → Except (List String) PluginUIViewDocument)
    (rawView : Raw) (allowedCommands : List String) (mediaDurationMs : Option ℤ) :
    Except ViewError PluginUIViewDocument := do
  let document ← (modelValidate rawView).mapError schemaError
  checkView document allowedCommands mediaDurationMs

end PluginUI
end Matinier
