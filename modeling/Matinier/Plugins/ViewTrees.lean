import Mathlib.Data.List.Perm.Lattice
import Matinier.Plugins.ViewSchema

/-!
# The checks of a component tree

The walk over the JSON of a view finds its components, each at its depth, with its references and
its time. Besides these it finds the rows of tables that have a column `type`, and the cells of
columns that have the name of a reference.
-/

namespace Matinier
namespace PluginUI

open JsonValue

namespace PluginComponent

mutual

/-- The components of a tree with their depths, each before its children. -/
def components (depth : ℕ) : PluginComponent → List (ℕ × PluginComponent)
  | .leaf id content => [(depth, .leaf id content)]
  | .card id title children => (depth, .card id title children) ::
    componentsAll (depth + 1) children
  | .sectionOf id title children =>
    (depth, .sectionOf id title children) :: componentsAll (depth + 1) children
  | .tabs id items => (depth, .tabs id items) :: tabComponents (depth + 1) items

def componentsAll (depth : ℕ) : List PluginComponent → List (ℕ × PluginComponent)
  | [] => []
  | child :: children => components depth child ++ componentsAll depth children

def tabComponents (depth : ℕ) : List TabItem → List (ℕ × PluginComponent)
  | [] => []
  | .mk _ _ children :: items => componentsAll depth children ++ tabComponents depth items

end

/-- The actions that a button or a confirmation refers to. -/
def references : PluginComponent → List String
  | .leaf _ (.button _ actionId _) => [actionId]
  | .leaf _ (.confirmation _ _ confirmActionId cancelActionId) =>
    confirmActionId.val :: cancelActionId.toList.map Subtype.val
  | _ => []

/-- The time of a media anchor. -/
def anchors : PluginComponent → List ℤ
  | .leaf _ (.mediaAnchor mediaTimeMs _) => [(mediaTimeMs : ℤ)]
  | _ => []

/-- The rows of a table. -/
def rows : PluginComponent → List (List (String × String))
  | .leaf _ (.table content) => content.rows.val
  | _ => []

end PluginComponent

/-- The cell of a row in a column. -/
def cell (column : String) (row : List (String × String)) : Option String :=
  (row.find? fun cell => cell.1 = column).map Prod.snd

/-- What the walk counts of the rows of a component. -/
def rowNodes (node : ℕ × PluginComponent) : List Visited :=
  node.2.rows.filterMap fun row =>
    (cell "type" row).map fun type => ⟨node.1 + 1, type, cell "id" row⟩

/-- The cells of a component's rows that the walk takes for references. -/
def rowReferences (component : PluginComponent) : List String :=
  component.rows.flatMap fun row =>
    (row.filter fun cell => cell.1 ∈ referenceKeys).map Prod.snd

@[elab_as_elim]
theorem PluginComponent.induction {motive : PluginComponent → Prop}
    (leaf : ∀ id content, motive (.leaf id content))
    (card : ∀ id title children, (∀ child ∈ children, motive child) →
      motive (.card id title children))
    (sectionOf : ∀ id title children, (∀ child ∈ children, motive child) →
      motive (.sectionOf id title children))
    (tabs : ∀ id tabs, (∀ tabId label children, TabItem.mk tabId label children ∈ tabs →
      ∀ child ∈ children, motive child) → motive (.tabs id tabs)) : ∀ component, motive component
  | .leaf id content => leaf id content
  | .card id title children =>
    card id title children fun child _ => induction leaf card sectionOf tabs child
  | .sectionOf id title children =>
    sectionOf id title children fun child _ => induction leaf card sectionOf tabs child
  | .tabs id items =>
    tabs id items fun tabId label children htab child hchild =>
      have hsmall : sizeOf children < sizeOf items := by
        have htabs := List.sizeOf_lt_of_mem htab
        simp only [TabItem.mk.sizeOf_spec] at htabs
        omega
      induction leaf card sectionOf tabs child
termination_by component => sizeOf component
decreasing_by
  all_goals
    have hchild := List.sizeOf_lt_of_mem ‹child ∈ children›
    simp only [PluginComponent.card.sizeOf_spec, PluginComponent.sectionOf.sizeOf_spec,
      PluginComponent.tabs.sizeOf_spec]
    omega

section Walks

attribute [local simp] JsonValue.visit visitItems visitEntries actionReferences itemReferences
  entryReferences mediaAnchors itemAnchors entryAnchors PluginComponent.dumpAll TabItem.dumpAll
  PluginComponent.componentsAll PluginComponent.tabComponents

theorem visitItems_eq (depth : ℕ) (items : List JsonValue) :
    visitItems depth items = items.flatMap (visit depth) := by
  induction items with
  | nil => simp
  | cons item items ih => simp [ih]

theorem visitEntries_eq (depth : ℕ) (entries : List (String × JsonValue)) :
    visitEntries depth entries = entries.flatMap fun entry => visit depth entry.2 := by
  induction entries with
  | nil => simp
  | cons entry entries ih => simp [ih]

theorem itemReferences_eq (items : List JsonValue) :
    itemReferences items = items.flatMap actionReferences := by
  induction items with
  | nil => simp
  | cons item items ih => simp [ih]

theorem entryReferences_append (entries entries' : List (String × JsonValue)) :
    entryReferences (entries ++ entries') = entryReferences entries ++
      entryReferences entries' := by
  induction entries with
  | nil => simp
  | cons entry entries ih => simp [ih]

theorem itemAnchors_eq (items : List JsonValue) :
    itemAnchors items = items.flatMap mediaAnchors := by
  induction items with
  | nil => simp
  | cons item items ih => simp [ih]

theorem entryAnchors_eq (entries : List (String × JsonValue)) :
    entryAnchors entries = entries.flatMap fun entry => mediaAnchors entry.2 := by
  induction entries with
  | nil => simp
  | cons entry entries ih => simp [ih]

theorem dumpAll_eq (excludeNone : Bool) (children : List PluginComponent) :
    PluginComponent.dumpAll excludeNone children = children.map (·.dump excludeNone) := by
  induction children with
  | nil => simp
  | cons child children ih => simp [ih]

theorem tabDumpAll_eq (excludeNone : Bool) (tabs : List TabItem) :
    TabItem.dumpAll excludeNone tabs = tabs.map (·.dump excludeNone) := by
  induction tabs with
  | nil => simp
  | cons tab tabs ih => simp [ih]

theorem PluginComponent.componentsAll_eq (depth : ℕ) (children : List PluginComponent) :
    componentsAll depth children = children.flatMap (components depth) := by
  induction children with
  | nil => simp
  | cons child children ih => simp [ih]

/-- The children of a tab. -/
def TabItem.children : TabItem → List PluginComponent
  | .mk _ _ children => children

theorem PluginComponent.tabComponents_eq (depth : ℕ) (tabs : List TabItem) :
    tabComponents depth tabs = tabs.flatMap fun tab => tab.children.flatMap (components depth) := by
  induction tabs with
  | nil => simp
  | cons tab tabs ih =>
    cases tab
    simp [TabItem.children, componentsAll_eq, ih]

/-- The walks find nothing in the value. -/
structure Plain (value : JsonValue) : Prop where
  visit : ∀ depth, visit depth value = []
  references : actionReferences value = []
  anchors : mediaAnchors value = []

variable (excludeNone : Bool)

theorem ListItem.plain (item : ListItem) : Plain (item.dump excludeNone) := by
  obtain ⟨id, primary, secondary⟩ := item
  cases secondary <;> cases excludeNone <;> constructor <;>
    simp [ListItem.dump, textEntry, entry, referenceAt, referenceKeys, textAt, lookup]

theorem TableColumn.plain (column : TableColumn) : Plain column.dump := by
  constructor <;>
    simp [TableColumn.dump, referenceAt, referenceKeys, textAt, lookup]

theorem TimelineItem.plain (item : TimelineItem) : Plain (item.dump excludeNone) := by
  obtain ⟨id, timeMs, title, body⟩ := item
  cases body <;> cases excludeNone <;> constructor <;>
    simp [TimelineItem.dump, textEntry, entry, referenceAt, referenceKeys, textAt, lookup]

theorem SelectOption.plain (option : SelectOption) : Plain option.dump := by
  constructor <;>
    simp [SelectOption.dump, referenceAt, referenceKeys, textAt, lookup]

end Walks

section Leaves

variable (excludeNone : Bool)

theorem Plain.arr {items : List JsonValue} (h : ∀ item ∈ items, Plain item) :
    Plain (.arr items) where
  visit depth := by
    rw [JsonValue.visit, visitItems_eq, List.flatMap_eq_nil_iff]
    exact fun item hitem => (h item hitem).visit depth
  references := by
    rw [actionReferences, itemReferences_eq, List.flatMap_eq_nil_iff]
    exact fun item hitem => (h item hitem).references
  anchors := by
    rw [mediaAnchors, itemAnchors_eq, List.flatMap_eq_nil_iff]
    exact fun item hitem => (h item hitem).anchors

theorem Plain.arr_map {α : Type} {items : List α} {f : α → JsonValue} (h : ∀ item, Plain (f item)) :
    Plain (.arr (items.map f)) := by
  apply Plain.arr
  intro value hvalue
  obtain ⟨item, -, rfl⟩ := List.mem_map.mp hvalue
  exact h item

theorem textAt_row (key : String) (row : List (String × String)) :
    textAt key (row.map fun cell => (cell.1, JsonValue.str cell.2)) = cell key row := by
  induction row with
  | nil => simp [textAt, lookup, cell]
  | cons first row ih =>
    simp only [textAt, lookup, cell, List.map_cons, List.find?_cons] at ih ⊢
    by_cases hkey : first.1 = key
    · simp [hkey]
    · simpa [hkey] using ih

theorem visit_row (depth : ℕ) (row : List (String × String)) :
    visit depth (dumpRow row) =
      ((cell "type" row).map fun type => ⟨depth, type, cell "id" row⟩).toList := by
  have hcells : ∀ depth,
    visitEntries depth (row.map fun cell => (cell.1, JsonValue.str cell.2)) = [] := by
    intro depth
    rw [visitEntries_eq, List.flatMap_eq_nil_iff]
    intro entry hentry
    obtain ⟨cell, -, rfl⟩ := List.mem_map.mp hentry
    simp [visit]
  rw [dumpRow, visit, textAt_row, textAt_row, hcells, hcells]
  cases cell "type" row <;> rfl

theorem references_row (row : List (String × String)) :
    actionReferences (dumpRow row) =
      (row.filter fun cell => cell.1 ∈ referenceKeys).map Prod.snd := by
  rw [dumpRow, actionReferences]
  induction row with
  | nil => simp [entryReferences]
  | cons first row ih =>
    by_cases hkey : first.1 ∈ referenceKeys
    · simp [entryReferences, referenceAt, hkey, ih]
    · simp [entryReferences, referenceAt, hkey, ih, actionReferences]

theorem anchors_row (row : List (String × String)) : mediaAnchors (dumpRow row) = [] := by
  have hcells : entryAnchors (row.map fun cell => (cell.1, JsonValue.str cell.2)) = [] := by
    rw [entryAnchors_eq, List.flatMap_eq_nil_iff]
    intro entry hentry
    obtain ⟨cell, -, rfl⟩ := List.mem_map.mp hentry
    simp [mediaAnchors]
  have htime : ∀ key time,
      lookup key (row.map fun cell => (cell.1, JsonValue.str cell.2)) ≠ some (.int time) := by
    intro key time h
    obtain ⟨entry, hentry, hvalue⟩ := Option.map_eq_some_iff.mp h
    obtain ⟨cell, -, rfl⟩ := List.mem_map.mp (List.mem_of_find?_eq_some hentry)
    cases hvalue
  rw [dumpRow, mediaAnchors, hcells, List.append_nil]
  split
  · next h => exact absurd h (htime _ _)
  · rfl

@[simp] theorem visit_textEntry (depth : ℕ) (key : String) {low high : ℕ}
    (text : Option (Text low high)) :
    visitEntries depth (textEntry excludeNone key text) = [] := by
  cases text <;> cases excludeNone <;> simp [textEntry, entry, visitEntries, visit]

@[simp] theorem anchors_textEntry (key : String) {low high : ℕ} (text : Option (Text low high)) :
    entryAnchors (textEntry excludeNone key text) = [] := by
  cases text <;> cases excludeNone <;> simp [textEntry, entry, entryAnchors, mediaAnchors]

theorem references_textEntry {key : String} (hkey : key ∉ referenceKeys) {low high : ℕ}
    (text : Option (Text low high)) :
    entryReferences (textEntry excludeNone key text) = [] := by
  cases text <;> cases excludeNone <;>
    simp [textEntry, entry, entryReferences, actionReferences, referenceAt, hkey]

theorem visit_scalar (depth : ℕ) {value : JsonValue}
    (hvalue : (∀ items, value ≠ .arr items) ∧ ∀ entries, value ≠ .obj entries) :
    visit depth value = [] := by
  cases value with
  | arr items => exact absurd rfl (hvalue.1 items)
  | obj entries => exact absurd rfl (hvalue.2 entries)
  | _ => simp [visit]

theorem visit_fields (depth : ℕ) (id : StableId) (content : LeafContent) :
    visitEntries (depth + 1) (content.fields excludeNone) = rowNodes (depth, .leaf id content) := by
  cases content with
  | list items =>
    simp [LeafContent.fields, visitEntries, rowNodes, PluginComponent.rows,
      (Plain.arr_map (ListItem.plain excludeNone)).visit]
  | timeline items =>
    simp [LeafContent.fields, visitEntries, rowNodes, PluginComponent.rows,
      (Plain.arr_map (TimelineItem.plain excludeNone)).visit]
  | select name label options =>
    simp [LeafContent.fields, visitEntries, rowNodes, PluginComponent.rows, visit_scalar,
      (Plain.arr_map SelectOption.plain).visit]
  | table content =>
    simp only [LeafContent.fields, visitEntries, (Plain.arr_map TableColumn.plain).visit,
      List.nil_append, List.append_nil]
    rw [visit, visitItems_eq, List.flatMap_map]
    simp only [visit_row]
    exact (List.filterMap_eq_flatMap_toList _ _).symm
  | confirmation title body confirmActionId cancelActionId =>
    cases cancelActionId <;> cases excludeNone <;>
      simp [LeafContent.fields, visitEntries, visit_scalar, rowNodes, PluginComponent.rows, entry]
  | textarea name label placeholder rows =>
    rw [visitEntries_eq]
    simp [LeafContent.fields, visit_scalar, rowNodes, PluginComponent.rows, ← visitEntries_eq]
  | _ => simp [LeafContent.fields, visitEntries, visit_scalar, rowNodes, PluginComponent.rows]

theorem referenceAt_of_not_mem {key : String} (hkey : key ∉ referenceKeys) (value : JsonValue) :
    referenceAt key value = none := by
  cases value <;> simp [referenceAt, hkey]

theorem references_scalar {value : JsonValue}
    (hvalue : (∀ items, value ≠ .arr items) ∧ ∀ entries, value ≠ .obj entries) :
    actionReferences value = [] := by
  cases value with
  | arr items => exact absurd rfl (hvalue.1 items)
  | obj entries => exact absurd rfl (hvalue.2 entries)
  | _ => simp [actionReferences]

/-- The references in the fields of a leaf are its own and those in the rows of a table. -/
theorem references_fields (id : StableId) (content : LeafContent) :
    entryReferences (content.fields excludeNone) =
      (PluginComponent.leaf id content).references ++ rowReferences (.leaf id content) := by
  have hother : ∀ key value entries, key ∉ referenceKeys →
      entryReferences ((key, value) :: entries) =
        actionReferences value ++ entryReferences entries := by
    intro key value entries hkey
    simp only [entryReferences, referenceAt_of_not_mem hkey]
  have hnil : entryReferences [] = [] := by rw [entryReferences]
  cases content with
  | list items =>
    simp [LeafContent.fields, hother, hnil, referenceKeys, rowReferences, PluginComponent.rows,
      PluginComponent.references, (Plain.arr_map (ListItem.plain excludeNone)).references]
  | timeline items =>
    simp [LeafContent.fields, hother, hnil, referenceKeys, rowReferences, PluginComponent.rows,
      PluginComponent.references, (Plain.arr_map (TimelineItem.plain excludeNone)).references]
  | select name label options =>
    simp [LeafContent.fields, hother, hnil, referenceKeys, rowReferences, PluginComponent.rows,
      PluginComponent.references, references_scalar, (Plain.arr_map SelectOption.plain).references]
  | table content =>
    rw [LeafContent.fields, hother _ _ _ (by decide), hother _ _ _ (by decide), hnil,
      (Plain.arr_map TableColumn.plain).references, actionReferences, itemReferences_eq,
      List.flatMap_map]
    simp [references_row, rowReferences, PluginComponent.rows, PluginComponent.references]
  | button label actionId tone =>
    simp [LeafContent.fields, entryReferences, referenceAt, referenceKeys, rowReferences,
      PluginComponent.rows, PluginComponent.references, references_scalar]
  | confirmation title body confirmActionId cancelActionId =>
    cases cancelActionId <;> cases excludeNone <;>
      simp [LeafContent.fields, entryReferences, referenceAt, referenceKeys, rowReferences,
        PluginComponent.rows, PluginComponent.references, references_scalar, entry]
  | _ =>
    simp [LeafContent.fields, hother, hnil, entryReferences_append, references_textEntry,
      referenceKeys, rowReferences, PluginComponent.rows, PluginComponent.references,
      references_scalar]

theorem anchors_scalar {value : JsonValue}
    (hvalue : (∀ items, value ≠ .arr items) ∧ ∀ entries, value ≠ .obj entries) :
    mediaAnchors value = [] := by
  cases value with
  | arr items => exact absurd rfl (hvalue.1 items)
  | obj entries => exact absurd rfl (hvalue.2 entries)
  | _ => simp [mediaAnchors]

theorem anchors_fields (content : LeafContent) :
    entryAnchors (content.fields excludeNone) = [] := by
  cases content with
  | list items =>
    simp [LeafContent.fields, entryAnchors, (Plain.arr_map (ListItem.plain excludeNone)).anchors]
  | timeline items =>
    simp [LeafContent.fields, entryAnchors,
      (Plain.arr_map (TimelineItem.plain excludeNone)).anchors]
  | select name label options =>
    simp [LeafContent.fields, entryAnchors, anchors_scalar,
      (Plain.arr_map SelectOption.plain).anchors]
  | table content =>
    simp only [LeafContent.fields, entryAnchors, (Plain.arr_map TableColumn.plain).anchors,
      List.nil_append, List.append_nil]
    rw [mediaAnchors, itemAnchors_eq, List.flatMap_map]
    simp [anchors_row]
  | confirmation title body confirmActionId cancelActionId =>
    cases cancelActionId <;> cases excludeNone <;>
      simp [LeafContent.fields, entryAnchors, anchors_scalar, entry]
  | textarea name label placeholder rows =>
    rw [entryAnchors_eq]
    simp [LeafContent.fields, anchors_scalar, ← entryAnchors_eq]
  | _ => simp [LeafContent.fields, entryAnchors, anchors_scalar]

theorem anchors_of_type {type : String} (htype : type ≠ "media_anchor") (id : StableId)
    (entries : List (String × JsonValue)) :
    mediaAnchors (.obj (("id", .str id) :: ("type", .str type) :: entries)) =
      entryAnchors entries := by
  have hat : textAt "type" (("id", .str id.val) :: ("type", .str type) :: entries) = some type := by
    simp [textAt, lookup]
  rw [mediaAnchors, hat]
  split
  · next hmedia _ => exact absurd (Option.some.inj hmedia) htype
  · simp [entryAnchors, anchors_scalar]

end Leaves

/-- What the walk counts of a component. -/
def Visited.of (node : ℕ × PluginComponent) : Visited :=
  ⟨node.1, node.2.typeName, some node.2.id⟩

section Trees

open PluginComponent

variable (excludeNone : Bool)

theorem visit_typed (depth : ℕ) (id : StableId) (type : String)
    (entries : List (String × JsonValue)) :
    visit depth (.obj (("id", .str id) :: ("type", .str type) :: entries)) =
      ⟨depth, type, some id⟩ :: visitEntries (depth + 1) entries := by
  simp [visit, textAt, lookup, visitEntries]

theorem visit_children (depth : ℕ) (children : List PluginComponent) :
    visit depth (.arr (dumpAll excludeNone children)) =
      children.flatMap fun child => visit depth (child.dump excludeNone) := by
  rw [visit, visitItems_eq, dumpAll_eq, List.flatMap_map]

theorem visit_tabs (depth : ℕ) (items : List TabItem) :
    visit depth (.arr (TabItem.dumpAll excludeNone items)) =
      items.flatMap fun tab => tab.children.flatMap fun child =>
        visit depth (child.dump excludeNone) := by
  have htab : ∀ tab : TabItem, visit depth (tab.dump excludeNone) =
      tab.children.flatMap fun child => visit depth (child.dump excludeNone) := by
    rintro ⟨id, label, children⟩
    simp [TabItem.dump, TabItem.children, visit, textAt, lookup, visitEntries, ← visit_children]
  rw [visit, visitItems_eq, tabDumpAll_eq, List.flatMap_map]
  simp only [htab]

/-- The walk over a tree finds its components and the typed rows of its tables. -/
theorem visit_dump (component : PluginComponent) :
    ∀ depth, visit depth (component.dump excludeNone) =
      (components depth component).flatMap fun node => Visited.of node :: rowNodes node := by
  induction component using PluginComponent.induction with
  | leaf id content =>
    intro depth
    simp only [PluginComponent.dump, List.cons_append, List.nil_append, visit_typed, components]
    rw [visit_fields excludeNone depth id content]
    simp [Visited.of, typeName, PluginComponent.id]
  | card id title children ih =>
    intro depth
    simp only [PluginComponent.dump, List.cons_append, List.nil_append, visit_typed, components,
      componentsAll_eq, List.flatMap_cons, List.flatMap_assoc]
    rw [← List.flatMap_congr fun child hchild => ih child hchild (depth + 1), ← visit_children,
      visitEntries_eq, List.flatMap_append, ← visitEntries_eq, visit_textEntry]
    simp [Visited.of, rowNodes, rows, typeName, PluginComponent.id]
  | sectionOf id title children ih =>
    intro depth
    simp only [PluginComponent.dump, visit_typed, components, componentsAll_eq, List.flatMap_cons,
      List.flatMap_assoc]
    rw [← List.flatMap_congr fun child hchild => ih child hchild (depth + 1), ← visit_children]
    simp [visitEntries, visit_scalar, Visited.of, rowNodes, rows, typeName, PluginComponent.id]
  | tabs id items ih =>
    intro depth
    simp only [PluginComponent.dump, visit_typed, components, tabComponents_eq, List.flatMap_cons,
      List.flatMap_assoc]
    have hitems : ∀ tab ∈ items, (tab.children.flatMap fun child =>
        (components (depth + 1) child).flatMap fun node => Visited.of node :: rowNodes node) =
        tab.children.flatMap fun child => visit (depth + 1) (child.dump excludeNone) := by
      rintro ⟨tabId, label, children⟩ htab
      exact List.flatMap_congr fun child hchild =>
        (ih tabId label children htab child hchild (depth + 1)).symm
    rw [List.flatMap_congr hitems, ← visit_tabs]
    simp [visitEntries, Visited.of, rowNodes, rows, typeName, PluginComponent.id]

theorem references_typed (id : StableId) (type : String) (entries : List (String × JsonValue)) :
    actionReferences (.obj (("id", .str id) :: ("type", .str type) :: entries)) =
      entryReferences entries := by
  simp [actionReferences, entryReferences, referenceAt, referenceKeys]

theorem references_children (children : List PluginComponent) :
    actionReferences (.arr (dumpAll excludeNone children)) =
      children.flatMap fun child => actionReferences (child.dump excludeNone) := by
  rw [actionReferences, itemReferences_eq, dumpAll_eq, List.flatMap_map]

theorem references_tabs (items : List TabItem) :
    actionReferences (.arr (TabItem.dumpAll excludeNone items)) =
      items.flatMap fun tab => tab.children.flatMap fun child =>
        actionReferences (child.dump excludeNone) := by
  have htab : ∀ tab : TabItem, actionReferences (tab.dump excludeNone) =
      tab.children.flatMap fun child => actionReferences (child.dump excludeNone) := by
    rintro ⟨id, label, children⟩
    simp [TabItem.dump, TabItem.children, actionReferences, entryReferences, referenceAt,
      referenceKeys, ← references_children]
  rw [actionReferences, itemReferences_eq, tabDumpAll_eq, List.flatMap_map]
  simp only [htab]

/-- The references of a tree are those of its components and those in the rows of its tables. -/
theorem references_dump (component : PluginComponent) :
    ∀ depth, actionReferences (component.dump excludeNone) =
      (components depth component).flatMap fun node =>
        node.2.references ++ rowReferences node.2 := by
  induction component using PluginComponent.induction with
  | leaf id content =>
    intro depth
    simp only [PluginComponent.dump, List.cons_append, List.nil_append,
      references_typed, components]
    rw [references_fields excludeNone id content]
    simp
  | card id title children ih =>
    intro depth
    simp only [PluginComponent.dump, List.cons_append, List.nil_append, references_typed,
      components, componentsAll_eq, List.flatMap_cons, List.flatMap_assoc]
    rw [← List.flatMap_congr fun child hchild => ih child hchild (depth + 1),
      ← references_children, entryReferences_append,
      references_textEntry excludeNone (by decide) title]
    simp [entryReferences, referenceAt, referenceKeys, references, rowReferences, rows]
  | sectionOf id title children ih =>
    intro depth
    simp only [PluginComponent.dump, references_typed, components, componentsAll_eq,
      List.flatMap_cons, List.flatMap_assoc]
    rw [← List.flatMap_congr fun child hchild => ih child hchild (depth + 1),
      ← references_children]
    simp [entryReferences, referenceAt, referenceKeys, references_scalar, references,
      rowReferences, rows]
  | tabs id items ih =>
    intro depth
    simp only [PluginComponent.dump, references_typed, components, tabComponents_eq,
      List.flatMap_cons, List.flatMap_assoc]
    have hitems : ∀ tab ∈ items, (tab.children.flatMap fun child =>
        (components (depth + 1) child).flatMap fun node =>
          node.2.references ++ rowReferences node.2) =
        tab.children.flatMap fun child => actionReferences (child.dump excludeNone) := by
      rintro ⟨tabId, label, children⟩ htab
      exact List.flatMap_congr fun child hchild =>
        (ih tabId label children htab child hchild (depth + 1)).symm
    rw [List.flatMap_congr hitems, ← references_tabs]
    simp [entryReferences, referenceAt, referenceKeys, references, rowReferences, rows]

theorem anchors_children (children : List PluginComponent) :
    mediaAnchors (.arr (dumpAll excludeNone children)) =
      children.flatMap fun child => mediaAnchors (child.dump excludeNone) := by
  rw [mediaAnchors, itemAnchors_eq, dumpAll_eq, List.flatMap_map]

theorem anchors_tabs (items : List TabItem) :
    mediaAnchors (.arr (TabItem.dumpAll excludeNone items)) =
      items.flatMap fun tab => tab.children.flatMap fun child =>
        mediaAnchors (child.dump excludeNone) := by
  have htab : ∀ tab : TabItem, mediaAnchors (tab.dump excludeNone) =
      tab.children.flatMap fun child => mediaAnchors (child.dump excludeNone) := by
    rintro ⟨id, label, children⟩
    simp [TabItem.dump, TabItem.children, mediaAnchors, entryAnchors, textAt, lookup,
      ← anchors_children]
  rw [mediaAnchors, itemAnchors_eq, tabDumpAll_eq, List.flatMap_map]
  simp only [htab]

theorem anchors_leaf (id : StableId) (content : LeafContent) :
    mediaAnchors ((leaf id content).dump excludeNone) = (leaf id content).anchors := by
  cases content with
  | mediaAnchor mediaTimeMs label =>
    simp [PluginComponent.dump, LeafContent.fields, LeafContent.typeName, mediaAnchors, textAt,
      lookup, entryAnchors, anchors]
  | _ =>
    rw [PluginComponent.dump, List.cons_append, List.cons_append, List.nil_append,
      anchors_of_type (by simp [LeafContent.typeName]), anchors_fields]
    rfl

theorem anchors_dump (component : PluginComponent) :
    ∀ depth, mediaAnchors (component.dump excludeNone) =
      (components depth component).flatMap fun node => node.2.anchors := by
  induction component using PluginComponent.induction with
  | leaf id content =>
    intro depth
    rw [anchors_leaf, components]
    simp
  | card id title children ih =>
    intro depth
    simp only [PluginComponent.dump, List.cons_append, List.nil_append, components,
      componentsAll_eq, List.flatMap_cons, List.flatMap_assoc]
    rw [anchors_of_type (by decide), ← List.flatMap_congr fun child hchild =>
      ih child hchild (depth + 1), ← anchors_children, entryAnchors_eq, List.flatMap_append,
      ← entryAnchors_eq, anchors_textEntry]
    simp [anchors]
  | sectionOf id title children ih =>
    intro depth
    simp only [PluginComponent.dump, components, componentsAll_eq, List.flatMap_cons,
      List.flatMap_assoc]
    rw [anchors_of_type (by decide), ← List.flatMap_congr fun child hchild =>
      ih child hchild (depth + 1), ← anchors_children]
    simp [entryAnchors, anchors_scalar, anchors]
  | tabs id items ih =>
    intro depth
    simp only [PluginComponent.dump, components, tabComponents_eq, List.flatMap_cons,
      List.flatMap_assoc]
    have hitems : ∀ tab ∈ items, (tab.children.flatMap fun child =>
        (components (depth + 1) child).flatMap fun node => node.2.anchors) =
        tab.children.flatMap fun child => mediaAnchors (child.dump excludeNone) := by
      rintro ⟨tabId, label, children⟩ htab
      exact List.flatMap_congr fun child hchild =>
        (ih tabId label children htab child hchild (depth + 1)).symm
    rw [anchors_of_type (by decide), List.flatMap_congr hitems, ← anchors_tabs]
    simp [entryAnchors, anchors]

end Trees

end PluginUI
end Matinier
