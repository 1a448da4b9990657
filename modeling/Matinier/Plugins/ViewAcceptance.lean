import Matinier.Plugins.ViewTrees

/-!
# Which views are accepted

The checks behind the schema as conditions on the component tree. The walk over the JSON also
meets the rows of tables, so a view that satisfies all of them is accepted exactly where its
rows are harmless: the rows with a cell `type` still fit in as components, and the cells in
columns with the name of a reference name declared actions.
-/

namespace Matinier
namespace PluginUI

open JsonValue PluginComponent

namespace PluginUIViewDocument

variable (document : PluginUIViewDocument)

/-- The components with their depths. -/
def nodes : List (ℕ × PluginComponent) := components 1 document.root

def actionIds : List String := document.actions.val.map fun action => action.id.val

/-- The rows of tables that the walk takes for components. -/
def typedRows : List Visited := document.nodes.flatMap rowNodes

/-- The conditions on the component tree. -/
structure TreeAccepted (allowedCommands : List String) (mediaDurationMs : Option ℤ) : Prop where
  nodes : document.nodes.length ≤ maxNodes
  depth : ∀ node ∈ document.nodes, node.1 ≤ maxDepth
  ids : (document.nodes.map fun node => node.2.id.val).Nodup
  strings : totalStringChars (document.dump false) ≤ maxTotalStringChars
  overlay : document.surface = .overlay →
    ∀ node ∈ document.nodes, node.2.typeName ∈ overlayComponents
  actions : document.actionIds.Nodup
  commands : ∀ action ∈ document.actions.val, action.command.val ∈ allowedCommands
  references : ∀ node ∈ document.nodes, ∀ reference ∈ node.2.references,
    reference ∈ document.actionIds
  anchors : ∀ duration ∈ mediaDurationMs, ∀ node ∈ document.nodes,
    ∀ anchor ∈ node.2.anchors, anchor ≤ duration

/-- The rows of tables fit in as components and refer to declared actions. -/
structure RowsHarmless : Prop where
  nodes : document.nodes.length + document.typedRows.length ≤ maxNodes
  depth : ∀ row ∈ document.typedRows, row.depth ≤ maxDepth
  ids : (document.nodes.map (fun node => node.2.id.val) ++
    document.typedRows.filterMap Visited.id).Nodup
  references : ∀ node ∈ document.nodes, ∀ reference ∈ rowReferences node.2,
    reference ∈ document.actionIds

theorem visit_perm :
    (visit 1 (document.root.dump false)).Perm
      (document.nodes.map Visited.of ++ document.typedRows) := by
  rw [visit_dump]
  exact (List.map_append_flatMap_perm _ _ _).symm

variable {document}

theorem rowNodes_of_overlay {node : ℕ × PluginComponent}
    (hoverlay : node.2.typeName ∈ overlayComponents) : rowNodes node = [] := by
  obtain ⟨depth, component⟩ := node
  cases component with
  | leaf id content =>
    cases content with
    | table table =>
      exact absurd hoverlay (by simp [typeName, LeafContent.typeName, overlayComponents])
    | _ => rfl
  | _ => rfl

theorem forall_visited {p : Visited → Prop} :
    (∀ node ∈ visit 1 (document.root.dump false), p node) ↔
      (∀ node ∈ document.nodes, p (Visited.of node)) ∧ ∀ row ∈ document.typedRows, p row := by
  simp only [document.visit_perm.mem_iff, List.mem_append, List.mem_map, or_imp, forall_and,
    forall_exists_index, and_imp, forall_apply_eq_imp_iff₂]

theorem visited_length :
    (visit 1 (document.root.dump false)).length =
      document.nodes.length + document.typedRows.length := by
  simpa using document.visit_perm.length_eq

theorem visited_ids_nodup :
    ((visit 1 (document.root.dump false)).filterMap Visited.id).Nodup ↔
      (document.nodes.map (fun node => node.2.id.val) ++
        document.typedRows.filterMap Visited.id).Nodup := by
  rw [(document.visit_perm.filterMap Visited.id).nodup_iff, List.filterMap_append,
    List.filterMap_map]
  have hid : Visited.id ∘ Visited.of = fun node : ℕ × PluginComponent => some node.2.id.val := rfl
  rw [hid, List.filterMap_eq_map']

theorem visited_overlay :
    (∀ node ∈ visit 1 (document.root.dump false), node.type ∈ overlayComponents) ↔
      ∀ node ∈ document.nodes, node.2.typeName ∈ overlayComponents := by
  rw [forall_visited]
  apply and_iff_left_of_imp
  intro hoverlay row hrow
  obtain ⟨node, hnode, hrow⟩ := List.mem_flatMap.mp hrow
  rw [rowNodes_of_overlay (hoverlay node hnode)] at hrow
  exact absurd hrow List.not_mem_nil

theorem visited_depth :
    (∀ node ∈ visit 1 (document.root.dump false), node.depth ≤ maxDepth) ↔
      (∀ node ∈ document.nodes, node.1 ≤ maxDepth) ∧
        ∀ row ∈ document.typedRows, row.depth ≤ maxDepth :=
  forall_visited

theorem forall_references {p : String → Prop} :
    (∀ reference ∈ actionReferences (document.root.dump false), p reference) ↔
      ∀ node ∈ document.nodes, ∀ reference,
        reference ∈ node.2.references ∨ reference ∈ rowReferences node.2 → p reference := by
  rw [references_dump false document.root 1, List.forall_mem_flatMap]
  simp only [List.mem_append, nodes]

theorem forall_anchors {p : ℤ → Prop} :
    (∀ time ∈ mediaAnchors (document.root.dump false), p time) ↔
      ∀ node ∈ document.nodes, ∀ time ∈ node.2.anchors, p time := by
  rw [anchors_dump false document.root 1, List.forall_mem_flatMap, nodes]

variable {allowedCommands : List String} {mediaDurationMs : Option ℤ}

/-- The checks succeed where the conditions on the tree hold and the rows are harmless. -/
theorem succeeds_checkView :
    Succeeds (checkView document allowedCommands mediaDurationMs) ↔
      document.TreeAccepted allowedCommands mediaDurationMs ∧ document.RowsHarmless ∧
        ∀ duration ∈ mediaDurationMs, 0 ≤ duration := by
  have hchecks : Succeeds (checkView document allowedCommands mediaDurationMs) ↔
      document.nodes.length + document.typedRows.length ≤ maxNodes ∧
      ((∀ node ∈ document.nodes, node.1 ≤ maxDepth) ∧
        ∀ row ∈ document.typedRows, row.depth ≤ maxDepth) ∧
      totalStringChars (document.dump false) ≤ maxTotalStringChars ∧
      (document.nodes.map (fun node => node.2.id.val) ++
        document.typedRows.filterMap Visited.id).Nodup ∧
      (document.surface = .overlay →
        ∀ node ∈ document.nodes, node.2.typeName ∈ overlayComponents) ∧
      document.actionIds.Nodup ∧
      (∀ action ∈ document.actions.val, action.command.val ∈ allowedCommands) ∧
      (∀ node ∈ document.nodes, ∀ reference,
        reference ∈ node.2.references ∨ reference ∈ rowReferences node.2 →
          reference ∈ document.actionIds) ∧
      ∀ duration ∈ mediaDurationMs, 0 ≤ duration ∧
        ∀ node ∈ document.nodes, ∀ anchor ∈ node.2.anchors, anchor ≤ duration := by
    rw [← forall_references, ← visited_length, ← visited_ids_nodup, ← visited_overlay,
      ← visited_depth]
    cases mediaDurationMs with
    | none => simp [checkView, Succeeds, actionIds]
    | some duration => simp [checkView, Succeeds, actionIds, forall_anchors]
  rw [hchecks]
  constructor
  · rintro ⟨hnodes, ⟨hdepth, hrows⟩, hstrings, hids, hoverlay, hactions, hcommands, hreferences,
      hduration⟩
    refine ⟨⟨by omega, hdepth, (List.nodup_append.mp hids).1, hstrings, hoverlay, hactions,
      hcommands, fun node hnode reference h => hreferences node hnode reference (.inl h),
      fun duration h => (hduration duration h).2⟩, ⟨hnodes, hrows, hids,
      fun node hnode reference h => hreferences node hnode reference (.inr h)⟩,
      fun duration h => (hduration duration h).1⟩
  · rintro ⟨htree, hrows, hduration⟩
    refine ⟨hrows.nodes, ⟨htree.depth, hrows.depth⟩, htree.strings, hrows.ids, htree.overlay,
      htree.actions, htree.commands, ?_, fun duration h => ⟨hduration duration h,
        htree.anchors duration h⟩⟩
    rintro node hnode reference (h | h)
    · exact htree.references node hnode reference h
    · exact hrows.references node hnode reference h

end PluginUIViewDocument

open PluginUIViewDocument

theorem parsePluginView_eq {Raw : Type}
    {modelValidate : Raw → Except (List String) PluginUIViewDocument} {rawView : Raw}
    {document : PluginUIViewDocument} (hschema : modelValidate rawView = .ok document)
    (allowedCommands : List String) (mediaDurationMs : Option ℤ) :
    parsePluginView modelValidate rawView allowedCommands mediaDurationMs =
      checkView document allowedCommands mediaDurationMs := by
  rw [parsePluginView, hschema]
  rfl

/-- A view that satisfies the schema is accepted just where its component tree satisfies the
conditions on it, unless rows of tables that do satisfy them are not harmless. -/
theorem accepted_as_tree_iff {Raw : Type}
    (modelValidate : Raw → Except (List String) PluginUIViewDocument) (rawView : Raw)
    (document : PluginUIViewDocument) (hschema : modelValidate rawView = .ok document)
    (allowedCommands : List String) (mediaDurationMs : Option ℤ) :
    (Succeeds (parsePluginView modelValidate rawView allowedCommands mediaDurationMs) ↔
        document.TreeAccepted allowedCommands mediaDurationMs) ↔
      (document.TreeAccepted allowedCommands mediaDurationMs →
        document.RowsHarmless ∧ ∀ duration ∈ mediaDurationMs, 0 ≤ duration) := by
  rw [parsePluginView_eq hschema, succeeds_checkView]
  constructor
  · intro h htree
    exact (h.mpr htree).2
  · intro h
    exact ⟨fun haccepted => haccepted.1, fun htree => ⟨htree, h htree⟩⟩

section Witness

/-- A table with one column and one row. -/
def cellTable (column : StableId) (value : Text 0 4000) : TableContent where
  columns := ⟨[⟨column, ⟨"Value", by decide⟩⟩], by simp⟩
  rows := ⟨[[(column.val, value.val)]], by simp [maxTableRows]⟩
  rowKeys := by simp
  rowColumns := by simp
  cellLength := by simpa using value.property.2

/-- A panel that shows only this table. -/
def cellView (column : StableId) (value : Text 0 4000) : PluginUIViewDocument where
  surface := .panel
  viewId := ⟨"figures", by decide⟩
  viewVersion := 1
  root := .leaf ⟨"table", by decide⟩ (.table (cellTable column value))
  actions := ⟨[], by decide⟩
  version_pos := Nat.one_pos
  inRange := trivial

theorem cellView_tree {column : StableId} {value : Text 0 4000}
    (hstrings : totalStringChars ((cellView column value).dump false) ≤ maxTotalStringChars) :
    (cellView column value).TreeAccepted [] none where
  nodes := by simp [PluginUIViewDocument.nodes, cellView, components, maxNodes]
  depth := by simp [PluginUIViewDocument.nodes, cellView, components, maxDepth]
  ids := by simp [PluginUIViewDocument.nodes, cellView, components]
  strings := hstrings
  overlay := nofun
  actions := List.nodup_nil
  commands := by simp [cellView]
  references := by simp [PluginUIViewDocument.nodes, cellView, components, references]
  anchors := nofun

theorem figures_table_accepted_as_tree :
    (cellView ⟨"total", by decide⟩ ⟨"12", by decide⟩).RowsHarmless ∧
      (Succeeds (parsePluginView .ok (cellView ⟨"total", by decide⟩ ⟨"12", by decide⟩) [] none) ↔
        (cellView ⟨"total", by decide⟩ ⟨"12", by decide⟩).TreeAccepted [] none) := by
  have hharmless : (cellView ⟨"total", by decide⟩ ⟨"12", by decide⟩).RowsHarmless := by
    constructor <;> decide
  exact ⟨hharmless, (accepted_as_tree_iff .ok _ _ rfl [] none).mpr fun _ => ⟨hharmless, nofun⟩⟩

/-- A table with a column `action_id` is rejected for what its cells say. -/
theorem action_column_rejected :
    ¬ (Succeeds (parsePluginView .ok (cellView ⟨"action_id", by decide⟩ ⟨"none", by decide⟩) []
        none) ↔
      (cellView ⟨"action_id", by decide⟩ ⟨"none", by decide⟩).TreeAccepted [] none) := by
  intro h
  have hrejected : ¬ Succeeds (checkView (cellView ⟨"action_id", by decide⟩ ⟨"none", by decide⟩) []
      none) := by
    rw [succeeds_checkView]
    rintro ⟨-, hrows, -⟩
    have hreference := hrows.references _ List.mem_cons_self "none" (by decide)
    exact absurd hreference List.not_mem_nil
  exact hrejected (h.mpr (cellView_tree (by decide)))

end Witness

end PluginUI
end Matinier
