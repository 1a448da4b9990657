import Mathlib.Data.List.Nodup
import Mathlib.Data.List.Range

/-!
# Numbered versions and approval slots

The rows of a table are versions of things, and every thing has a slot. The versions of a slot
are numbered from one, and one of them at most is the approved one: the table has an index that
refuses a second row with a version of its slot, and one that refuses a second approved row.
-/

namespace Matinier

structure SlotRow (κ σ : Type) where
  id : ℕ
  slot : κ
  version : ℕ
  status : σ
  deriving DecidableEq

namespace Slots

variable {κ σ : Type} {rows rows' : List (SlotRow κ σ)} {row : SlotRow κ σ} {slot : κ}
  {approved status : σ} {id k : ℕ}

def find (rows : List (SlotRow κ σ)) (id : ℕ) : Option (SlotRow κ σ) :=
  rows.find? fun row => row.id = id

def statusOf (rows : List (SlotRow κ σ)) (id : ℕ) : Option σ := (find rows id).map SlotRow.status

/-- The selected rows with another status. -/
def setStatus (rows : List (SlotRow κ σ)) (p : SlotRow κ σ → Bool) (status : σ) :
    List (SlotRow κ σ) :=
  rows.map fun row => if p row then { row with status } else row

theorem mem_of_find (h : find rows id = some row) : row ∈ rows ∧ row.id = id := by
  have hid := List.find?_some h
  exact ⟨List.mem_of_find?_eq_some h, of_decide_eq_true hid⟩

theorem mem_setStatus {p : SlotRow κ σ → Bool} {row' : SlotRow κ σ} :
    row' ∈ setStatus rows p status ↔
      ∃ row ∈ rows, (if p row then { row with status } else row) = row' := List.mem_map

@[simp] theorem map_id_setStatus (p : SlotRow κ σ → Bool) :
    (setStatus rows p status).map SlotRow.id = rows.map SlotRow.id := by
  induction rows with
  | nil => rfl
  | cons row rows ih =>
    simp only [setStatus, List.map_map] at ih
    by_cases hp : p row <;> simp [setStatus, hp, ih]

/-- The row that a number finds, after a change of the statuses of rows. -/
theorem find_setStatus {p : SlotRow κ σ → Bool} : find (setStatus rows p status) id =
    (find rows id).map fun row => if p row then { row with status } else row := by
  induction rows with
  | nil => rfl
  | cons row rows ih =>
    simp only [find, setStatus] at ih
    by_cases hp : p row <;> by_cases hrow : row.id = id <;> simp [find, setStatus, hp, hrow, ih]

theorem statusOf_setStatus {p : SlotRow κ σ → Bool} : statusOf (setStatus rows p status) id =
    (find rows id).map fun row => if p row then status else row.status := by
  rw [statusOf, find_setStatus, Option.map_map]
  congr 1
  funext row
  by_cases hp : p row <;> simp [hp]

theorem statusOf_setStatus_self {p : SlotRow κ σ → Bool} (h : statusOf rows id = some status) :
    statusOf (setStatus rows p status) id = some status := by
  obtain ⟨row, hfind, hstatus⟩ := Option.map_eq_some_iff.mp h
  rw [statusOf_setStatus, hfind, Option.map_some, hstatus, ite_self]

theorem find_append (row : SlotRow κ σ) :
    find (rows ++ [row]) id = (find rows id).or (if row.id = id then some row else none) := by
  by_cases hrow : row.id = id <;> simp [find, List.find?_append, hrow]

section Versions

variable [DecidableEq κ]

/-- The versions of a slot, in the order of their rows. -/
def versionsOf (rows : List (SlotRow κ σ)) (slot : κ) : List ℕ :=
  (rows.filter fun row => row.slot = slot).map SlotRow.version

/-- One above the highest version of a slot. -/
def nextVersion (rows : List (SlotRow κ σ)) (slot : κ) : ℕ := (versionsOf rows slot).foldr max 0 + 1

/-- The versions of each slot are numbered from one. -/
def Numbered (rows : List (SlotRow κ σ)) : Prop :=
  ∀ slot, versionsOf rows slot = List.range' 1 (versionsOf rows slot).length

theorem foldr_max_range' (n : ℕ) : (List.range' 1 n).foldr max 0 = n := by
  have hbase : ∀ (l : List ℕ) (m : ℕ), l.foldr max m = max (l.foldr max 0) m := by
    intro l m
    induction l with
    | nil => simp
    | cons x l ih => rw [List.foldr_cons, List.foldr_cons, ih, max_assoc]
  induction n with
  | zero => rfl
  | succ n ih =>
    rw [List.range'_1_concat, List.foldr_append, List.foldr_cons, List.foldr_nil, hbase, ih]
    omega

theorem Numbered.nextVersion (h : Numbered rows) (slot : κ) :
    nextVersion rows slot = (versionsOf rows slot).length + 1 := by
  rw [Slots.nextVersion, h slot, foldr_max_range', ← h slot]

@[simp] theorem versionsOf_setStatus (p : SlotRow κ σ → Bool) :
    versionsOf (setStatus rows p status) slot = versionsOf rows slot := by
  induction rows with
  | nil => rfl
  | cons row rows ih =>
    simp only [versionsOf, setStatus] at ih
    by_cases hp : p row <;> by_cases hslot : row.slot = slot <;>
      simp [versionsOf, setStatus, hp, hslot, ih]

theorem versionsOf_append (row : SlotRow κ σ) : versionsOf (rows ++ [row]) slot =
    versionsOf rows slot ++ if row.slot = slot then [row.version] else [] := by
  by_cases h : row.slot = slot <;> simp [versionsOf, h]

theorem Numbered.setStatus (h : Numbered rows) (p : SlotRow κ σ → Bool) :
    Numbered (setStatus rows p status) := by
  intro slot
  rw [versionsOf_setStatus]
  exact h slot

end Versions

section Approval

variable [DecidableEq κ] [DecidableEq σ]

/-- A row that the table may take: no row has its number, or its version of its slot, or holds
the slot together with it. -/
def Admits (approved : σ) (rows : List (SlotRow κ σ)) (row : SlotRow κ σ) : Prop :=
  row.id ∉ rows.map SlotRow.id ∧ row.version ∉ versionsOf rows row.slot ∧
    (row.status = approved → ∀ other ∈ rows, other.slot = row.slot → other.status ≠ approved)

instance (row : SlotRow κ σ) : Decidable (Admits approved rows row) :=
  inferInstanceAs (Decidable (_ ∧ _ ∧ _))

def insert (approved : σ) (rows : List (SlotRow κ σ)) (row : SlotRow κ σ) :
    Option (List (SlotRow κ σ)) :=
  if Admits approved rows row then some (rows ++ [row]) else none

/-- The row's slot is held by another row. -/
def Held (approved : σ) (rows : List (SlotRow κ σ)) (id : ℕ) : Prop :=
  ∃ target ∈ rows, target.id = id ∧
    ∃ other ∈ rows, other.id ≠ id ∧ other.slot = target.slot ∧ other.status = approved

instance : Decidable (Held approved rows id) := inferInstanceAs (Decidable (∃ _ ∈ _, _))

/-- Give a row its slot, unless another row holds it. -/
def approve (approved : σ) (rows : List (SlotRow κ σ)) (id : ℕ) : Option (List (SlotRow κ σ)) :=
  if Held approved rows id then none else some (setStatus rows (fun row => row.id = id) approved)

/-- One row at most holds each slot. -/
def OneApproved (approved : σ) (rows : List (SlotRow κ σ)) : Prop :=
  ∀ row ∈ rows, ∀ other ∈ rows, row.slot = other.slot → row.status = approved →
    other.status = approved → row = other

/-- What the indexes of the table make sure of, and what follows for the versions. -/
structure Sound (approved : σ) (rows : List (SlotRow κ σ)) : Prop where
  ids : (rows.map SlotRow.id).Nodup
  one : OneApproved approved rows
  numbered : Numbered rows

theorem insert_eq_some (h : insert approved rows row = some rows') :
    Admits approved rows row ∧ rows' = rows ++ [row] := by
  unfold insert at h
  split_ifs at h with hadmits
  exact ⟨hadmits, (Option.some.inj h).symm⟩

theorem approve_eq_some (h : approve approved rows id = some rows') :
    ¬ Held approved rows id ∧ rows' = setStatus rows (fun row => row.id = id) approved := by
  unfold approve at h
  split_ifs at h with hheld
  exact ⟨hheld, (Option.some.inj h).symm⟩

/-- A version that was next when it was read is still the next one, where the table takes it. -/
theorem Sound.insert (hsound : Sound approved rows) (hlow : 1 ≤ row.version)
    (hhigh : row.version ≤ (versionsOf rows row.slot).length + 1)
    (h : insert approved rows row = some rows') : Sound approved rows' := by
  obtain ⟨⟨hid, hnew, hfree⟩, rfl⟩ := insert_eq_some h
  constructor
  · rw [List.map_append, List.map_singleton, List.nodup_append]
    refine ⟨hsound.ids, List.nodup_singleton _, ?_⟩
    intro a ha b hb
    rw [List.mem_singleton.mp hb]
    exact fun hab => hid (hab ▸ ha)
  · intro first hfirst second hsecond hslot hone htwo
    simp only [List.mem_append, List.mem_singleton] at hfirst hsecond
    rcases hfirst with hfirst | rfl
    · rcases hsecond with hsecond | rfl
      · exact hsound.one first hfirst second hsecond hslot hone htwo
      · exact absurd hone (hfree htwo first hfirst hslot)
    · rcases hsecond with hsecond | rfl
      · exact absurd htwo (hfree hone second hsecond hslot.symm)
      · rfl
  · intro slot
    rw [versionsOf_append]
    split_ifs with hslot
    · subst hslot
      have hnext : row.version = (versionsOf rows row.slot).length + 1 := by
        rw [hsound.numbered row.slot, List.mem_range'_1] at hnew
        omega
      rw [List.length_append, List.length_singleton, List.range'_1_concat,
        ← hsound.numbered row.slot, hnext, Nat.add_comm 1]
    · rw [List.append_nil]
      exact hsound.numbered slot

omit [DecidableEq σ] in
theorem Sound.setStatus (hsound : Sound approved rows) (hstatus : status ≠ approved)
    (p : SlotRow κ σ → Bool) : Sound approved (setStatus rows p status) := by
  refine ⟨by rw [map_id_setStatus]; exact hsound.ids, ?_, hsound.numbered.setStatus p⟩
  -- A row that is approved afterwards was not among the selected ones.
  have hold : ∀ row' ∈ Slots.setStatus rows p status, row'.status = approved → row' ∈ rows := by
    intro row' hrow' happroved
    obtain ⟨row, hrow, rfl⟩ := mem_setStatus.mp hrow'
    split_ifs at happroved ⊢
    · exact absurd happroved hstatus
    · exact hrow
  intro first hfirst second hsecond hslot hone htwo
  exact hsound.one first (hold first hfirst hone) second (hold second hsecond htwo) hslot hone htwo

theorem Sound.approve (hsound : Sound approved rows)
    (h : approve approved rows id = some rows') : Sound approved rows' := by
  obtain ⟨hfree, rfl⟩ := approve_eq_some h
  refine ⟨by rw [map_id_setStatus]; exact hsound.ids, ?_, hsound.numbered.setStatus _⟩
  intro first hfirst second hsecond hslot hone htwo
  obtain ⟨row, hrow, rfl⟩ := mem_setStatus.mp hfirst
  obtain ⟨other, hother, rfl⟩ := mem_setStatus.mp hsecond
  by_cases hid : row.id = id
  · by_cases hid' : other.id = id
    · rw [List.inj_on_of_nodup_map hsound.ids hrow hother (hid.trans hid'.symm)]
    · simp only [hid, hid', decide_true, decide_false, if_true, Bool.false_eq_true,
        if_false] at hslot htwo
      exact absurd ⟨row, hrow, hid, other, hother, hid', hslot.symm, htwo⟩ hfree
  · by_cases hid' : other.id = id
    · simp only [hid, hid', decide_true, decide_false, if_true, Bool.false_eq_true,
        if_false] at hslot hone
      exact absurd ⟨other, hother, hid', row, hrow, hid, hslot, hone⟩ hfree
    · simp only [hid, hid', decide_false, Bool.false_eq_true, if_false] at hslot hone htwo ⊢
      exact hsound.one row hrow other hother hslot hone htwo

omit [DecidableEq κ] [DecidableEq σ] in
/-- A row's slot is free where the statuses of its other approved rows are changed. -/
theorem not_held_setStatus {p : SlotRow κ σ → Bool} (hids : (rows.map SlotRow.id).Nodup)
    (hrow : find rows id = some row) (hstatus : status ≠ approved)
    (hp : ∀ item ∈ rows, item.id ≠ id → item.slot = row.slot → item.status = approved →
      p item = true) : ¬ Held approved (setStatus rows p status) id := by
  obtain ⟨hmem, hid⟩ := mem_of_find hrow
  rintro ⟨first, hfirst, hfirstid, other, hother, hotherid, hsame, happroved⟩
  obtain ⟨old, hold, rfl⟩ := mem_setStatus.mp hother
  obtain ⟨oldfirst, holdfirst, rfl⟩ := mem_setStatus.mp hfirst
  have hfirstrow : oldfirst = row := by
    refine List.inj_on_of_nodup_map hids holdfirst hmem (Eq.trans ?_ hid.symm)
    rw [← hfirstid]
    split_ifs <;> rfl
  subst hfirstrow
  by_cases hin : p old
  · rw [if_pos hin] at happroved
    exact hstatus happroved
  · rw [if_neg hin] at hotherid hsame happroved
    refine hin (hp old hold hotherid (hsame.trans ?_) happroved)
    split_ifs <;> rfl

theorem statusOf_insert (h : insert approved rows row = some rows')
    (hk : statusOf rows k = some status) : statusOf rows' k = some status := by
  obtain ⟨-, rfl⟩ := insert_eq_some h
  obtain ⟨old, hfind, rfl⟩ := Option.map_eq_some_iff.mp hk
  rw [statusOf, find_append, hfind]
  rfl

theorem statusOf_approve (h : approve approved rows id = some rows')
    (hk : statusOf rows k = some status) :
    statusOf rows' k = some (if k = id then approved else status) := by
  obtain ⟨-, rfl⟩ := approve_eq_some h
  obtain ⟨old, hfind, rfl⟩ := Option.map_eq_some_iff.mp hk
  rw [statusOf_setStatus, hfind, Option.map_some, (mem_of_find hfind).2]
  by_cases hid : k = id <;> simp [hid]

end Approval

/-- What holds of a table from one moment to a later one: versions are added, and a row keeps its
slot. -/
structure Grows [DecidableEq κ] (rows rows' : List (SlotRow κ σ)) : Prop where
  versions : ∀ slot, (versionsOf rows slot).length ≤ (versionsOf rows' slot).length
  slots : ∀ id row, find rows id = some row →
    ∃ row', find rows' id = some row' ∧ row'.slot = row.slot

section Grows

variable [DecidableEq κ]

theorem Grows.refl (rows : List (SlotRow κ σ)) : Grows rows rows :=
  ⟨fun _ => le_rfl, fun _ row hrow => ⟨row, hrow, rfl⟩⟩

theorem Grows.trans {rows'' : List (SlotRow κ σ)} (h : Grows rows rows') (h' : Grows rows' rows'') :
    Grows rows rows'' where
  versions slot := (h.versions slot).trans (h'.versions slot)
  slots id row hrow := by
    obtain ⟨row', hrow', hslot⟩ := h.slots id row hrow
    obtain ⟨row'', hrow'', hslot'⟩ := h'.slots id row' hrow'
    exact ⟨row'', hrow'', hslot'.trans hslot⟩

theorem Grows.setStatus (rows : List (SlotRow κ σ)) (p : SlotRow κ σ → Bool) (status : σ) :
    Grows rows (setStatus rows p status) where
  versions slot := by rw [versionsOf_setStatus]
  slots id row hrow := by
    refine ⟨if p row then { row with status } else row, ?_, by split_ifs <;> rfl⟩
    rw [find_setStatus, hrow]
    rfl

variable [DecidableEq σ]

theorem Grows.insert (h : insert approved rows row = some rows') : Grows rows rows' := by
  obtain ⟨-, rfl⟩ := insert_eq_some h
  constructor
  · intro slot
    rw [versionsOf_append, List.length_append]
    exact Nat.le_add_right _ _
  · intro id old hold
    exact ⟨old, by rw [find_append, hold]; rfl, rfl⟩

theorem Grows.approve (h : approve approved rows id = some rows') : Grows rows rows' := by
  obtain ⟨-, rfl⟩ := approve_eq_some h
  exact Grows.setStatus _ _ _

end Grows

end Slots
end Matinier
