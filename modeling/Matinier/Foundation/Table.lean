import Mathlib.Data.List.Nodup

/-!
# Status tables and tables of rows

A status table lists, for each status, the statuses it may move to. A request
for the current status is accepted and changes nothing; any other request must
name a listed edge. What a table says about whole histories follows from its
edges alone: a status without edges is never left, and a status that no edge
leads to is never entered again.

A table is the list of its rows in insertion order. It carries the proofs that
no two rows share a primary key and that no two of them have one unique value;
a row may have no unique value, as a nullable or partial unique index allows.
Inserting a row that breaks a constraint fails. An update replaces the row with
its primary key, and is refused where it would take over a unique value.
-/

namespace Matinier
namespace StatusTable

variable {σ : Type} [DecidableEq σ] (edges : σ → List σ)

/-- The status after a request for `target`, or nothing where the table forbids it. -/
def advance (current target : σ) : Option σ :=
  if current = target then some current
  else if target ∈ edges current then some target
  else none

/-- No edge leaves the status. -/
def Terminal (s : σ) : Prop := edges s = []

/-- No edge leads to the status. -/
def Unentered (s : σ) : Prop := ∀ c, s ∉ edges c

variable {edges} {current target next s : σ}

theorem advance_eq_some :
    advance edges current target = some next ↔
      next = target ∧ (current = target ∨ target ∈ edges current) := by
  unfold advance
  split_ifs with hself hedge
  · subst hself
    simp [eq_comm]
  · simp [hself, hedge, eq_comm]
  · simp [hself, hedge]

end StatusTable

/-- Rows of type `ρ` have a primary key of type `κ` and perhaps a unique value of type `υ`. -/
class Row (ρ : Type) (κ υ : outParam Type) where
  key : ρ → κ
  unique : ρ → Option υ

/-- Rows in insertion order, under the constraints of the database. -/
structure Table (ρ : Type) {κ υ : Type} [Row ρ κ υ] where
  rows : List ρ
  keys_nodup : (rows.map Row.key).Nodup
  unique_nodup : (rows.filterMap Row.unique).Nodup

namespace Table

variable {ρ κ υ : Type} [Row ρ κ υ]

def empty : Table ρ := ⟨[], List.nodup_nil, List.nodup_nil⟩

instance : Inhabited (Table ρ) := ⟨empty⟩

theorem eq_of_key {t : Table ρ} {r s : ρ} (hr : r ∈ t.rows) (hs : s ∈ t.rows)
    (h : Row.key r = Row.key s) : r = s :=
  List.inj_on_of_nodup_map t.keys_nodup hr hs h

theorem eq_of_unique {t : Table ρ} {r s : ρ} {u : υ} (hr : r ∈ t.rows) (hs : s ∈ t.rows)
    (hru : Row.unique r = some u) (hsu : Row.unique s = some u) : r = s := by
  obtain ⟨rows, keys, unique⟩ := t
  simp only at hr hs unique
  clear keys
  induction rows with
  | nil => cases hr
  | cons a rows ih =>
    have hmem : ∀ x ∈ rows, Row.unique x = some u → u ∈ rows.filterMap Row.unique :=
      fun x hx hxu => List.mem_filterMap.mpr ⟨x, hx, hxu⟩
    rcases List.mem_cons.mp hr with rfl | hr' <;> rcases List.mem_cons.mp hs with rfl | hs'
    · rfl
    · rw [List.filterMap_cons, hru] at unique
      exact absurd (hmem s hs' hsu) (List.nodup_cons.mp unique).1
    · rw [List.filterMap_cons, hsu] at unique
      exact absurd (hmem r hr' hru) (List.nodup_cons.mp unique).1
    · refine ih ?_ hr' hs'
      rw [List.filterMap_cons] at unique
      cases ha : Row.unique a with
      | none => simpa [ha] using unique
      | some v =>
        simp only [ha] at unique
        exact (List.nodup_cons.mp unique).2

/-- Rows that satisfy a condition, in insertion order. -/
def select (t : Table ρ) (p : ρ → Bool) : List ρ := t.rows.filter p

@[simp] theorem mem_select {t : Table ρ} {p : ρ → Bool} {r : ρ} :
    r ∈ t.select p ↔ r ∈ t.rows ∧ p r = true := List.mem_filter

/-- The rows left when those that satisfy a condition are deleted. -/
def delete (t : Table ρ) (p : ρ → Bool) : Table ρ where
  rows := t.rows.filter fun r => !p r
  keys_nodup := t.keys_nodup.sublist (List.filter_sublist.map _)
  unique_nodup := t.unique_nodup.sublist (List.filter_sublist.filterMap _)

theorem mem_delete {t : Table ρ} {p : ρ → Bool} {r : ρ} :
    r ∈ (t.delete p).rows ↔ r ∈ t.rows ∧ p r = false := by
  simp [delete]

theorem length_select_le_one {t : Table ρ} {p : ρ → Bool}
    (h : ∀ a ∈ t.select p, ∀ b ∈ t.select p, a = b) : (t.select p).length ≤ 1 := by
  have hnodup : (t.select p).Nodup := (List.Nodup.of_map Row.key t.keys_nodup).filter p
  generalize t.select p = l at h hnodup
  match l with
  | [] => simp
  | [a] => simp
  | a :: b :: l =>
    obtain rfl : a = b := h a List.mem_cons_self b (List.mem_cons_of_mem a List.mem_cons_self)
    exact absurd List.mem_cons_self (List.nodup_cons.mp hnodup).1

/-- Every row changed by a function that keeps keys and unique values. -/
def alter (t : Table ρ) (f : ρ → ρ)
    (hf : ∀ r, Row.key (f r) = Row.key r ∧ Row.unique (f r) = Row.unique r) : Table ρ where
  rows := t.rows.map f
  keys_nodup := by
    have hkeys : Row.key ∘ f = Row.key := funext fun r => (hf r).1
    rw [List.map_map, hkeys]
    exact t.keys_nodup
  unique_nodup := by
    have hunique : Row.unique ∘ f = Row.unique := funext fun r => (hf r).2
    rw [List.filterMap_map, hunique]
    exact t.unique_nodup

variable [DecidableEq κ] [DecidableEq υ]

/-- The row with the given primary key. -/
def get (t : Table ρ) (k : κ) : Option ρ := t.rows.find? fun r => Row.key r = k

/-- The row with the given unique value. -/
def getUnique (t : Table ρ) (u : υ) : Option ρ := t.rows.find? fun r => Row.unique r = some u

/-- The replacement may stand where the old row stood. -/
def Replaces (r old : ρ) : Prop :=
  Row.key old = Row.key r ∧ (Row.unique r = none ∨ Row.unique r = Row.unique old)

instance (r old : ρ) : Decidable (Replaces r old) :=
  inferInstanceAs (Decidable (_ ∧ _))

private theorem replace_sublist (r : ρ) (rows : List ρ) :
    ((rows.map fun old => if Replaces r old then r else old).filterMap Row.unique).Sublist
      (rows.filterMap Row.unique) := by
  induction rows with
  | nil => exact List.Sublist.refl _
  | cons old rows ih =>
    rw [List.map_cons, List.filterMap_cons, List.filterMap_cons]
    by_cases h : Replaces r old
    · rw [if_pos h]
      rcases h.2 with hnone | hsame
      · rw [hnone]
        cases Row.unique old with
        | none => exact ih
        | some u => exact ih.cons u
      · rw [hsame]
        cases Row.unique old with
        | none => exact ih
        | some u => exact ih.cons_cons u
    · rw [if_neg h]
      cases Row.unique old with
      | none => exact ih
      | some u => exact ih.cons_cons u

/-- Replace the row that has the key of `r`; nothing changes where there is none. -/
def set (t : Table ρ) (r : ρ) : Table ρ where
  rows := t.rows.map fun old => if Replaces r old then r else old
  keys_nodup := by
    have hkeys : (t.rows.map fun old => if Replaces r old then r else old).map Row.key
        = t.rows.map Row.key := by
      rw [List.map_map]
      apply List.map_congr_left
      intro old _
      simp only [Function.comp_apply]
      split_ifs with h
      · exact h.1.symm
      · rfl
    rw [hkeys]
    exact t.keys_nodup
  unique_nodup := t.unique_nodup.sublist (replace_sublist r t.rows)

/-- No row has the key or the unique value of the new one. -/
def Free (t : Table ρ) (r : ρ) : Prop :=
  ∀ s ∈ t.rows, Row.key s ≠ Row.key r ∧ (Row.unique r = none ∨ Row.unique s ≠ Row.unique r)

instance (t : Table ρ) (r : ρ) : Decidable (t.Free r) :=
  inferInstanceAs (Decidable (∀ s ∈ t.rows, _))

omit [DecidableEq κ] [DecidableEq υ] in
private theorem nodup_append_unique {t : Table ρ} {r : ρ} (h : t.Free r) :
    ((t.rows ++ [r]).filterMap Row.unique).Nodup := by
  rw [List.filterMap_append, List.nodup_append]
  cases hu : Row.unique r with
  | none => simp [hu, t.unique_nodup]
  | some u =>
    refine ⟨t.unique_nodup, by simp [hu], ?_⟩
    intro a ha b hb hab
    obtain ⟨s, hs, hsa⟩ := List.mem_filterMap.mp ha
    have hbu : b = u := by simpa [hu] using hb
    rcases (h s hs).2 with hnone | hne
    · rw [hnone] at hu
      cases hu
    · exact hne (by rw [hsa, hu, hab, hbu])

/-- Add a row, unless a constraint forbids it. -/
def insert (t : Table ρ) (r : ρ) : Option (Table ρ) :=
  if h : t.Free r then
    some
      { rows := t.rows ++ [r]
        keys_nodup := by
          rw [List.map_append, List.map_singleton, List.nodup_append]
          refine ⟨t.keys_nodup, List.nodup_singleton _, ?_⟩
          intro a ha b hb hab
          obtain ⟨s, hs, rfl⟩ := List.mem_map.mp ha
          rw [List.mem_singleton] at hb
          exact (h s hs).1 (hab.trans hb)
        unique_nodup := nodup_append_unique h }
  else none

/-- Put a row in the place of the one with its key, or add it where there is none. -/
def put (t : Table ρ) (r : ρ) : Option (Table ρ) :=
  match t.get (Row.key r) with
  | some _ => some (t.set r)
  | none => t.insert r

section Lookup

variable {t : Table ρ} {k : κ} {r s old : ρ} {u : υ}

omit [DecidableEq υ] in
theorem get_alter {f : ρ → ρ}
    (hf : ∀ r, Row.key (f r) = Row.key r ∧ Row.unique (f r) = Row.unique r) (k : κ) :
    (t.alter f hf).get k = (t.get k).map f := by
  have hkey : ((fun r => decide (Row.key r = k)) ∘ f) = fun r => decide (Row.key r = k) :=
    funext fun r => by rw [Function.comp_apply, (hf r).1]
  rw [get, alter, List.find?_map, hkey, get]

omit [DecidableEq υ] in
theorem get_eq_some : t.get k = some r ↔ r ∈ t.rows ∧ Row.key r = k := by
  constructor
  · intro h
    have hfound := List.find?_some h
    exact ⟨List.mem_of_find?_eq_some h, of_decide_eq_true hfound⟩
  · rintro ⟨hr, rfl⟩
    cases hget : t.get (Row.key r) with
    | none =>
      have hnone := List.find?_eq_none.mp hget r hr
      simp at hnone
    | some s =>
      have hs : s ∈ t.rows := List.mem_of_find?_eq_some hget
      have hfound := List.find?_some hget
      rw [eq_of_key hs hr (of_decide_eq_true hfound)]

omit [DecidableEq υ] in
theorem mem_of_get (h : t.get k = some r) : r ∈ t.rows := (get_eq_some.mp h).1

omit [DecidableEq υ] in
theorem key_of_get (h : t.get k = some r) : Row.key r = k := (get_eq_some.mp h).2

omit [DecidableEq υ] in
theorem get_of_mem (h : r ∈ t.rows) : t.get (Row.key r) = some r := get_eq_some.mpr ⟨h, rfl⟩

omit [DecidableEq υ] in
theorem get_eq_none : t.get k = none ↔ ∀ r ∈ t.rows, Row.key r ≠ k := by
  simp [get, List.find?_eq_none]

omit [DecidableEq κ] in
theorem getUnique_eq_some : t.getUnique u = some r ↔ r ∈ t.rows ∧ Row.unique r = some u := by
  constructor
  · intro h
    have hfound := List.find?_some h
    exact ⟨List.mem_of_find?_eq_some h, of_decide_eq_true hfound⟩
  · rintro ⟨hr, hu⟩
    cases hget : t.getUnique u with
    | none =>
      have hnone := List.find?_eq_none.mp hget r hr
      simp [hu] at hnone
    | some s =>
      have hs : s ∈ t.rows := List.mem_of_find?_eq_some hget
      have hfound := List.find?_some hget
      rw [eq_of_unique hs hr (of_decide_eq_true hfound) hu]

omit [DecidableEq κ] in
theorem getUnique_eq_none : t.getUnique u = none ↔ ∀ r ∈ t.rows, Row.unique r ≠ some u := by
  simp [getUnique, List.find?_eq_none]

/-- Every row after an update is the new row or an old one with another key,
provided the new row may stand where the old one stood. -/
theorem mem_set (hold : t.get (Row.key r) = some old) (hfit : Replaces r old) :
    s ∈ (t.set r).rows ↔ s = r ∨ s ∈ t.rows ∧ Row.key s ≠ Row.key r := by
  have hmem := mem_of_get hold
  simp only [set, List.mem_map]
  constructor
  · rintro ⟨x, hx, rfl⟩
    split_ifs with h
    · exact Or.inl rfl
    · refine Or.inr ⟨hx, fun hkey => h ?_⟩
      rw [eq_of_key hx hmem (hkey.trans hfit.1.symm)]
      exact hfit
  · rintro (rfl | ⟨hs, hkey⟩)
    · exact ⟨old, hmem, if_pos hfit⟩
    · exact ⟨s, hs, if_neg fun h => hkey h.1⟩

theorem mem_of_mem_set (h : s ∈ (t.set r).rows) : s = r ∨ s ∈ t.rows := by
  simp only [set, List.mem_map] at h
  obtain ⟨x, hx, rfl⟩ := h
  split_ifs
  · exact Or.inl rfl
  · exact Or.inr hx

theorem get_set_self (hold : t.get (Row.key r) = some old) (hfit : Replaces r old) :
    (t.set r).get (Row.key r) = some r :=
  get_eq_some.mpr ⟨(mem_set hold hfit).mpr (Or.inl rfl), rfl⟩

theorem get_set_ne (h : k ≠ Row.key r) : (t.set r).get k = t.get k := by
  obtain ⟨rows, keys, unique⟩ := t
  simp only [get, set]
  clear keys unique
  induction rows with
  | nil => rfl
  | cons a rows ih =>
    rw [List.map_cons, List.find?_cons, List.find?_cons, ih]
    by_cases ha : Replaces r a
    · have hra : Row.key r ≠ k := Ne.symm h
      have haa : Row.key a ≠ k := fun hk => h (hk.symm.trans ha.1)
      simp [ha, hra, haa]
    · rw [if_neg ha]

theorem get_set (hold : t.get (Row.key r) = some old) (hfit : Replaces r old) (k : κ) :
    (t.set r).get k = if k = Row.key r then some r else t.get k := by
  split_ifs with h
  · rw [h, get_set_self hold hfit]
  · exact get_set_ne h

/-- An update leaves what the new row has in common with the old one. -/
theorem map_set {α : Type} (f : ρ → α) (hold : t.get (Row.key r) = some old)
    (hsame : f r = f old) : (t.set r).rows.map f = t.rows.map f := by
  simp only [set, List.map_map]
  refine List.map_congr_left fun s hs => ?_
  rw [Function.comp_apply]
  split_ifs with h
  · rw [hsame, eq_of_key hs (mem_of_get hold) (h.1.trans (key_of_get hold).symm)]
  · rfl

theorem isSome_get_set (k : κ) : ((t.set r).get k).isSome = (t.get k).isSome := by
  obtain ⟨rows, keys, unique⟩ := t
  simp only [get, set]
  clear keys unique
  induction rows with
  | nil => rfl
  | cons a rows ih =>
    rw [List.map_cons, List.find?_cons, List.find?_cons]
    have hkey : Row.key (if Replaces r a then r else a) = Row.key a := by
      split_ifs with ha
      · exact ha.1.symm
      · rfl
    rw [hkey]
    cases decide (Row.key a = k)
    · exact ih
    · rfl

theorem insert_eq_some {t' : Table ρ} (h : t.insert r = some t') :
    t.Free r ∧ t'.rows = t.rows ++ [r] := by
  unfold insert at h
  split_ifs at h with hfree
  cases h
  exact ⟨hfree, rfl⟩

theorem insert_isSome (h : t.Free r) : ∃ t', t.insert r = some t' := ⟨_, dif_pos h⟩

theorem mem_insert {t' : Table ρ} (h : t.insert r = some t') :
    s ∈ t'.rows ↔ s ∈ t.rows ∨ s = r := by
  rw [(insert_eq_some h).2]
  simp

theorem get_none_of_insert {t' : Table ρ} (h : t.insert r = some t') :
    t.get (Row.key r) = none :=
  get_eq_none.mpr fun s hs => ((insert_eq_some h).1 s hs).1

theorem get_insert {t' : Table ρ} (h : t.insert r = some t') (k : κ) :
    t'.get k = if k = Row.key r then some r else t.get k := by
  split_ifs with hk
  · exact get_eq_some.mpr ⟨(mem_insert h).mpr (Or.inr rfl), hk.symm⟩
  · cases hget : t.get k with
    | none =>
      rw [get_eq_none] at hget ⊢
      intro s hs
      rcases (mem_insert h).mp hs with hs | rfl
      · exact hget s hs
      · exact Ne.symm hk
    | some s =>
      obtain ⟨hs, hsk⟩ := get_eq_some.mp hget
      exact get_eq_some.mpr ⟨(mem_insert h).mpr (Or.inl hs), hsk⟩

theorem isSome_get_insert {t' : Table ρ} (h : t.insert r = some t')
    (hk : (t.get k).isSome = true) : (t'.get k).isSome = true := by
  rw [get_insert h]
  split_ifs
  · rfl
  · exact hk

theorem getUnique_insert {t' : Table ρ} (h : t.insert r = some t') (u : υ) :
    t'.getUnique u = if Row.unique r = some u then some r else t.getUnique u := by
  split_ifs with hu
  · exact getUnique_eq_some.mpr ⟨(mem_insert h).mpr (Or.inr rfl), hu⟩
  · cases hget : t.getUnique u with
    | none =>
      rw [getUnique_eq_none] at hget ⊢
      intro s hs
      rcases (mem_insert h).mp hs with hs | rfl
      · exact hget s hs
      · exact hu
    | some s =>
      obtain ⟨hs, hsu⟩ := getUnique_eq_some.mp hget
      exact getUnique_eq_some.mpr ⟨(mem_insert h).mpr (Or.inl hs), hsu⟩

omit [DecidableEq υ] in
theorem mem_iff_get : r ∈ t.rows ↔ t.get (Row.key r) = some r := by
  rw [get_eq_some]
  simp

omit [DecidableEq υ] in
/-- Deletion by a condition on the key deletes under the keys that meet it. -/
theorem get_delete {p : ρ → Bool} {q : κ → Bool} (hp : ∀ r, p r = q (Row.key r)) (k : κ) :
    (t.delete p).get k = if q k = true then none else t.get k := by
  split_ifs with hk
  · refine get_eq_none.mpr fun r hr heq => ?_
    have hkept := (mem_delete.mp hr).2
    rw [hp, heq, hk] at hkept
    cases hkept
  · cases hget : t.get k with
    | none => exact get_eq_none.mpr fun r hr => get_eq_none.mp hget r (mem_delete.mp hr).1
    | some r =>
      obtain ⟨hr, rfl⟩ := get_eq_some.mp hget
      refine get_of_mem (mem_delete.mpr ⟨hr, ?_⟩)
      rw [hp, Bool.eq_false_iff]
      exact hk

end Lookup

/-- The second table has `r` under its key, and under every other key what the first has. -/
def Writes (t t' : Table ρ) (r : ρ) : Prop :=
  t'.get (Row.key r) = some r ∧ ∀ k, k ≠ Row.key r → t'.get k = t.get k

namespace Writes

variable {t t' t'' : Table ρ} {r s old : ρ} {k : κ}

theorem of_set (hold : t.get (Row.key r) = some old) (hfit : Replaces r old) :
    Writes t (t.set r) r :=
  ⟨get_set_self hold hfit, fun _ hk => get_set_ne hk⟩

theorem of_insert (h : t.insert r = some t') : Writes t t' r :=
  ⟨by rw [get_insert h, if_pos rfl], fun k hk => by rw [get_insert h, if_neg hk]⟩

theorem of_put (h : t.put r = some t')
    (hfit : ∀ old, t.get (Row.key r) = some old → Replaces r old) : Writes t t' r := by
  unfold put at h
  split at h
  · rename_i old hold
    cases h
    exact of_set hold (hfit old hold)
  · exact of_insert h

omit [DecidableEq υ] in
theorem refl (h : t.get (Row.key r) = some r) : Writes t t r := ⟨h, fun _ _ => rfl⟩

omit [DecidableEq υ] in
theorem trans (h : Writes t t' r) (h' : Writes t' t'' s) (hkey : Row.key s = Row.key r) :
    Writes t t'' s :=
  ⟨h'.1, fun k hk => (h'.2 k hk).trans (h.2 k (hkey ▸ hk))⟩

omit [DecidableEq υ] in
theorem get (h : Writes t t' r) (k : κ) :
    t'.get k = if k = Row.key r then some r else t.get k := by
  split_ifs with hk
  · rw [hk, h.1]
  · exact h.2 k hk

omit [DecidableEq υ] in
theorem mem (h : Writes t t' r) : s ∈ t'.rows ↔ s = r ∨ s ∈ t.rows ∧ Row.key s ≠ Row.key r := by
  rw [mem_iff_get, mem_iff_get, h.get]
  split_ifs with hk
  · constructor
    · intro hs
      exact Or.inl (Option.some.inj hs).symm
    · rintro (rfl | ⟨-, hne⟩)
      · rfl
      · exact absurd hk hne
  · constructor
    · intro hs
      exact Or.inr ⟨hs, hk⟩
    · rintro (rfl | ⟨hs, -⟩)
      · exact absurd rfl hk
      · exact hs

end Writes

/-- From one table to the next each row keeps a relation to the row under its key, and each
new row meets a condition. -/
structure Evolves (Same : ρ → ρ → Prop) (New : ρ → Prop) (t t' : Table ρ) : Prop where
  kept : ∀ k r, t.get k = some r → ∃ r', t'.get k = some r' ∧ Same r r'
  fresh : ∀ k r, t'.get k = some r → t.get k = none → New r

namespace Evolves

variable {Same : ρ → ρ → Prop} {New : ρ → Prop} {t t' t'' : Table ρ} {r old : ρ}

omit [DecidableEq υ] in
theorem refl (hsame : ∀ r, Same r r) (t : Table ρ) : Evolves Same New t t := by
  refine ⟨fun k r hr => ⟨r, hr, hsame r⟩, fun k r hr hnone => ?_⟩
  rw [hnone] at hr
  cases hr

omit [DecidableEq υ] in
theorem trans (hsame : ∀ {a b c}, Same a b → Same b c → Same a c)
    (hnew : ∀ {a b}, New a → Same a b → New b) (h : Evolves Same New t t')
    (h' : Evolves Same New t' t'') : Evolves Same New t t'' := by
  refine ⟨fun k r hr => ?_, fun k r'' hr'' hnone => ?_⟩
  · obtain ⟨r', hr', hfirst⟩ := h.kept k r hr
    obtain ⟨r'', hr'', hsecond⟩ := h'.kept k r' hr'
    exact ⟨r'', hr'', hsame hfirst hsecond⟩
  · cases hr' : t'.get k with
    | none => exact h'.fresh k r'' hr'' hr'
    | some r' =>
      obtain ⟨row, hrow, hkept⟩ := h'.kept k r' hr'
      obtain rfl : row = r'' := Option.some.inj (hrow.symm.trans hr'')
      exact hnew (h.fresh k r' hr' hnone) hkept

omit [DecidableEq υ] in
theorem mono {Same' : ρ → ρ → Prop} {New' : ρ → Prop} (hsame : ∀ {a b}, Same a b → Same' a b)
    (hnew : ∀ {a}, New a → New' a) (h : Evolves Same New t t') : Evolves Same' New' t t' := by
  refine ⟨fun k r hr => ?_, fun k r hr hnone => hnew (h.fresh k r hr hnone)⟩
  obtain ⟨r', hr', hkept⟩ := h.kept k r hr
  exact ⟨r', hr', hsame hkept⟩

omit [DecidableEq υ] in
theorem of_writes (hsame : ∀ r, Same r r) (h : Writes t t' r)
    (hold : ∀ old, t.get (Row.key r) = some old → Same old r)
    (hnew : t.get (Row.key r) = none → New r) : Evolves Same New t t' := by
  refine ⟨fun k row hrow => ?_, fun k row hrow hnone => ?_⟩
  · by_cases hk : k = Row.key r
    · subst hk
      exact ⟨r, h.1, hold row hrow⟩
    · exact ⟨row, (h.2 k hk).trans hrow, hsame row⟩
  · by_cases hk : k = Row.key r
    · subst hk
      obtain rfl : r = row := Option.some.inj (h.1.symm.trans hrow)
      exact hnew hnone
    · rw [h.2 k hk, hnone] at hrow
      cases hrow

theorem of_set (hsame : ∀ r, Same r r) (hold : t.get (Row.key r) = some old)
    (hfit : Replaces r old) (hkept : Same old r) : Evolves Same New t (t.set r) := by
  refine of_writes hsame (.of_set hold hfit) (fun row hrow => ?_) (fun hnone => ?_)
  · obtain rfl : old = row := Option.some.inj (hold.symm.trans hrow)
    exact hkept
  · rw [hold] at hnone
    cases hnone

/-- A row that goes back to one of the first table is written over what is left of it. -/
theorem set (h : Evolves Same New t t') (hold : t.get (Row.key r) = some old) (hkept : Same old r)
    (hfit : ∀ r', Same old r' → Replaces r r') : Evolves Same New t (t'.set r) := by
  obtain ⟨row, hrow, hsame⟩ := h.kept _ old hold
  refine ⟨fun k first hfirst => ?_, fun k last hlast hnone => ?_⟩
  · by_cases hk : k = Row.key r
    · subst hk
      obtain rfl : old = first := Option.some.inj (hold.symm.trans hfirst)
      exact ⟨r, get_set_self hrow (hfit row hsame), hkept⟩
    · rw [get_set_ne hk]
      exact h.kept k first hfirst
  · by_cases hk : k = Row.key r
    · subst hk
      rw [hold] at hnone
      cases hnone
    · rw [get_set_ne hk] at hlast
      exact h.fresh k last hlast hnone

theorem of_insert (hsame : ∀ r, Same r r) (h : t.insert r = some t') (hnew : New r) :
    Evolves Same New t t' := by
  refine of_writes hsame (.of_insert h) (fun row hrow => ?_) (fun _ => hnew)
  rw [get_none_of_insert h] at hrow
  cases hrow

end Evolves

end Table

end Matinier
