import Mathlib.Data.List.Sort

/-!
# Lists read as dictionaries

A list whose elements have keys is read as a dictionary in which a later element replaces an
earlier one with its key. A list that is sorted by its keys and has none of them twice is
determined by what it reads.
-/

namespace Matinier

section LastWins

variable {ι κ : Type} [DecidableEq κ] {key : ι → κ} {l l' : List ι} {k : κ} {x : ι}

/-- The last element under a key. -/
def lastAt (key : ι → κ) : List ι → κ → Option ι
  | [], _ => none
  | x :: rest, k => (lastAt key rest k).or (if key x = k then some x else none)

@[simp] theorem lastAt_nil : lastAt key [] k = none := rfl

theorem lastAt_append : lastAt key (l ++ l') k = (lastAt key l' k).or (lastAt key l k) := by
  induction l with
  | nil => simp
  | cons first rest ih => rw [List.cons_append, lastAt, ih, lastAt, Option.or_assoc]

theorem mem_of_lastAt (h : lastAt key l k = some x) : x ∈ l ∧ key x = k := by
  induction l with
  | nil => cases h
  | cons first rest ih =>
    rcases Option.or_eq_some_iff.mp h with hlater | ⟨-, hfirst⟩
    · exact ⟨List.mem_cons_of_mem _ (ih hlater).1, (ih hlater).2⟩
    · split_ifs at hfirst with hkey
      cases hfirst
      exact ⟨List.mem_cons_self, hkey⟩

theorem lastAt_eq_none : lastAt key l k = none ↔ ∀ x ∈ l, key x ≠ k := by
  induction l with
  | nil => simp
  | cons first rest ih => simp [lastAt, ih, and_comm]

theorem lastAt_of_mem (hnodup : (l.map key).Nodup) (hx : x ∈ l) :
    lastAt key l (key x) = some x := by
  induction l with
  | nil => cases hx
  | cons first rest ih =>
    rw [List.map_cons, List.nodup_cons] at hnodup
    rcases List.mem_cons.mp hx with rfl | hx
    · have hlater : lastAt key rest (key x) = none :=
        lastAt_eq_none.mpr fun y hy heq => hnodup.1 (heq ▸ List.mem_map_of_mem hy)
      simp [lastAt, hlater]
    · simp [lastAt, ih hnodup.2 hx]

/-- A choice that does not tell elements with one key apart, before or after reading. -/
theorem lastAt_filter {p : ι → Bool} (hp : ∀ x ∈ l, ∀ y ∈ l, key x = key y → p x = p y) :
    lastAt key (l.filter p) k = (lastAt key l k).filter p := by
  induction l with
  | nil => rfl
  | cons first rest ih =>
    have hrest := ih fun x hx y hy => hp x (List.mem_cons_of_mem _ hx) y (List.mem_cons_of_mem _ hy)
    have hsplit : lastAt key ((first :: rest).filter p) k =
        ((lastAt key rest k).filter p).or
          ((if key first = k then some first else none).filter p) := by
      rw [← hrest]
      by_cases hpf : p first <;> by_cases hkey :
        key first = k <;> simp [lastAt, Option.filter_some, hpf, hkey]
    rw [hsplit, lastAt]
    cases hread : lastAt key rest k with
    | none => simp
    | some x =>
      obtain ⟨hx, hk⟩ := mem_of_lastAt hread
      by_cases hpx : p x
      · simp [Option.filter_some, hpx]
      · split_ifs with hkey
        · have hsame := hp first List.mem_cons_self x (List.mem_cons_of_mem _ hx)
            (hkey.trans hk.symm)
          simp [Option.filter_some, hpx, hsame]
        · simp [Option.filter_some, hpx]

/-- What a list without a key twice reads does not depend on its order. -/
theorem lastAt_perm (hnodup : (l.map key).Nodup) (hperm : l.Perm l') :
    lastAt key l' k = lastAt key l k := by
  have hnodup' : (l'.map key).Nodup := (hperm.map key).nodup hnodup
  cases hread : lastAt key l k with
  | none => exact lastAt_eq_none.mpr fun x hx => lastAt_eq_none.mp hread x (hperm.mem_iff.mpr hx)
  | some x =>
    obtain ⟨hx, rfl⟩ := mem_of_lastAt hread
    exact lastAt_of_mem hnodup' (hperm.mem_iff.mp hx)

/-- Sorted lists without a key twice that read the same are the same. -/
theorem eq_of_lastAt [LinearOrder κ] (hnodup : (l.map key).Nodup) (hnodup' : (l'.map key).Nodup)
    (hsorted : l.Pairwise fun x y => key x ≤ key y)
    (hsorted' : l'.Pairwise fun x y => key x ≤ key y)
    (hread : ∀ k, lastAt key l k = lastAt key l' k) : l = l' := by
  have hmem : ∀ x, x ∈ l ↔ x ∈ l' := by
    intro x
    constructor
    · intro hx
      exact (mem_of_lastAt ((hread _).symm.trans (lastAt_of_mem hnodup hx))).1
    · intro hx
      exact (mem_of_lastAt ((hread _).trans (lastAt_of_mem hnodup' hx))).1
  have hperm : l.Perm l' :=
    (List.perm_ext_iff_of_nodup (List.Nodup.of_map key hnodup) (List.Nodup.of_map key hnodup')).mpr
      hmem
  apply List.Perm.eq_of_pairwise _ hsorted hsorted' hperm
  intro x y hx hy hle hge
  have hkey : key x = key y := le_antisymm hle hge
  have hreads := lastAt_of_mem hnodup hx
  rw [hkey, hread, lastAt_of_mem hnodup' hy] at hreads
  exact (Option.some.inj hreads).symm

end LastWins

end Matinier
