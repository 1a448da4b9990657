import Mathlib.Data.List.Nodup

/-!
# Work on one cell after the other

A loop works on cells of a store, each by itself. What the work on a cell raises is passed over,
or it ends the loop. Where everything that is raised is passed over, a cell ends up as if no other
had been worked on.
-/

namespace Matinier

variable {κ C E : Type*} [DecidableEq κ]

/-- Work on some cells in order, and what ends that early. -/
def onCells (work : κ → C → C × Option E) (passes : E → Bool) :
    List κ → (κ → C) → (κ → C) × Option E
  | [], cells => (cells, none)
  | i :: rest, cells =>
    let worked := Function.update cells i (work i (cells i)).1
    match (work i (cells i)).2 with
    | none => onCells work passes rest worked
    | some e => if passes e then onCells work passes rest worked else (worked, some e)

/-- The work on a cell raises nothing but what is passed over. -/
def Passes (work : κ → C → C × Option E) (passes : E → Bool) (cells : κ → C) (i : κ) : Prop :=
  ∀ e ∈ (work i (cells i)).2, passes e = true

variable {work : κ → C → C × Option E} {passes : E → Bool} {l : List κ} {cells : κ → C} {i : κ}

omit [DecidableEq κ] in
theorem Passes.congr {cells' : κ → C} (h : cells i = cells' i) :
    Passes work passes cells i ↔ Passes work passes cells' i := by
  unfold Passes
  rw [h]

theorem onCells_cons_of_passes (h : Passes work passes cells i) :
    onCells work passes (i :: l) cells =
      onCells work passes l (Function.update cells i (work i (cells i)).1) := by
  rw [onCells]
  cases hraised : (work i (cells i)).2 with
  | none => rfl
  | some e => simp [h e hraised]

theorem onCells_cons_of_not_passes (h : ¬ Passes work passes cells i) :
    (onCells work passes (i :: l) cells).2.isSome = true := by
  simp only [Passes, not_forall] at h
  obtain ⟨e, hraised, hpasses⟩ := h
  rw [onCells]
  simp only [Option.mem_def.mp hraised, if_neg hpasses, Option.isSome_some]

theorem onCells_frame (h : i ∉ l) : (onCells work passes l cells).1 i = cells i := by
  induction l generalizing cells with
  | nil => rfl
  | cons j l ih =>
    rw [List.mem_cons, not_or] at h
    have hworked : Function.update cells j (work j (cells j)).1 i = cells i :=
      Function.update_of_ne h.1 _ _
    rw [onCells]
    split
    · rw [ih h.2, hworked]
    · split_ifs
      · rw [ih h.2, hworked]
      · exact hworked

/-- The loop gets through exactly where the work on every cell passes. -/
theorem onCells_none_iff (hl : l.Nodup) :
    (onCells work passes l cells).2 = none ↔ ∀ i ∈ l, Passes work passes cells i := by
  induction l generalizing cells with
  | nil => simp [onCells]
  | cons i l ih =>
    rw [List.nodup_cons] at hl
    have hsame : ∀ j ∈ l, cells j = Function.update cells i (work i (cells i)).1 j := by
      intro j hj
      rw [Function.update_of_ne]
      rintro rfl
      exact hl.1 hj
    by_cases hpasses : Passes work passes cells i
    · rw [onCells_cons_of_passes hpasses, ih hl.2, List.forall_mem_cons]
      constructor
      · intro h
        exact ⟨hpasses, fun j hj => (Passes.congr (hsame j hj)).mpr (h j hj)⟩
      · intro h j hj
        exact (Passes.congr (hsame j hj)).mp (h.2 j hj)
    · constructor
      · intro h
        have hsome := onCells_cons_of_not_passes (l := l) hpasses
        rw [h] at hsome
        cases hsome
      · intro h
        exact absurd (h i List.mem_cons_self) hpasses

theorem onCells_get (hl : l.Nodup) (h : ∀ i ∈ l, Passes work passes cells i) (hi : i ∈ l) :
    (onCells work passes l cells).1 i = (work i (cells i)).1 := by
  induction l generalizing cells with
  | nil => cases hi
  | cons j l ih =>
    rw [List.nodup_cons] at hl
    rw [List.forall_mem_cons] at h
    have hsame : ∀ k ∈ l, Function.update cells j (work j (cells j)).1 k = cells k := by
      intro k hk
      rw [Function.update_of_ne]
      rintro rfl
      exact hl.1 hk
    rw [onCells_cons_of_passes h.1]
    rcases List.mem_cons.mp hi with rfl | hi
    · rw [onCells_frame hl.1, Function.update_self]
    · have hrest : ∀ k ∈ l,
          Passes work passes (Function.update cells j (work j (cells j)).1) k :=
        fun k hk => (Passes.congr (hsame k hk)).mpr (h.2 k hk)
      rw [ih hl.2 hrest hi, hsame i hi]

/-- Some cells do no harm, in that the loop gets through and leaves the others as it does without
them, exactly where the work on them passes, if that on the others does. -/
theorem onCells_contained {good : κ → Bool} (hl : l.Nodup)
    (hgood : ∀ i ∈ l, good i = true → Passes work passes cells i) :
    ((onCells work passes l cells).2 = none ∧ ∀ i, good i = true →
      (onCells work passes l cells).1 i = (onCells work passes (l.filter good) cells).1 i) ↔
      ∀ i ∈ l, good i = false → Passes work passes cells i := by
  have hfilter : ∀ i ∈ l.filter good, Passes work passes cells i :=
    fun i hi => hgood i (List.mem_filter.mp hi).1 (List.mem_filter.mp hi).2
  constructor
  · intro h i hi _
    exact (onCells_none_iff hl).mp h.1 i hi
  · intro hbad
    have hall : ∀ i ∈ l, Passes work passes cells i := by
      intro i hi
      cases hgood' : good i with
      | true => exact hgood i hi hgood'
      | false => exact hbad i hi hgood'
    refine ⟨(onCells_none_iff hl).mpr hall, fun i hi => ?_⟩
    by_cases hmem : i ∈ l
    · rw [onCells_get hl hall hmem,
        onCells_get (hl.filter _) hfilter (List.mem_filter.mpr ⟨hmem, hi⟩)]
    · rw [onCells_frame hmem, onCells_frame fun h => hmem (List.mem_filter.mp h).1]

end Matinier
