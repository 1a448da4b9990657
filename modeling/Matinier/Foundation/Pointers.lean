import Mathlib.Data.Nat.Init
import Mathlib.Tactic.SplitIfs
import Mathlib.Logic.Relation

/-!
# Pointers that lead to a root

Each element has a pointer to another one, or is a root. Pointers are ranked where some measure
falls along each of them. Then no element is reached from itself, and from every element the
pointers lead to one root. A new pointer from a root to another one keeps the pointers ranked.
-/

namespace Matinier

variable {κ : Type*} {pointer : κ → Option κ} {a b c : κ}

/-- The pointer of the first element is to the second. -/
def Points (pointer : κ → Option κ) (a b : κ) : Prop := pointer a = some b

/-- A measure falls along every pointer. -/
def Ranked (pointer : κ → Option κ) : Prop :=
  ∃ rank : κ → ℕ, ∀ a b, Points pointer a b → rank b < rank a

/-- The pointers lead from the first element to the second, which is a root. -/
def LeadsTo (pointer : κ → Option κ) (a b : κ) : Prop :=
  Relation.ReflTransGen (Points pointer) a b ∧ pointer b = none

theorem LeadsTo.of_root (h : pointer a = none) : LeadsTo pointer a a := ⟨.refl, h⟩

theorem LeadsTo.head (h : pointer a = some b) (hb : LeadsTo pointer b c) : LeadsTo pointer a c :=
  ⟨.head h hb.1, hb.2⟩

theorem LeadsTo.unique (hb : LeadsTo pointer a b) (hc : LeadsTo pointer a c) : b = c := by
  obtain ⟨hpath, hroot⟩ := hb
  induction hpath using Relation.ReflTransGen.head_induction_on with
  | refl =>
    rcases Relation.ReflTransGen.cases_head hc.1 with heq | ⟨next, hnext, -⟩
    · exact heq
    · rw [Points, hroot] at hnext
      cases hnext
  | @head first next hfirst _ ih =>
    apply ih
    rcases Relation.ReflTransGen.cases_head hc.1 with rfl | ⟨other, hother, hrest⟩
    · rw [Points, hc.2] at hfirst
      cases hfirst
    · obtain rfl : next = other := Option.some.inj (hfirst.symm.trans hother)
      exact ⟨hrest, hc.2⟩

namespace Ranked

theorem of_none (h : ∀ a, pointer a = none) : Ranked pointer := by
  refine ⟨fun _ => 0, fun a b hab => ?_⟩
  rw [Points, h a] at hab
  cases hab

theorem acyclic (h : Ranked pointer) (a : κ) : ¬ Relation.TransGen (Points pointer) a a := by
  obtain ⟨rank, hrank⟩ := h
  have hfalls : ∀ b c, Relation.TransGen (Points pointer) b c → rank c < rank b := by
    intro b c hbc
    induction hbc with
    | single hpoints => exact hrank _ _ hpoints
    | tail _ hpoints ih => exact Nat.lt_trans (hrank _ _ hpoints) ih
  exact fun hcycle => Nat.lt_irrefl _ (hfalls a a hcycle)

theorem leadsTo (h : Ranked pointer) (a : κ) : ∃ b, LeadsTo pointer a b := by
  obtain ⟨rank, hrank⟩ := h
  induction hn : rank a using Nat.strong_induction_on generalizing a with
  | _ n ih =>
    cases hnext : pointer a with
    | none => exact ⟨a, .of_root hnext⟩
    | some b =>
      obtain ⟨root, hroot⟩ := ih (rank b) (hn ▸ hrank a b hnext) b rfl
      exact ⟨root, hroot.head hnext⟩

theorem congr {other : κ → Option κ} (h : Ranked pointer) (heq : ∀ a, other a = pointer a) :
    Ranked other := by
  obtain ⟨rank, hrank⟩ := h
  exact ⟨rank, fun a b hab => hrank a b ((heq a).symm.trans hab)⟩

theorem link {other : κ → Option κ} (h : Ranked pointer) (hne : a ≠ b) (hb : pointer b = none)
    (hlink : other a = some b) (heq : ∀ c, c ≠ a → other c = pointer c) : Ranked other := by
  obtain ⟨rank, hrank⟩ := h
  classical
  -- The root that is pointed to goes below everything, and all the rest one step up.
  refine ⟨fun c => if c = b then 0 else rank c + 1, fun c d hcd => ?_⟩
  have hbelow : c ≠ b := by
    rintro rfl
    rw [Points, heq c (Ne.symm hne), hb] at hcd
    cases hcd
  by_cases hca : c = a
  · subst hca
    obtain rfl : b = d := Option.some.inj (hlink.symm.trans hcd)
    simp [hne]
  · rw [Points, heq c hca] at hcd
    have hfalls := hrank c d hcd
    simp only [if_neg hbelow]
    split_ifs
    · exact Nat.succ_pos _
    · exact Nat.succ_lt_succ hfalls

end Ranked

end Matinier
