import Mathlib.Data.List.Count

/-!
# Runs of a labelled machine

A machine is a relation `step s l t`: from `s` the step labelled `l` may lead
to `t`. The rules below carry what one step preserves to whole runs: an
invariant, and a relation between the two ends.
-/

namespace Matinier

variable {S L : Type*} {step : S → L → S → Prop}

/-- The steps from one state to another, with their labels in order. -/
inductive Run (step : S → L → S → Prop) : S → List L → S → Prop
  | done (s : S) : Run step s [] s
  | more {s t u : S} {l : L} {ls : List L} :
      step s l t → Run step t ls u → Run step s (l :: ls) u

/-- The steps taken where a condition on the state and the label holds. -/
def Under (C : S → L → Prop) (step : S → L → S → Prop) : S → L → S → Prop :=
  fun s l t => C s l ∧ step s l t

namespace Run

variable {s t u : S} {l : L} {ls ms : List L}

theorem single (h : step s l t) : Run step s [l] t := .more h (.done t)

theorem append (h : Run step s ls t) (h' : Run step t ms u) : Run step s (ls ++ ms) u := by
  induction h with
  | done _ => exact h'
  | more hstep _ ih => exact .more hstep (ih h')

theorem mono {step' : S → L → S → Prop} (himp : ∀ s l t, step s l t → step' s l t)
    (h : Run step s ls t) : Run step' s ls t := by
  induction h with
  | done s => exact .done s
  | more hstep _ ih => exact .more (himp _ _ _ hstep) ih

theorem forget {C : S → L → Prop} (h : Run (Under C step) s ls t) : Run step s ls t :=
  h.mono fun _ _ _ hstep => hstep.2

theorem invariant {I : S → Prop} (hstep : ∀ s l t, I s → step s l t → I t)
    (h : Run step s ls t) (hs : I s) : I t := by
  induction h with
  | done _ => exact hs
  | more h _ ih => exact ih (hstep _ _ _ hs h)

theorem history {I : List L → S → Prop} (hstep : ∀ ms s l t, I ms s → step s l t → I (ms ++ [l]) t)
    (h : Run step s ls t) (hs : I ms s) : I (ms ++ ls) t := by
  induction h generalizing ms with
  | done _ => simpa using hs
  | more h _ ih => simpa using ih (hstep _ _ _ _ hs h)

/-- An invariant, and what each step from a state satisfying it relates. -/
theorem relation {I : S → Prop} {R : S → S → Prop} (hrefl : ∀ s, R s s)
    (htrans : ∀ {a b c}, R a b → R b c → R a c)
    (hinv : ∀ s l t, I s → step s l t → I t)
    (hstep : ∀ s l t, I s → step s l t → R s t)
    (h : Run step s ls t) (hs : I s) : R s t := by
  induction h with
  | done s => exact hrefl s
  | more h _ ih => exact htrans (hstep _ _ _ hs h) (ih (hinv _ _ _ hs h))

/-- Two machines whose steps agree wherever an invariant of one of them holds have the same
runs from there. -/
theorem congr {step' : S → L → S → Prop} {I : S → Prop}
    (hinv : ∀ s l t, I s → step s l t → I t)
    (hstep : ∀ s l t, I s → (step s l t ↔ step' s l t)) (hs : I s) :
    Run step s ls t ↔ Run step' s ls t := by
  constructor
  · intro h
    induction h with
    | done s => exact .done s
    | more h _ ih => exact .more ((hstep _ _ _ hs).mp h) (ih (hinv _ _ _ hs h))
  · intro h
    induction h with
    | done s => exact .done s
    | more h _ ih =>
      have hfirst := (hstep _ _ _ hs).mpr h
      exact .more hfirst (ih (hinv _ _ _ hs hfirst))

/-- A condition whose rank no step raises and each step of one kind lowers is left for another
one, which is kept, before more steps of that kind are taken than the rank says. -/
theorem reaches {P Q : S → Prop} {A : L → Prop} [DecidablePred A] (rank : S → ℕ)
    (hstep : ∀ s l t, P s → step s l t →
      Q t ∨ P t ∧ rank t ≤ rank s ∧ (A l → rank t < rank s))
    (hkeep : ∀ s l t, Q s → step s l t → Q t) (h : Run step s ls t) (hs : P s)
    (hcount : rank s < ls.countP fun l => A l) : Q t := by
  induction h with
  | done s => simp at hcount
  | @more s t u l ls h hrest ih =>
    rcases hstep _ _ _ hs h with hQ | ⟨hP, hle, hlt⟩
    · exact hrest.invariant hkeep hQ
    · refine ih hP ?_
      rw [List.countP_cons] at hcount
      by_cases hA : A l
      · have := hlt hA
        simp only [hA, decide_true, if_true] at hcount
        omega
      · simp only [hA, decide_false, Bool.false_eq_true, if_false] at hcount
        omega

end Run

/-- A condition no two related elements meet together is met once at most in a list whose
elements are pairwise related. -/
theorem countP_le_one {α : Type*} {R : α → α → Prop} {p : α → Bool} {l : List α}
    (hl : l.Pairwise R) (hp : ∀ a b, p a = true → p b = true → ¬ R a b) : l.countP p ≤ 1 := by
  induction l with
  | nil => simp
  | cons a l ih =>
    rw [List.pairwise_cons] at hl
    by_cases ha : p a = true
    · have hnone : l.countP p = 0 :=
        List.countP_eq_zero.mpr fun b hb hpb => hp a b ha hpb (hl.1 b hb)
      have hone : (a :: l).countP p = 1 := by simp [hnone, ha]
      exact Nat.le_of_eq hone
    · rw [List.countP_cons, if_neg ha]
      exact ih hl.2

/-- Dropping one element of a list without repeated keys from a condition drops the count
by one. -/
theorem countP_drop_one {α κ : Type*} {key : α → κ} {p q : α → Bool} {l : List α} {a : α}
    (hkeys : (l.map key).Nodup) (ha : a ∈ l) (hp : p a = true) (hq : q a = false)
    (hsame : ∀ b ∈ l, key b ≠ key a → q b = p b) : l.countP q + 1 = l.countP p := by
  induction l with
  | nil => cases ha
  | cons b l ih =>
    rw [List.map_cons, List.nodup_cons] at hkeys
    rcases List.mem_cons.mp ha with rfl | ha
    · have hrest : l.countP q = l.countP p :=
        List.countP_congr fun c hc => by
          rw [hsame c (List.mem_cons_of_mem _ hc) fun heq =>
            hkeys.1 (heq ▸ List.mem_map_of_mem hc)]
      rw [List.countP_cons, List.countP_cons, hp, hq, hrest]
      simp
    · have hne : key b ≠ key a := fun heq => hkeys.1 (heq ▸ List.mem_map_of_mem ha)
      have hrest := ih hkeys.2 ha fun c hc => hsame c (List.mem_cons_of_mem _ hc)
      rw [List.countP_cons, List.countP_cons, hsame b List.mem_cons_self hne]
      omega

/-- Replacing one element of a list moves the count by what the two elements count. -/
theorem countP_set {α : Type*} {p : α → Bool} {l : List α} {i : ℕ} {a : α}
    (h : l[i]? = some a) (b : α) :
    (l.set i b).countP p + (if p a then 1 else 0) = l.countP p + if p b then 1 else 0 := by
  induction l generalizing i with
  | nil => cases h
  | cons c l ih =>
    cases i with
    | zero =>
      cases h
      simp only [List.set_cons_zero, List.countP_cons]
      omega
    | succ i =>
      have hrest := ih (by simpa using h)
      simp only [List.set_cons_succ, List.countP_cons]
      omega

def follow (next : S → L → Option S) : List L → S → Option S
  | [], s => some s
  | l :: ls, s => (next s l).bind (follow next ls)

theorem run_of_follow {next : S → L → Option S} {ls : List L} {s t : S}
    (h : follow next ls s = some t) : Run (fun s l t => next s l = some t) s ls t := by
  induction ls generalizing s with
  | nil =>
    cases h
    exact .done _
  | cons l ls ih =>
    obtain ⟨m, hm, ht⟩ := Option.bind_eq_some_iff.mp h
    exact .more hm (ih ht)

theorem run_to_get (next : S → L → Option S) (ls : List L) (s : S)
    (h : (follow next ls s).isSome = true) :
    Run (fun s l t => next s l = some t) s ls ((follow next ls s).get h) :=
  run_of_follow (Option.some_get h).symm

def guarded (C : S → L → Prop) [∀ s l, Decidable (C s l)] (next : S → L → Option S) (s : S)
    (l : L) : Option S :=
  if C s l then next s l else none

theorem under_of_guarded (C : S → L → Prop) [∀ s l, Decidable (C s l)]
    {next : S → L → Option S} (s : S) (l : L) (t : S) (h : guarded C next s l = some t) :
    Under C (fun s l t => next s l = some t) s l t := by
  unfold guarded at h
  split_ifs at h with hC
  exact ⟨hC, h⟩

/-- A trace that evaluates with every step meeting the condition is such a run. -/
theorem run_under_to_get (C : S → L → Prop) [∀ s l, Decidable (C s l)]
    (next : S → L → Option S) (ls : List L) (s : S)
    (h : (follow (guarded C next) ls s).isSome = true) :
    Run (Under C fun s l t => next s l = some t) s ls ((follow (guarded C next) ls s).get h) :=
  (run_to_get _ _ _ h).mono (under_of_guarded C)

end Matinier
