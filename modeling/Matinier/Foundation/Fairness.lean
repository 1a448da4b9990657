import Mathlib.Data.Nat.Init
import Matinier.Foundation.Machine

/-!
# Fair executions

An execution is an infinite sequence of steps. It is fair to a kind of step that
it takes in the end if the step is possible again and again. The rules below show
that one condition leads to another: by one step that fairness brings about, by a
number that only goes down, and by sequencing.
-/

namespace Matinier

variable {S L : Type*} {step : S → L → S → Prop}

structure Execution (step : S → L → S → Prop) where
  state : ℕ → S
  label : ℕ → L
  steps : ∀ n, step (state n) (label n) (state (n + 1))

namespace Execution

def CanStep (step : S → L → S → Prop) (A : L → Prop) (s : S) : Prop := ∃ l t, A l ∧ step s l t

/-- A kind of step that is possible again and again is taken in the end. -/
def Fair (e : Execution step) (A : L → Prop) : Prop :=
  ∀ n, (∀ m, n ≤ m → ∃ k, m ≤ k ∧ CanStep step A (e.state k)) → ∃ m, n ≤ m ∧ A (e.label m)

/-- The execution as one of a machine that has at least these steps. -/
def mono {step' : S → L → S → Prop} (himp : ∀ s l t, step s l t → step' s l t)
    (e : Execution step) : Execution step' where
  state := e.state
  label := e.label
  steps n := himp _ _ _ (e.steps n)

/-- Wherever the first condition holds, the second holds then or later. -/
def LeadsTo (e : Execution step) (P Q : S → Prop) : Prop :=
  ∀ n, P (e.state n) → ∃ m, n ≤ m ∧ Q (e.state m)

variable {e : Execution step} {P Q R : S → Prop} {A : L → Prop}

theorem invariant {I : S → Prop} (hstep : ∀ s l t, I s → step s l t → I t)
    (h : I (e.state 0)) (n : ℕ) : I (e.state n) := by
  induction n with
  | zero => exact h
  | succ n ih => exact hstep _ _ _ ih (e.steps n)

theorem LeadsTo.of_imp (h : ∀ n, P (e.state n) → Q (e.state n)) : e.LeadsTo P Q :=
  fun n hP => ⟨n, Nat.le_refl n, h n hP⟩

theorem LeadsTo.trans (h : e.LeadsTo P Q) (h' : e.LeadsTo Q R) : e.LeadsTo P R := by
  intro n hP
  obtain ⟨m, hm, hQ⟩ := h n hP
  obtain ⟨k, hk, hR⟩ := h' m hQ
  exact ⟨k, Nat.le_trans hm hk, hR⟩

theorem LeadsTo.or (h : e.LeadsTo P R) (h' : e.LeadsTo Q R) :
    e.LeadsTo (fun s => P s ∨ Q s) R :=
  fun n hPQ => hPQ.elim (h n) (h' n)

/-- A condition that is only left for another one, and left by a fair kind of step that
stays possible again and again, leads to it. -/
theorem leadsTo_of_fair (hfair : e.Fair A)
    (hkeep : ∀ n, P (e.state n) → P (e.state (n + 1)) ∨ Q (e.state (n + 1)))
    (hact : ∀ n, P (e.state n) → A (e.label n) → Q (e.state (n + 1)))
    (hcan : e.LeadsTo P fun s => CanStep step A s ∨ Q s) : e.LeadsTo P Q := by
  intro n hP
  by_contra hnever
  have hnot : ∀ m, n ≤ m → ¬ Q (e.state m) := fun m hm hQ => hnever ⟨m, hm, hQ⟩
  have hstays : ∀ m, n ≤ m → P (e.state m) := by
    intro m hm
    induction m, hm using Nat.le_induction with
    | base => exact hP
    | succ m hm ih => exact (hkeep m ih).resolve_right (hnot (m + 1) (Nat.le_succ_of_le hm))
  have hagain : ∀ m, n ≤ m → ∃ k, m ≤ k ∧ CanStep step A (e.state k) := by
    intro m hm
    obtain ⟨k, hk, hcan⟩ := hcan m (hstays m hm)
    exact ⟨k, hk, hcan.resolve_right (hnot k (Nat.le_trans hm hk))⟩
  obtain ⟨m, hm, hA⟩ := hfair n hagain
  exact hnot (m + 1) (Nat.le_succ_of_le hm) (hact m (hstays m hm) hA)

/-- A condition that leads to itself at a lower rank, or to another one, leads to that. -/
theorem leadsTo_of_rank (rank : S → ℕ)
    (h : ∀ k, e.LeadsTo (fun s => P s ∧ rank s = k) fun s => Q s ∨ P s ∧ rank s < k) :
    e.LeadsTo P Q := by
  intro n hP
  obtain ⟨k, hk⟩ : ∃ k, rank (e.state n) = k := ⟨_, rfl⟩
  induction k using Nat.strong_induction_on generalizing n with
  | _ k ih =>
    obtain ⟨m, hm, hQ | ⟨hP', hlt⟩⟩ := h k n ⟨hP, hk⟩
    · exact ⟨m, hm, hQ⟩
    · obtain ⟨j, hj, hQ⟩ := ih _ hlt m hP' rfl
      exact ⟨j, Nat.le_trans hm hj, hQ⟩

/-- An execution is fair to a kind of step that is not possible any more in the end. -/
theorem fair_of_never {N : ℕ} (h : ∀ n, N ≤ n → ¬ CanStep step A (e.state n)) : e.Fair A := by
  intro n hagain
  obtain ⟨k, hk, hcan⟩ := hagain (max n N) (Nat.le_max_left n N)
  exact absurd hcan (h k (Nat.le_trans (Nat.le_max_right n N) hk))

def states (next : S → L → Option S) : List L → S → ℕ → S
  | [], s, _ => s
  | _ :: _, s, 0 => s
  | l :: ls, s, n + 1 => states next ls ((next s l).getD s) n

/-- A trace that evaluates to a state which one more step leads back to, as an execution. -/
def ofTrace (next : S → L → Option S) (ls : List L) (last : L) (s t : S)
    (h : follow next ls s = some t) (hlast : next t last = some t) :
    Execution fun s l t => next s l = some t where
  state := states next ls s
  label := fun n => ls.getD n last
  steps := by
    intro n
    induction ls generalizing s n with
    | nil =>
      cases h
      simpa [states] using hlast
    | cons l ls ih =>
      obtain ⟨m, hm, ht⟩ := Option.bind_eq_some_iff.mp h
      cases n with
      | zero =>
        cases ls <;> simp [states, hm]
      | succ n => simpa [states, hm] using ih m ht n

theorem states_eq_last {next : S → L → Option S} {ls : List L} {s t : S}
    (h : follow next ls s = some t) {n : ℕ} (hn : ls.length ≤ n) : states next ls s n = t := by
  induction ls generalizing s n with
  | nil =>
    cases h
    rfl
  | cons l ls ih =>
    obtain ⟨m, hm, ht⟩ := Option.bind_eq_some_iff.mp h
    cases n with
    | zero => simp at hn
    | succ n =>
      rw [states, hm]
      exact ih ht (by simpa using hn)

end Execution
end Matinier
