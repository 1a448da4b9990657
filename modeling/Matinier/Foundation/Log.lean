import Mathlib.Data.List.Basic

/-!
# Append-only logs

A log numbers its entries upwards. A window is what a reader selects between two
numbers; the lemmas below say that a window does not change once the log has
grown past it, that adjacent windows join, and that a page of bounded length is a
window.
-/

namespace Matinier

structure Entry (α : Type) where
  id : ℕ
  value : α
  deriving DecidableEq

/-- Entries in the order of their numbers. -/
structure Log (α : Type) where
  entries : List (Entry α)
  ascending : entries.Pairwise fun a b => a.id < b.id

namespace Log

variable {α : Type} {l : Log α} {p : α → Bool} {lo mid hi n : ℕ}

def empty : Log α := ⟨[], List.Pairwise.nil⟩

/-- The highest number, or zero. -/
def top (l : Log α) : ℕ := (l.entries.map Entry.id).foldr max 0

theorem le_top {e : Entry α} (h : e ∈ l.entries) : e.id ≤ l.top := by
  unfold top
  generalize l.entries = entries at h
  induction entries with
  | nil => cases h
  | cons a entries ih =>
    rw [List.map_cons, List.foldr_cons]
    rcases List.mem_cons.mp h with rfl | h
    · exact Nat.le_max_left _ _
    · exact Nat.le_trans (ih h) (Nat.le_max_right _ _)

/-- Append a value under the next number. -/
def append (l : Log α) (value : α) : Log α where
  entries := l.entries ++ [⟨l.top + 1, value⟩]
  ascending := by
    rw [List.pairwise_append]
    refine ⟨l.ascending, List.pairwise_singleton _ _, fun a ha b hb => ?_⟩
    rw [List.mem_singleton.mp hb]
    exact Nat.lt_succ_of_le (le_top ha)

/-- Append several values in order. -/
def appendAll (l : Log α) (values : List α) : Log α := values.foldl append l

/-- The selected entries with a number above the first bound and up to the second. -/
def window (l : Log α) (p : α → Bool) (lo hi : ℕ) : List (Entry α) :=
  l.entries.filter fun e => p e.value ∧ lo < e.id ∧ e.id ≤ hi

/-- The selected entries with a number above the bound. -/
def after (l : Log α) (p : α → Bool) (lo : ℕ) : List (Entry α) :=
  l.entries.filter fun e => p e.value ∧ lo < e.id

@[simp] theorem mem_window {e : Entry α} :
    e ∈ l.window p lo hi ↔ e ∈ l.entries ∧ p e.value = true ∧ lo < e.id ∧ e.id ≤ hi := by
  simp [window]

@[simp] theorem mem_after {e : Entry α} :
    e ∈ l.after p lo ↔ e ∈ l.entries ∧ p e.value = true ∧ lo < e.id := by
  simp [after]

theorem mem_append {e : Entry α} {value : α} :
    e ∈ (l.append value).entries ↔ e ∈ l.entries ∨ e = ⟨l.top + 1, value⟩ := by
  simp [append]

/-- The second log is the first with more entries under higher numbers. -/
def Extends (l l' : Log α) : Prop :=
  ∃ rest, l'.entries = l.entries ++ rest ∧ ∀ e ∈ rest, l.top < e.id

theorem Extends.refl (l : Log α) : l.Extends l := ⟨[], by simp, by simp⟩

theorem extends_append (value : α) : l.Extends (l.append value) :=
  ⟨[⟨l.top + 1, value⟩], rfl, by simp⟩

theorem Extends.mem {l' : Log α} (h : l.Extends l') {e : Entry α} (he : e ∈ l.entries) :
    e ∈ l'.entries := by
  obtain ⟨rest, hrest, -⟩ := h
  rw [hrest]
  exact List.mem_append_left _ he

theorem top_le {n : ℕ} (h : ∀ e ∈ l.entries, e.id ≤ n) : l.top ≤ n := by
  unfold top
  generalize l.entries = entries at h
  induction entries with
  | nil => exact Nat.zero_le n
  | cons a entries ih =>
    rw [List.map_cons, List.foldr_cons]
    exact Nat.max_le.mpr
      ⟨h a List.mem_cons_self, ih fun e he => h e (List.mem_cons_of_mem _ he)⟩

theorem Extends.top_le {l' : Log α} (h : l.Extends l') : l.top ≤ l'.top :=
  Log.top_le fun _ he => le_top (h.mem he)

theorem Extends.trans {l' l'' : Log α} (h : l.Extends l') (h' : l'.Extends l'') :
    l.Extends l'' := by
  obtain ⟨rest, hrest, habove⟩ := h
  obtain ⟨rest', hrest', habove'⟩ := h'
  refine ⟨rest ++ rest', by rw [hrest', hrest, List.append_assoc], fun e he => ?_⟩
  rcases List.mem_append.mp he with he | he
  · exact habove e he
  · exact Nat.lt_of_le_of_lt (Extends.top_le ⟨rest, hrest, habove⟩) (habove' e he)

theorem extends_appendAll (values : List α) : l.Extends (l.appendAll values) := by
  induction values generalizing l with
  | nil => exact Extends.refl l
  | cons value values ih => exact (extends_append value).trans ih

theorem value_mem_of_appendAll {values : List α} {e : Entry α}
    (h : e ∈ (l.appendAll values).entries) : e ∈ l.entries ∨ e.value ∈ values := by
  induction values generalizing l with
  | nil => exact Or.inl h
  | cons value values ih =>
    rcases ih h with h | h
    · rcases mem_append.mp h with h | rfl
      · exact Or.inl h
      · exact Or.inr List.mem_cons_self
    · exact Or.inr (List.mem_cons_of_mem _ h)

theorem Extends.mem_of_le {l' : Log α} (h : l.Extends l') {e : Entry α} (he : e ∈ l'.entries)
    (hle : e.id ≤ l.top) : e ∈ l.entries := by
  obtain ⟨rest, hrest, habove⟩ := h
  rw [hrest] at he
  rcases List.mem_append.mp he with he | he
  · exact he
  · exact absurd (habove e he) (Nat.not_lt.mpr hle)

theorem Extends.window_eq {l' : Log α} (h : l.Extends l') (hle : hi ≤ l.top) :
    l'.window p lo hi = l.window p lo hi := by
  obtain ⟨rest, hrest, habove⟩ := h
  have hnone : rest.filter (fun e => p e.value ∧ lo < e.id ∧ e.id ≤ hi) = [] := by
    rw [List.filter_eq_nil_iff]
    intro e he
    have hlt := habove e he
    simp only [decide_eq_true_eq]
    omega
  rw [window, window, hrest, List.filter_append, hnone, List.append_nil]

theorem window_self : l.window p lo lo = [] := by
  rw [window, List.filter_eq_nil_iff]
  intro e _
  simp only [decide_eq_true_eq]
  omega

theorem window_join (h : lo ≤ mid) (h' : mid ≤ hi) :
    l.window p lo mid ++ l.window p mid hi = l.window p lo hi := by
  obtain ⟨entries, ascending⟩ := l
  simp only [window]
  induction entries with
  | nil => rfl
  | cons a entries ih =>
    rw [List.pairwise_cons] at ascending
    have hrest := ih ascending.2
    by_cases ha : a.id ≤ mid
    · by_cases hsel : p a.value = true ∧ lo < a.id
      · rw [List.filter_cons_of_pos, List.filter_cons_of_neg, List.filter_cons_of_pos,
          List.cons_append, hrest]
        · simp only [decide_eq_true_eq]
          exact ⟨hsel.1, hsel.2, Nat.le_trans ha h'⟩
        · simp only [decide_eq_true_eq]
          omega
        · simp only [decide_eq_true_eq]
          exact ⟨hsel.1, hsel.2, ha⟩
      · rw [List.filter_cons_of_neg, List.filter_cons_of_neg, List.filter_cons_of_neg, hrest]
        · simp only [decide_eq_true_eq]
          exact fun hb => hsel ⟨hb.1, hb.2.1⟩
        · simp only [decide_eq_true_eq]
          omega
        · simp only [decide_eq_true_eq]
          exact fun hb => hsel ⟨hb.1, hb.2.1⟩
    · -- From here on no entry is in the first window, and each is above the middle.
      have hnone : (a :: entries).filter (fun e => p e.value ∧ lo < e.id ∧ e.id ≤ mid) = [] := by
        rw [List.filter_eq_nil_iff]
        intro e he
        have hlt : mid < e.id := by
          rcases List.mem_cons.mp he with rfl | he
          · omega
          · have := ascending.1 e he
            omega
        simp only [decide_eq_true_eq]
        omega
      rw [hnone, List.nil_append]
      refine List.filter_congr fun e he => ?_
      have hlt : mid < e.id := by
        rcases List.mem_cons.mp he with rfl | he
        · omega
        · have := ascending.1 e he
          omega
      have hlo : lo < e.id := by omega
      simp [hlt, hlo]

/-- The number a page ends at: that of its last entry, or the bound it started from. -/
def pageEnd (lo : ℕ) (page : List (Entry α)) : ℕ := (page.getLast?.map Entry.id).getD lo

theorem pageEnd_cons (e : Entry α) (page : List (Entry α)) :
    pageEnd lo (e :: page) = pageEnd e.id page := by
  cases page with
  | nil => rfl
  | cons b page => simp [pageEnd, List.getLast?_cons]

theorem le_pageEnd {page : List (Entry α)} (h : ∀ e ∈ page, lo < e.id) : lo ≤ pageEnd lo page := by
  unfold pageEnd
  cases hlast : page.getLast? with
  | none => exact Nat.le_refl lo
  | some e => exact Nat.le_of_lt (h e (List.mem_of_getLast? hlast))

theorem pageEnd_le {page : List (Entry α)} (hlo : lo ≤ hi) (h : ∀ e ∈ page, e.id ≤ hi) :
    pageEnd lo page ≤ hi := by
  unfold pageEnd
  cases hlast : page.getLast? with
  | none => exact hlo
  | some e => exact h e (List.mem_of_getLast? hlast)

theorem take_eq_filter {entries : List (Entry α)}
    (hsorted : entries.Pairwise fun a b => a.id < b.id) (hlo : ∀ e ∈ entries, lo < e.id) (n : ℕ) :
    entries.take n = entries.filter fun e => e.id ≤ pageEnd lo (entries.take n) := by
  induction entries generalizing lo n with
  | nil => simp
  | cons a entries ih =>
    rw [List.pairwise_cons] at hsorted
    cases n with
    | zero =>
      rw [List.take_zero, eq_comm, List.filter_eq_nil_iff]
      intro e he
      have hnot : ¬ e.id ≤ lo := Nat.not_le.mpr (hlo e he)
      simp [pageEnd, hnot]
    | succ n =>
      have hrest := ih hsorted.2 hsorted.1 n
      rw [List.take_succ_cons, pageEnd_cons, List.filter_cons_of_pos, ← hrest]
      have hle : a.id ≤ pageEnd a.id (entries.take n) :=
        le_pageEnd fun e he => hsorted.1 e (List.mem_of_mem_take he)
      simpa using hle

theorem page_eq_window (n : ℕ) :
    (l.after p lo).take n = l.window p lo (pageEnd lo ((l.after p lo).take n)) := by
  have hsorted : (l.after p lo).Pairwise fun a b => a.id < b.id :=
    l.ascending.sublist List.filter_sublist
  have hlo : ∀ e ∈ l.after p lo, lo < e.id := fun e he => (mem_after.mp he).2.2
  refine (take_eq_filter hsorted hlo n).trans ?_
  generalize pageEnd lo ((l.after p lo).take n) = hi
  rw [after, List.filter_filter, window]
  refine List.filter_congr fun e _ => ?_
  by_cases hp : p e.value = true <;> by_cases hl : lo < e.id <;> by_cases hh : e.id ≤ hi <;>
    simp [hp, hl, hh]

theorem window_of_none (h : ∀ e ∈ l.entries, p e.value = true → e.id ≤ mid) (hmid : mid ≤ hi) :
    l.window p lo hi = l.window p lo mid := by
  refine List.filter_congr fun e he => ?_
  by_cases hp : p e.value = true
  · have hle := h e he hp
    have hle' : e.id ≤ hi := Nat.le_trans hle hmid
    simp [hp, hle, hle']
  · simp [hp]

end Log
end Matinier
