import Mathlib.Data.List.Basic

/-!
# Blocks and spans of a stream

A stream that arrives in pieces of any length is handed on in blocks of one length. What is
left over is kept, and the next piece is put behind it. At the end of the stream the rest is a
last block of its own, if there is any.

What the expression `[^stop]+close?` matches in a list, one match after the other: the runs of
elements that are no stops, each with the stop behind it where that one closes runs. A stop that
has no run before it is in no match. The elements that count are all matched exactly where each of
them that is a stop comes behind an element that is none.
-/

namespace Matinier

section Blocks

variable {α : Type*} {n fuel : ℕ} {l : List α}

/-- Cut whole blocks off the front of a list, at most as many as the fuel says. -/
def cutBlocks (n : ℕ) : ℕ → List α → List (List α) × List α
  | 0, l => ([], l)
  | fuel + 1, l =>
    if n ≤ l.length then
      (l.take n :: (cutBlocks n fuel (l.drop n)).1, (cutBlocks n fuel (l.drop n)).2)
    else ([], l)

theorem cutBlocks_flatten (n fuel : ℕ) (l : List α) :
    (cutBlocks n fuel l).1.flatten ++ (cutBlocks n fuel l).2 = l := by
  induction fuel generalizing l with
  | zero => simp [cutBlocks]
  | succ fuel ih =>
    unfold cutBlocks
    split_ifs with hlen
    · rw [List.flatten_cons, List.append_assoc, ih, List.take_append_drop]
    · simp

theorem length_of_mem_cutBlocks : ∀ block ∈ (cutBlocks n fuel l).1, block.length = n := by
  induction fuel generalizing l with
  | zero => simp [cutBlocks]
  | succ fuel ih =>
    unfold cutBlocks
    split_ifs with hlen
    · rw [List.forall_mem_cons]
      exact ⟨List.length_take_of_le hlen, ih⟩
    · simp

/-- With as much fuel as there are elements, less than a block is left. -/
theorem cutBlocks_rest (hn : 0 < n) (hfuel : l.length ≤ fuel) :
    (cutBlocks n fuel l).2.length < n := by
  induction fuel generalizing l with
  | zero =>
    simp only [cutBlocks]
    omega
  | succ fuel ih =>
    unfold cutBlocks
    split_ifs with hlen
    · apply ih
      rw [List.length_drop]
      omega
    · exact Nat.not_le.mp hlen

theorem cutBlocks_of_lt (h : l.length < n) : cutBlocks n fuel l = ([], l) := by
  cases fuel with
  | zero => rfl
  | succ fuel => rw [cutBlocks, if_neg (Nat.not_le.mpr h)]

/-- The blocks of a stream: all of one length, and maybe a shorter one at the end that has
something in it. -/
def Blocks (n : ℕ) (blocks : List (List α)) : Prop :=
  ∃ whole last, blocks = whole ++ last ∧ (∀ block ∈ whole, block.length = n) ∧
    last.length ≤ 1 ∧ ∀ block ∈ last, block ≠ [] ∧ block.length ≤ n

theorem Blocks.of_whole {blocks : List (List α)} (h : ∀ block ∈ blocks, block.length = n) :
    Blocks n blocks :=
  ⟨blocks, [], (List.append_nil _).symm, h, Nat.zero_le _, by simp⟩

theorem Blocks.of_last {blocks : List (List α)} {last : List α}
    (h : ∀ block ∈ blocks, block.length = n) (hlast : last ≠ []) (hlen : last.length ≤ n) :
    Blocks n (blocks ++ [last]) :=
  ⟨blocks, [last], rfl, h, Nat.le_refl _, by simpa using ⟨hlast, hlen⟩⟩

end Blocks

variable {α : Type*} {stop close counts : α → Bool} {run l : List α} {a : α}

/-- The matches from inside a run. -/
def spansFrom (stop close : α → Bool) (run : List α) : List α → List (List α)
  | [] => if run.isEmpty then [] else [run]
  | a :: l =>
    if stop a then
      if run.isEmpty then spansFrom stop close [] l
      else (if close a then run ++ [a] else run) :: spansFrom stop close [] l
    else spansFrom stop close (run ++ [a]) l

def spans (stop close : α → Bool) (l : List α) : List (List α) := spansFrom stop close [] l

/-- The matches, or the whole list where there is none. -/
def matchedSpans (stop close : α → Bool) (l : List α) : List (List α) :=
  if (spans stop close l).isEmpty then [l] else spans stop close l

/-- Each stop that counts comes behind an element that is no stop. -/
def attached (stop counts : α → Bool) (opened : Bool) : List α → Bool
  | [] => true
  | a :: l =>
    if stop a then (opened || !counts a) && attached stop counts false l
    else attached stop counts true l

/-- The matches hold every element that counts. -/
def coversAll (stop counts : α → Bool) (l : List α) : Bool :=
  l.all stop || attached stop counts false l

theorem spansFrom_sublist (stop close : α → Bool) (run l : List α) :
    List.Sublist (spansFrom stop close run l).flatten (run ++ l) := by
  induction l generalizing run with
  | nil =>
    unfold spansFrom
    split_ifs
    · exact List.nil_sublist _
    · simp
  | cons a l ih =>
    unfold spansFrom
    split_ifs with hstop hrun hclose
    · exact ((ih []).trans (List.sublist_cons_self a l)).trans (List.sublist_append_right run _)
    · rw [List.flatten_cons, List.append_assoc]
      exact List.Sublist.append_left ((ih []).cons_cons a) run
    · rw [List.flatten_cons]
      exact List.Sublist.append_left ((ih []).cons a) run
    · have hrest := ih (run ++ [a])
      rwa [List.append_assoc] at hrest

theorem filter_spansFrom_iff (hclose : ∀ a, stop a = true → counts a = true → close a = true)
    (run l : List α) :
    (spansFrom stop close run l).flatten.filter counts = (run ++ l).filter counts ↔
      attached stop counts (!run.isEmpty) l = true := by
  induction l generalizing run with
  | nil =>
    unfold spansFrom attached
    cases run <;> simp
  | cons a l ih =>
    have hrest := ih []
    rw [List.nil_append] at hrest
    unfold spansFrom attached
    by_cases hstop : stop a = true
    · rw [if_pos hstop, if_pos hstop]
      cases run with
      | nil =>
        simp only [List.isEmpty_nil, if_true, List.nil_append, List.filter_cons, Bool.not_true,
          Bool.false_or]
        by_cases hcounts : counts a = true
        · -- the stop is lost, and nothing that follows makes up for it
          rw [if_pos hcounts, hcounts]
          constructor
          · intro h
            have hle := ((spansFrom_sublist stop close [] l).filter counts).length_le
            rw [h, List.nil_append, List.length_cons] at hle
            omega
          · intro h
            cases h
        · rw [if_neg hcounts, Bool.eq_false_iff.mpr hcounts]
          simpa using hrest
      | cons b run =>
        simp only [List.isEmpty_cons, Bool.false_eq_true, if_false, Bool.not_false, Bool.true_or,
          Bool.true_and, List.flatten_cons, List.filter_append]
        split_ifs with hcloses
        · rw [List.filter_append, List.append_assoc, List.append_cancel_left_eq, List.filter_cons,
            List.filter_cons]
          split_ifs <;> simpa using hrest
        · have hcounts : counts a = false := by
            cases hcount : counts a
            · rfl
            · exact absurd (hclose a hstop hcount) hcloses
          rw [List.append_cancel_left_eq, List.filter_cons, if_neg (by simp [hcounts])]
          simpa using hrest
    · rw [if_neg hstop, if_neg hstop]
      have hopen := ih (run ++ [a])
      have hopened : (!(run ++ [a]).isEmpty) = true := by simp
      rw [List.append_assoc, List.singleton_append, hopened] at hopen
      exact hopen

theorem spansFrom_eq_nil_iff :
    spansFrom stop close run l = [] ↔ run = [] ∧ l.all stop = true := by
  induction l generalizing run with
  | nil =>
    unfold spansFrom
    cases run <;> simp
  | cons a l ih =>
    unfold spansFrom
    by_cases hstop : stop a = true
    · cases run <;> simp [hstop, ih]
    · simp [hstop, ih]

theorem matchedSpans_sublist (stop close : α → Bool) (l : List α) :
    List.Sublist (matchedSpans stop close l).flatten l := by
  unfold matchedSpans
  split_ifs
  · simp
  · exact spansFrom_sublist stop close [] l

/-- When the matches, or the whole list where there is none, leave nothing out that counts. -/
theorem filter_matchedSpans_iff (hclose : ∀ a, stop a = true → counts a = true → close a = true) :
    (matchedSpans stop close l).flatten.filter counts = l.filter counts ↔
      coversAll stop counts l = true := by
  unfold matchedSpans coversAll
  rw [Bool.or_eq_true]
  have hnil : spans stop close l = [] ↔ l.all stop = true := by
    rw [spans, spansFrom_eq_nil_iff]
    simp
  by_cases hempty : spans stop close l = []
  · simp [hempty, hnil.mp hempty]
  · rw [if_neg (by simpa using hempty), spans]
    have hiff := filter_spansFrom_iff hclose [] l
    rw [List.nil_append] at hiff
    rw [hiff]
    have hall : ¬ l.all stop = true := fun h => hempty (hnil.mpr h)
    simp [hall]

/-- Where each element of a list stands for no more than it should, all of them together stand for
all they should exactly when each one does. -/
theorem flatMap_eq_iff {β : Type*} {f g : α → List β} {l : List α}
    (h : ∀ a ∈ l, List.Sublist (f a) (g a)) :
    l.flatMap f = l.flatMap g ↔ ∀ a ∈ l, f a = g a := by
  induction l with
  | nil => simp
  | cons a l ih =>
    have hfirst : List.Sublist (f a) (g a) := h a List.mem_cons_self
    have hrest : ∀ b ∈ l, List.Sublist (f b) (g b) := fun b hb => h b (List.mem_cons_of_mem a hb)
    have hall : List.Sublist (l.flatMap f) (l.flatMap g) := by
      clear ih h
      induction l with
      | nil => exact List.Sublist.refl _
      | cons b l ih =>
        rw [List.flatMap_cons, List.flatMap_cons]
        exact (hrest b List.mem_cons_self).append
          (ih fun c hc => hrest c (List.mem_cons_of_mem b hc))
    rw [List.flatMap_cons, List.flatMap_cons, List.forall_mem_cons, ← ih hrest]
    constructor
    · intro heq
      have hlengths := congrArg List.length heq
      rw [List.length_append, List.length_append] at hlengths
      have hfirstLength := hfirst.length_le
      have hallLength := hall.length_le
      exact ⟨hfirst.eq_of_length (by omega), hall.eq_of_length (by omega)⟩
    · rintro ⟨ha, hl⟩
      rw [ha, hl]

end Matinier
