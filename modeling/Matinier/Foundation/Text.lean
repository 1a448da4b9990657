import Mathlib.Algebra.GroupWithZero.Nat
import Mathlib.Data.List.DropRight
import Mathlib.Data.List.Infix

/-!
# Lines of texts

A text from each of its lines on, and what becomes of these where texts are put together, cut at
their ends, or made of lines.
-/

namespace Matinier

/-- What is behind each line feed of a text. -/
def behindFeeds : List Char → List (List Char)
  | [] => []
  | c :: rest => if c = '\n' then rest :: behindFeeds rest else behindFeeds rest

/-- A text from each of its lines on. -/
def lineStarts (text : List Char) : List (List Char) := text :: behindFeeds text

/-- Lines, with a line feed between two. -/
def joinLines (lines : List (List Char)) : List Char := ['\n'].intercalate lines

/-- A text goes on with a line, that is not longer than it seems. -/
def BeginsLine (line s : List Char) : Prop :=
  s = line ∨ ∃ rest, s = line ++ '\n' :: rest

variable {a b s line : List Char} {lines : List (List Char)}

theorem behindFeeds_append_feed (a b : List Char) :
    behindFeeds (a ++ '\n' :: b) = (behindFeeds a).map (· ++ '\n' :: b) ++ lineStarts b := by
  induction a with
  | nil => simp [behindFeeds, lineStarts]
  | cons c a ih =>
    simp only [List.cons_append, behindFeeds]
    split_ifs
    · rw [ih, List.map_cons, List.cons_append]
    · exact ih

theorem lineStarts_append_feed (a b : List Char) :
    lineStarts (a ++ '\n' :: b) = (lineStarts a).map (· ++ '\n' :: b) ++ lineStarts b := by
  rw [lineStarts, behindFeeds_append_feed]
  simp only [lineStarts, List.map_cons, List.cons_append]

theorem behindFeeds_append (h : '\n' ∉ a) (b : List Char) :
    behindFeeds (a ++ b) = behindFeeds b := by
  induction a with
  | nil => rfl
  | cons c a ih =>
    rw [List.mem_cons, not_or] at h
    rw [List.cons_append, behindFeeds, if_neg (Ne.symm h.1), ih h.2]

theorem behindFeeds_eq_nil (h : '\n' ∉ a) : behindFeeds a = [] := by
  have hnil := behindFeeds_append h []
  rwa [List.append_nil] at hnil

theorem behindFeeds_suffix (h : a <:+ b) (hs : s ∈ behindFeeds a) : s ∈ behindFeeds b := by
  obtain ⟨front, rfl⟩ := h
  induction front with
  | nil => exact hs
  | cons c front ih =>
    rw [List.cons_append, behindFeeds]
    split_ifs
    · exact List.mem_cons_of_mem _ ih
    · exact ih

/-- What is behind a line feed goes on with what is put behind the text. -/
theorem mem_behindFeeds_append (hs : s ∈ behindFeeds a) (b : List Char) :
    s ++ b ∈ behindFeeds (a ++ b) := by
  induction a with
  | nil => cases hs
  | cons c a ih =>
    rw [List.cons_append, behindFeeds]
    rw [behindFeeds] at hs
    split_ifs at hs ⊢
    · rcases List.mem_cons.mp hs with rfl | hs
      · exact List.mem_cons_self
      · exact List.mem_cons_of_mem _ (ih hs)
    · exact ih hs

theorem lineStarts_prefix (h : a <+: b) (hs : s ∈ lineStarts a) :
    ∃ s' ∈ lineStarts b, s <+: s' := by
  obtain ⟨rest, rfl⟩ := h
  rcases List.mem_cons.mp hs with rfl | hs
  · exact ⟨_, List.mem_cons_self, List.prefix_append _ _⟩
  · exact ⟨_, List.mem_cons_of_mem _ (mem_behindFeeds_append hs rest), List.prefix_append _ _⟩

theorem joinLines_cons (line next : List Char) (lines : List (List Char)) :
    joinLines (line :: next :: lines) = line ++ '\n' :: joinLines (next :: lines) := by
  simp [joinLines, List.intercalate]

/-- A text that is made of lines begins with one of them from each line on. -/
theorem lineStarts_joinLines (hlines : ∀ line ∈ lines, '\n' ∉ line)
    (hs : s ∈ lineStarts (joinLines lines)) : s = [] ∨ ∃ line ∈ lines, BeginsLine line s := by
  induction lines with
  | nil =>
    left
    simpa [joinLines, List.intercalate, lineStarts, behindFeeds] using hs
  | cons line lines ih =>
    have hline := hlines line List.mem_cons_self
    cases lines with
    | nil =>
      have hjoin : joinLines [line] = line := by simp [joinLines, List.intercalate]
      rw [hjoin, lineStarts, behindFeeds_eq_nil hline, List.mem_singleton] at hs
      exact Or.inr ⟨line, List.mem_cons_self, Or.inl hs⟩
    | cons next lines =>
      rw [joinLines_cons, lineStarts_append_feed, lineStarts, behindFeeds_eq_nil hline] at hs
      rcases List.mem_append.mp hs with hs | hs
      · rw [List.map_singleton, List.mem_singleton] at hs
        exact Or.inr ⟨line, List.mem_cons_self, Or.inr ⟨_, hs⟩⟩
      · rcases ih (fun l hl => hlines l (List.mem_cons_of_mem _ hl)) hs with hnil | ⟨l, hl, hbegins⟩
        · exact Or.inl hnil
        · exact Or.inr ⟨l, List.mem_cons_of_mem _ hl, hbegins⟩

/-- Where blanks are dropped from the start of a text that is made of lines, the rest of a line is
left in front. -/
theorem dropWhile_joinLines {blank : Char → Bool} (hfeed : blank '\n' = true)
    (lines : List (List Char)) :
    (joinLines lines).dropWhile blank = [] ∨
      ∃ line ∈ lines, BeginsLine (line.dropWhile blank) ((joinLines lines).dropWhile blank) := by
  induction lines with
  | nil => exact Or.inl rfl
  | cons line lines ih =>
    cases lines with
    | nil =>
      have hjoin : joinLines [line] = line := by simp [joinLines, List.intercalate]
      rw [hjoin]
      exact Or.inr ⟨line, List.mem_cons_self, Or.inl rfl⟩
    | cons next lines =>
      rw [joinLines_cons, List.dropWhile_append]
      split_ifs with hblank
      · rw [List.dropWhile_cons_of_pos hfeed]
        rcases ih with hnil | ⟨l, hl, hbegins⟩
        · exact Or.inl hnil
        · exact Or.inr ⟨l, List.mem_cons_of_mem _ hl, hbegins⟩
      · exact Or.inr ⟨line, List.mem_cons_self, Or.inr ⟨_, rfl⟩⟩

end Matinier
