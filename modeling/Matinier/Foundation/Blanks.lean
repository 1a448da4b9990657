import Mathlib.Algebra.GroupWithZero.Nat
import Mathlib.Data.List.DropRight
import Mathlib.Data.List.Infix

/-!
# Blanks in texts

What a program looks at when it asks whether a text says anything, and the form of a text
in which the amount of blanks does not count.
-/

namespace Matinier

/-- White space as Unicode has it, and the four separators of ASCII. -/
def isSpace (c : Char) : Bool :=
  let n := c.toNat
  (9 ≤ n && n ≤ 13) || (28 ≤ n && n ≤ 32) || n = 0x85 || n = 0xa0 || n = 0x1680 ||
    (0x2000 ≤ n && n ≤ 0x200a) || n = 0x2028 || n = 0x2029 || n = 0x202f || n = 0x205f ||
    n = 0x3000

def rstrip (text : List Char) : List Char := text.rdropWhile isSpace

def strip (text : List Char) : List Char := rstrip (text.dropWhile isSpace)

/-- A text without the blanks at its ends. -/
def stripped (s : String) : String := String.ofList (strip s.toList)

/-- There is something left of the text when it is trimmed. -/
def notBlank (s : String) : Bool := stripped s ≠ ""

/-- The words of a text with one blank between two. -/
def joinedWords (s : String) : String :=
  String.ofList ([' '].intercalate ((s.toList.splitOnP isSpace).filter fun word => word ≠ []))

/-- A text with a character that is no blank is not empty when it is trimmed. -/
theorem stripped_ne_empty {s : String} (h : s.toList.any (fun c => !isSpace c) = true) :
    stripped s ≠ "" := by
  obtain ⟨c, hc, hvisible⟩ := List.any_eq_true.mp h
  rw [Bool.not_eq_true'] at hvisible
  intro hempty
  have hnil : strip s.toList = [] := by
    rw [← String.toList_ofList (l := strip s.toList)]
    exact congrArg String.toList hempty
  -- What is left of the start has no blank in front, so that nothing but blanks ends it.
  have hblanks := List.rdropWhile_eq_nil_iff.mp hnil
  have hdropped : s.toList.dropWhile isSpace = [] := by
    by_contra hne
    have hfirst := List.head_dropWhile_not isSpace hne
    rw [hblanks _ (List.head_mem hne)] at hfirst
    cases hfirst
  rw [List.dropWhile_eq_nil_iff.mp hdropped c hc] at hvisible
  cases hvisible

theorem notBlank_of_any {s : String} (h : s.toList.any (fun c => !isSpace c) = true) :
    notBlank s = true :=
  decide_eq_true (stripped_ne_empty h)

/-- The pieces of a text weigh what the text does, with one more for the end. -/
theorem weight_splitOnP {α : Type} (p : α → Bool) (l : List α) :
    ((l.splitOnP p).map fun piece => piece.length + 1).sum = l.length + 1 := by
  induction l with
  | nil => rfl
  | cons a l ih =>
    rw [List.splitOnP_cons_eq_if_modifyHead]
    split_ifs
    · simp [ih, Nat.add_comm]
    · cases hpieces : l.splitOnP p with
      | nil => exact absurd hpieces (List.splitOnP_ne_nil p l)
      | cons piece pieces =>
        rw [hpieces] at ih
        simp only [List.modifyHead_cons, List.map_cons, List.length_cons, List.sum_cons] at ih ⊢
        omega

theorem length_intercalate_le {α : Type} (a : α) (pieces : List (List α)) :
    ([a].intercalate pieces).length ≤ (pieces.map fun piece => piece.length + 1).sum - 1 := by
  induction pieces with
  | nil => simp
  | cons piece pieces ih =>
    cases pieces with
    | nil => simp
    | cons next rest =>
      simp only [List.intercalate_cons_cons, List.length_append, List.length_singleton,
        List.map_cons, List.sum_cons] at ih ⊢
      omega

theorem length_joinedWords_le (s : String) : (joinedWords s).length ≤ s.length := by
  have hkept : ∀ pieces : List (List Char),
      ((pieces.filter fun word => word ≠ []).map fun piece => piece.length + 1).sum ≤
        (pieces.map fun piece => piece.length + 1).sum := by
    intro pieces
    induction pieces with
    | nil => exact Nat.le_refl _
    | cons piece pieces ih =>
      rw [List.filter_cons]
      split_ifs
      · simpa using ih
      · simp only [List.map_cons, List.sum_cons]
        omega
  have hwords := length_intercalate_le ' '
    ((s.toList.splitOnP isSpace).filter fun word => word ≠ [])
  have hall := hkept (s.toList.splitOnP isSpace)
  rw [weight_splitOnP, String.length_toList] at hall
  rw [joinedWords, String.length_ofList]
  omega

theorem mem_splitOnP {α : Type} {p : α → Bool} {l : List α} {a : α} (ha : a ∈ l)
    (hp : p a = false) : ∃ piece ∈ l.splitOnP p, a ∈ piece := by
  induction l with
  | nil => cases ha
  | cons b l ih =>
    rw [List.splitOnP_cons_eq_if_modifyHead]
    split_ifs with hb
    · rcases List.mem_cons.mp ha with rfl | ha
      · rw [hp] at hb
        cases hb
      · obtain ⟨piece, hpiece, hmem⟩ := ih ha
        exact ⟨piece, List.mem_cons_of_mem _ hpiece, hmem⟩
    · cases hpieces : l.splitOnP p with
      | nil => exact absurd hpieces (List.splitOnP_ne_nil p l)
      | cons first pieces =>
        rw [hpieces] at ih
        rw [List.modifyHead_cons]
        rcases List.mem_cons.mp ha with rfl | ha
        · exact ⟨_, List.mem_cons_self, List.mem_cons_self⟩
        · obtain ⟨piece, hpiece, hmem⟩ := ih ha
          rcases List.mem_cons.mp hpiece with rfl | hpiece
          · exact ⟨_, List.mem_cons_self, List.mem_cons_of_mem _ hmem⟩
          · exact ⟨piece, List.mem_cons_of_mem _ hpiece, hmem⟩

theorem mem_of_mem_splitOnP {α : Type} {p : α → Bool} {l piece : List α} {a : α}
    (hpiece : piece ∈ l.splitOnP p) (ha : a ∈ piece) : a ∈ l ∧ p a = false := by
  induction l generalizing piece with
  | nil =>
    rw [List.splitOnP_nil, List.mem_singleton] at hpiece
    rw [hpiece] at ha
    cases ha
  | cons b l ih =>
    rw [List.splitOnP_cons_eq_if_modifyHead] at hpiece
    split_ifs at hpiece with hb
    · rcases List.mem_cons.mp hpiece with rfl | hpiece
      · cases ha
      · obtain ⟨hmem, hp⟩ := ih hpiece ha
        exact ⟨List.mem_cons_of_mem _ hmem, hp⟩
    · cases hpieces : l.splitOnP p with
      | nil => exact absurd hpieces (List.splitOnP_ne_nil p l)
      | cons first pieces =>
        rw [hpieces] at ih hpiece
        rw [List.modifyHead_cons] at hpiece
        rcases List.mem_cons.mp hpiece with rfl | hpiece
        · rcases List.mem_cons.mp ha with rfl | ha
          · exact ⟨List.mem_cons_self, by simpa using hb⟩
          · obtain ⟨hmem, hp⟩ := ih List.mem_cons_self ha
            exact ⟨List.mem_cons_of_mem _ hmem, hp⟩
        · obtain ⟨hmem, hp⟩ := ih (List.mem_cons_of_mem _ hpiece) ha
          exact ⟨List.mem_cons_of_mem _ hmem, hp⟩

theorem mem_intercalate {α : Type} {sep : List α} {pieces : List (List α)} {piece : List α} {a : α}
    (hpiece : piece ∈ pieces) (ha : a ∈ piece) : a ∈ sep.intercalate pieces := by
  induction pieces with
  | nil => cases hpiece
  | cons first pieces ih =>
    cases pieces with
    | nil =>
      rw [List.mem_singleton] at hpiece
      rw [List.intercalate_singleton, ← hpiece]
      exact ha
    | cons next rest =>
      rw [List.intercalate_cons_cons]
      rcases List.mem_cons.mp hpiece with rfl | hpiece
      · exact List.mem_append_left _ (List.mem_append_left _ ha)
      · exact List.mem_append_right _ (ih hpiece)

theorem mem_joinedWords {s : String} {c : Char} (hc : c ∈ s.toList)
    (hvisible : isSpace c = false) : c ∈ (joinedWords s).toList := by
  obtain ⟨word, hword, hmem⟩ := mem_splitOnP hc hvisible
  have hne : word ≠ [] := List.ne_nil_of_mem hmem
  rw [joinedWords, String.toList_ofList]
  exact mem_intercalate (List.mem_filter.mpr ⟨hword, by simpa using hne⟩) hmem

theorem exists_visible {s : String} (h : joinedWords s ≠ "") :
    ∃ c ∈ s.toList, isSpace c = false := by
  have hwords : (s.toList.splitOnP isSpace).filter (fun word => word ≠ []) ≠ [] := by
    intro hnone
    apply h
    rw [joinedWords, hnone]
    rfl
  obtain ⟨word, hword⟩ := List.exists_mem_of_ne_nil _ hwords
  obtain ⟨hpiece, hne⟩ := List.mem_filter.mp hword
  obtain ⟨c, hc⟩ := List.exists_mem_of_ne_nil word (by simpa using hne)
  exact ⟨c, mem_of_mem_splitOnP hpiece hc⟩

/-- The words of joined words say something as well, also when they are trimmed. -/
theorem joinedWords_visible {s : String} (h : joinedWords s ≠ "") :
    joinedWords (joinedWords s) ≠ "" ∧ stripped (joinedWords s) ≠ "" := by
  obtain ⟨c, hc, hvisible⟩ := exists_visible h
  have hjoined := mem_joinedWords hc hvisible
  refine ⟨fun hempty => ?_, stripped_ne_empty ?_⟩
  · have htwice := mem_joinedWords hjoined hvisible
    rw [hempty] at htwice
    cases htwice
  · rw [List.any_eq_true]
    exact ⟨c, hjoined, by rw [hvisible]; rfl⟩

end Matinier
