import Mathlib.Data.List.Forall2
import Matinier.TaskSystem.ActionKeys

/-!
# Key lines of a body

The lines that stand in the body of a description begin with no marker. So where a key is read from
one of them the marker is misspelled: it has a letter i of another alphabet.
-/

namespace Matinier
namespace TaskSystem

variable {s start line rest : List Char} {draft : LinearDraft} {actionKey : String} {c x : Char}

/-- One of the two letters i without and with a dot of their own. -/
def isOtherI (x : Char) : Bool := x.toNat = 0x130 || x.toNat = 0x131

/-- A text begins with what has the length of the marker, and another i in it. -/
def misspelled (text : List Char) : Bool := (text.take keyMarker.length).any isOtherI

theorem foldChar_ascii (h : x.toNat < 128) : foldChar x = [x.toLower] := by
  have hlookup : foldings.lookup x.toNat = none := by
    rw [List.lookup_eq_none_iff]
    intro folding hmem
    have hlarge : 128 ≤ folding.1 := by
      revert folding
      decide
    rw [bne_iff_ne]
    omega
  rw [foldChar, hlookup]

/-- What is taken for a character of a pattern is folded to it, if it is no other i. -/
theorem foldChar_of_ignoringCase (hc : c.toNat < 128) (h : ignoringCase c x = true)
    (hx : isOtherI x = false) : foldChar x = [c] := by
  simp only [isOtherI, Bool.or_eq_false_iff, decide_eq_false_iff_not] at hx
  simp only [ignoringCase, Bool.or_eq_true, Bool.and_eq_true, decide_eq_true_eq] at h
  rcases h with ((hlower | ⟨-, hother⟩) | ⟨rfl, hkelvin⟩) | ⟨rfl, hlong⟩
  · have hascii : x.toNat < 128 := by
      rcases toLower_cases x with hsame | ⟨-, hle, -⟩
      · rw [← hsame, hlower]
        exact hc
      · omega
    rw [foldChar_ascii hascii, hlower]
  · exact absurd hother (not_or.mpr hx)
  · rw [foldChar, hkelvin]
    rfl
  · rw [foldChar, hlong]
    rfl

theorem casefold_of_ignoringCase {cs : List Char} (hcs : ∀ c ∈ cs, c.toNat < 128)
    (h : List.Forall₂ (fun c x => ignoringCase c x = true) cs start)
    (hstart : ∀ x ∈ start, isOtherI x = false) : casefold start = cs := by
  induction h with
  | nil => rfl
  | @cons c x cs start hx _ ih =>
    have hfirst := foldChar_of_ignoringCase (hcs c List.mem_cons_self) hx
      (hstart x List.mem_cons_self)
    have hrest : casefold start = cs :=
      ih (fun c hc => hcs c (List.mem_cons_of_mem _ hc))
        fun x hx => hstart x (List.mem_cons_of_mem _ hx)
    rw [casefold] at hrest ⊢
    rw [List.flatMap_cons, hfirst, hrest]
    rfl

theorem rdropWhile_keeps {blank : Char → Bool} (hlast : ∀ c ∈ start.getLast?, blank c = false)
    (rest : List Char) : start <+: (start ++ rest).rdropWhile blank := by
  induction rest using List.reverseRecOn with
  | nil =>
    have hself : (start ++ []).rdropWhile blank = start := by
      rw [List.append_nil, List.rdropWhile_eq_self_iff]
      intro hne
      rw [hlast _ (List.getLast?_eq_some_getLast hne)]
      exact Bool.false_ne_true
    rw [hself]
  | append_singleton rest c ih =>
    rw [← List.append_assoc, List.rdropWhile_concat]
    split_ifs
    · exact ih
    · rw [List.append_assoc]
      exact List.prefix_append _ _

theorem dropWhile_keeps {blank : Char → Bool} (hfirst : ∀ c ∈ start.head?, blank c = false)
    (h : start <+: s) : start <+: s.dropWhile blank := by
  obtain ⟨rest, rfl⟩ := h
  cases start with
  | nil => exact List.nil_prefix
  | cons c start =>
    have hc : ¬ blank c = true := by
      rw [hfirst c rfl]
      exact Bool.false_ne_true
    rw [List.cons_append, List.dropWhile_cons_of_neg hc]
    exact List.prefix_append _ _

/-- What is in front of a text without the blanks at its start is so with the blanks at its end. -/
theorem prefix_dropWhile_of_rstrip (hne : start ≠ [])
    (h : start <+: (rstrip line).dropWhile isSpace) :
    start <+: line.dropWhile isSpace := by
  obtain ⟨blanks, hblanks⟩ : rstrip line <+: line := List.rdropWhile_prefix _ _
  rw [← hblanks, List.dropWhile_append, if_neg]
  · exact h.trans (List.prefix_append _ _)
  · rw [List.isEmpty_iff]
    intro hnil
    rw [hnil, List.prefix_nil] at h
    exact hne h

theorem splitlines_feed (hline : line ∈ splitlines s) : '\n' ∉ line := by
  induction s using splitlines.induct generalizing line with
  | case1 => cases hline
  | case2 rest ih =>
    rw [splitlines] at hline
    rcases List.mem_cons.mp hline with rfl | hmem
    · exact List.not_mem_nil
    · exact ih hmem
  | case3 c rest hcr hbreak ih =>
    rw [splitlines.eq_3 c rest hcr, if_pos hbreak] at hline
    rcases List.mem_cons.mp hline with rfl | hmem
    · exact List.not_mem_nil
    · exact ih hmem
  | case4 c rest hcr hbreak hnil ih =>
    have hc : '\n' ≠ c := by
      rintro rfl
      exact hbreak (by decide)
    rw [splitlines.eq_3 c rest hcr, if_neg hbreak, hnil, List.mem_singleton] at hline
    rw [hline, List.mem_singleton]
    exact hc
  | case5 c rest hcr hbreak first lines hlines ih =>
    have hc : '\n' ≠ c := by
      rintro rfl
      exact hbreak (by decide)
    rw [splitlines.eq_3 c rest hcr, if_neg hbreak, hlines] at hline
    rcases List.mem_cons.mp hline with rfl | hmem
    · rw [List.mem_cons, not_or]
      exact ⟨hc, ih (by rw [hlines]; exact List.mem_cons_self)⟩
    · exact ih (by rw [hlines]; exact List.mem_cons_of_mem _ hmem)

theorem bodyLines_feed {text : List Char} (hline : line ∈ bodyLines text) : '\n' ∉ line := by
  obtain ⟨original, hmem, rfl⟩ := List.mem_map.mp hline
  intro hfeed
  exact splitlines_feed (List.mem_filter.mp hmem).1
    ((List.rdropWhile_prefix isSpace _).subset hfeed)

theorem not_isSpace_of_ignoringCase (hc : isSpace c = false) (h : ignoringCase c x = true) :
    isSpace x = false := by
  simp only [ignoringCase, Bool.or_eq_true, Bool.and_eq_true, decide_eq_true_eq] at h
  rcases h with ((hlower | ⟨-, hother⟩) | ⟨-, hkelvin⟩) | ⟨-, hlong⟩
  · rcases toLower_cases x with hsame | ⟨hle, hge, -⟩
    · rwa [← hsame, hlower]
    · simp only [isSpace, Bool.or_eq_false_iff, Bool.and_eq_false_imp, decide_eq_true_eq,
        decide_eq_false_iff_not]
      omega
  · rcases hother with hx | hx <;> simp [isSpace, hx]
  · simp [isSpace, hkelvin]
  · simp [isSpace, hlong]

theorem not_isSpace_of_forall₂ {cs : List Char} (hcs : ∀ c ∈ cs, isSpace c = false)
    (h : List.Forall₂ (fun c x => ignoringCase c x = true) cs start) :
    ∀ x ∈ start, isSpace x = false := by
  induction h with
  | nil => exact fun x hx => absurd hx List.not_mem_nil
  | cons hread _ ih =>
    intro x hx
    rcases List.mem_cons.mp hx with rfl | hx
    · exact not_isSpace_of_ignoringCase (hcs _ List.mem_cons_self) hread
    · exact ih (fun c hc => hcs c (List.mem_cons_of_mem _ hc)) x hx

/-- What is taken for the marker, without another i in it, begins no line of a body. -/
theorem not_prefix_bodyLines {text : List Char} (hline : line ∈ bodyLines text)
    (hmarker : List.Forall₂ (fun c x => ignoringCase c x = true) keyMarker start)
    (hstart : ∀ x ∈ start, isOtherI x = false) : ¬ start <+: line.dropWhile isSpace := by
  intro hprefix
  obtain ⟨original, hmem, rfl⟩ := List.mem_map.mp hline
  have hne : start ≠ [] := by
    rintro rfl
    exact absurd hmarker.length_eq (by decide)
  have hspace := not_isSpace_of_forall₂ (fun c hc => (of_mem_keyMarker hc).2.2.1) hmarker
  obtain ⟨rest, hrest⟩ := prefix_dropWhile_of_rstrip hne hprefix
  have hstrip : start <+: strip original := by
    rw [strip, ← hrest]
    apply rdropWhile_keeps
    intro c hc
    exact hspace c (List.mem_of_getLast? hc)
  obtain ⟨more, hmore⟩ := hstrip
  have hfold : keyMarker <+: casefold (strip original) := by
    have hself := casefold_of_ignoringCase (fun c hc => (of_mem_keyMarker hc).2.2.2) hmarker hstart
    rw [← hmore, casefold, List.flatMap_append]
    rw [casefold] at hself
    rw [hself]
    exact List.prefix_append _ _
  have hfooter : isFooterLine original = true := by
    rw [isFooterLine, List.any_eq_true]
    exact ⟨keyMarker, by decide, List.isPrefixOf_iff_prefix.mpr hfold⟩
  have hkept := (List.mem_filter.mp hmem).2
  rw [hfooter] at hkept
  exact absurd hkept Bool.false_ne_true

theorem prefix_of_beginsLine (hstart : start <+: s) (hfeed : '\n' ∉ start)
    (h : BeginsLine line s) : start <+: line := by
  rcases h with rfl | ⟨rest, rfl⟩
  · exact hstart
  · rcases le_or_gt start.length line.length with hle | hlt
    · exact List.prefix_of_prefix_length_le hstart (List.prefix_append _ _) hle
    -- The line feed is in front of the end of a start that is longer than the line.
    · have hline : line ++ ['\n'] <+: line ++ '\n' :: rest :=
        (List.prefix_append_right_inj line).mpr ((List.prefix_cons_inj _).mpr List.nil_prefix)
      have hlonger := List.prefix_of_prefix_length_le hline hstart
        (by rw [List.length_append]; exact hlt)
      exact absurd (hlonger.subset (List.mem_append_right line List.mem_cons_self)) hfeed

/-- Where a body has a line, it is one of the draft, maybe without the blanks at its start. -/
theorem lineStarts_boundedBody (hs : s ∈ lineStarts (draft.boundedBody actionKey)) :
    ∃ s', s <+: s' ∧ (s' = [] ∨ ∃ line ∈ bodyLines (draft.description.getD "").toList,
      BeginsLine line s' ∨ BeginsLine (line.dropWhile isSpace) s') := by
  let lines := bodyLines (draft.description.getD "").toList
  have hprefix : draft.boundedBody actionKey <+: (joinLines lines).dropWhile isSpace :=
    (List.rdropWhile_prefix isSpace _).trans
      ((List.take_prefix _ _).trans (List.rdropWhile_prefix isSpace _))
  obtain ⟨s', hs', hstart⟩ := lineStarts_prefix hprefix hs
  refine ⟨s', hstart, ?_⟩
  rcases List.mem_cons.mp hs' with rfl | hbehind
  · have hblank : isSpace '\n' = true := by decide
    rcases dropWhile_joinLines hblank lines with hnil | ⟨line, hline, hbegins⟩
    · exact Or.inl hnil
    · exact Or.inr ⟨line, hline, Or.inr hbegins⟩
  · have hmem := List.mem_cons_of_mem (joinLines lines)
      (behindFeeds_suffix (List.dropWhile_suffix isSpace) hbehind)
    rcases lineStarts_joinLines (fun line hline => bodyLines_feed hline) hmem with
      hnil | ⟨line, hline, hbegins⟩
    · exact Or.inl hnil
    · exact Or.inr ⟨line, hline, Or.inl hbegins⟩

/-- Where a key is read from a line of a body, its marker is misspelled. -/
theorem misspelled_of_readKey (hs : s ∈ lineStarts (draft.boundedBody actionKey))
    (hkey : readKey s ≠ none) : misspelled s = true := by
  obtain ⟨rest, hrest⟩ : ∃ rest, readLiteral keyMarker s = some rest := by
    rw [← Option.ne_none_iff_exists']
    intro hnone
    rw [readKey, hnone] at hkey
    exact hkey rfl
  obtain ⟨start, rfl, hmarker⟩ := readLiteral_eq_some hrest
  by_contra hother
  have hstart : ∀ x ∈ start, isOtherI x = false := by
    intro x hx
    by_contra hi
    apply hother
    rw [misspelled, hmarker.length_eq, List.take_left, List.any_eq_true]
    exact ⟨x, hx, by simpa using hi⟩
  have hspace := not_isSpace_of_forall₂ (fun c hc => (of_mem_keyMarker hc).2.2.1) hmarker
  have hfeed : '\n' ∉ start := by
    intro hmem
    exact absurd (hspace _ hmem) (by decide)
  have hhead : ∀ c ∈ start.head?, isSpace c = false := fun c hc => hspace c (List.mem_of_head? hc)
  obtain ⟨s', hprefix, hs'⟩ := lineStarts_boundedBody hs
  have hfront : start <+: s' := (List.prefix_append _ _).trans hprefix
  rcases hs' with rfl | ⟨line, hline, hbegins | hbegins⟩
  · rw [List.prefix_nil.mp hfront] at hmarker
    exact absurd hmarker.length_eq (by decide)
  · exact not_prefix_bodyLines hline hmarker hstart
      (dropWhile_keeps hhead (prefix_of_beginsLine hfront hfeed hbegins))
  · exact not_prefix_bodyLines hline hmarker hstart
      (prefix_of_beginsLine hfront hfeed hbegins)

end TaskSystem
end Matinier
