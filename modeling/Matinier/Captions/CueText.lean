import Mathlib.Data.List.DropRight
import Mathlib.Data.Rat.Floor
import Matinier.Foundation.Spans

/-!
# Texts of caption cues

How the text of a caption is cleaned, cut into sentences and joined again. What a browser knows
about characters and numbers is a parameter: classes of characters, the segmentation of a text in a
language into what is read as one character, and the rounding of numbers.
-/

namespace Matinier

namespace CaptionCues

/-- `\s` of a regular expression. -/
def isSpace (c : Char) : Bool :=
  let n := c.toNat
  (9 ≤ n && n ≤ 13) || n == 0x20 || n == 0xa0 || n == 0x1680 || (0x2000 ≤ n && n ≤ 0x200a) ||
    n == 0x2028 || n == 0x2029 || n == 0x202f || n == 0x205f || n == 0x3000 || n == 0xfeff

abbrev Text := List Char

/-- The characters of a text that are no white space. -/
def seen (text : Text) : Text := text.filter fun c => !isSpace c

/-- A segmentation of texts. A white space is the beginning of a longer segment only where it
carries a mark, or is the first half of a line break. -/
structure Segmentation (isExtending : Char → Bool) where
  segments : Text → List Text
  flatten_segments : ∀ text, (segments text).flatten = text
  nonempty : ∀ text, [] ∉ segments text
  joins : ∀ text c d rest, c :: d :: rest ∈ segments text → isSpace c = true →
    isExtending d = true ∨ isSpace d = true ∧ rest = []

/-- `Array.from` of a text. -/
def codePoints (isExtending : Char → Bool) : Segmentation isExtending where
  segments text := text.map fun c => [c]
  flatten_segments text := by induction text <;> simp_all
  nonempty text := by simp
  joins text c d rest h := by simp at h

structure Platform where
  isCjk : Char → Bool
  isLetterOrNumber : Char → Bool
  isPictographic : Char → Bool
  isExtending : Char → Bool
  extending_seen : ∀ c, isExtending c = true → isSpace c = false
  /-- `Intl.Segmenter`, where there is one. It rejects what is no language tag. -/
  segmenter : Option (String → Option (Segmentation isExtending))
  /-- The number nearest to a value. -/
  nearest : ℚ → ℚ
  nearest_mono : Monotone nearest
  nearest_int : ∀ n : ℤ, |n| ≤ 2 ^ 53 → nearest n = n

variable (platform : Platform)

/-- What `graphemes` segments the texts of a language with. -/
def Platform.segmentation (language : String) : Option (Segmentation platform.isExtending) :=
  match platform.segmenter with
  | some segmenter => segmenter language
  | none => some (codePoints platform.isExtending)

def trimStart (text : Text) : Text := text.dropWhile isSpace

def trimEnd (text : Text) : Text := text.rdropWhile isSpace

def trim (text : Text) : Text := trimEnd (trimStart text)

/-- A text is put behind others, trimmed, where anything is left of it then. -/
def pushTrimmed (text : Text) : List Text := if trim text = [] then [] else [trim text]

def isStrongBoundary (c : Char) : Bool := "。！？!?\n".toList.contains c

def isClauseBoundary (c : Char) : Bool := "；;：:，,、".toList.contains c

/-- `[\t\f\v ]` -/
def isBlank (c : Char) : Bool := c = '\t' || c = '\x0c' || c = '\x0b' || c = ' '

/-- Each run of blanks is one space. -/
def collapseBlanks : Text → Text
  | [] => []
  | c :: text =>
    if isBlank c then
      if text.head?.any isBlank then collapseBlanks text else ' ' :: collapseBlanks text
    else c :: collapseBlanks text

/-- Where the search for the next line break stands: behind spaces, in a line break, or in the
spaces behind one. -/
inductive LineScan where
  | spaces (count : ℕ)
  | newlines
  | behind

/-- Each run of newlines, with the spaces around it, is one newline. -/
def joinNewlines : LineScan → Text → Text
  | .spaces count, [] => List.replicate count ' '
  | .newlines, [] => ['\n']
  | .behind, [] => ['\n']
  | .spaces count, c :: text =>
    if c = ' ' then joinNewlines (.spaces (count + 1)) text
    else if c = '\n' then joinNewlines .newlines text
    else List.replicate count ' ' ++ c :: joinNewlines (.spaces 0) text
  | .newlines, c :: text =>
    if c = ' ' then joinNewlines .behind text
    else if c = '\n' then joinNewlines .newlines text
    else '\n' :: c :: joinNewlines (.spaces 0) text
  | .behind, c :: text =>
    if c = ' ' then joinNewlines .behind text
    else if c = '\n' then '\n' :: joinNewlines .newlines text
    else '\n' :: c :: joinNewlines (.spaces 0) text

def normalizeText (text : Text) : Text := trim (joinNewlines (.spaces 0) (collapseBlanks text))

/-- `[。！？!?]` -/
def isSentenceEnd (c : Char) : Bool := isStrongBoundary c && c != '\n'

/-- The matches of `[^。！？!?\n]+[。！？!?]?`, trimmed. -/
def sentenceSpans (text : Text) : List Text :=
  (matchedSpans isStrongBoundary isSentenceEnd text).flatMap pushTrimmed

/-- Of a language code in lower case. The sign for kelvin is a capital K. -/
def lowerCase (c : Char) : Char := if c = '\u212a' then 'k' else c.toLower

def isSpaceSeparatedLanguage (language : String) : Bool :=
  let base := ((trim language.toList).map lowerCase).takeWhile fun c => c ≠ '-'
  base ≠ "zh".toList && base ≠ "ja".toList && base ≠ "ko".toList

def joinText (left right : Text) (language : String) : Text :=
  if left = [] then right
  else if right = [] then left
  else if isSpaceSeparatedLanguage language then trimEnd left ++ ' ' :: trimStart right
  else trimEnd left ++ trimStart right

@[simp] theorem seen_append (a b : Text) : seen (a ++ b) = seen a ++ seen b :=
    List.filter_append a b

@[simp] theorem seen_nil : seen [] = [] := rfl

theorem seen_cons (c : Char) (text : Text) :
    seen (c :: text) = if isSpace c then seen text else c :: seen text := by
  rw [seen, List.filter_cons]
  cases isSpace c <;> rfl

theorem seen_flatten (texts : List Text) : seen texts.flatten = (texts.map seen).flatten :=
  List.filter_flatten

theorem seen_eq_nil {text : Text} : seen text = [] ↔ text.all isSpace = true := by
  simp [seen, List.filter_eq_nil_iff]

theorem seen_trimStart (text : Text) : seen (trimStart text) = seen text := by
  induction text with
  | nil => rfl
  | cons c text ih =>
    rw [trimStart, List.dropWhile_cons, seen_cons]
    split_ifs with hc
    · exact ih
    · rw [seen_cons, if_neg hc]

theorem trimEnd_append (text : Text) :
    ∃ spaces, text = trimEnd text ++ spaces ∧ spaces.all isSpace = true :=
  ⟨text.rtakeWhile isSpace, (List.rdropWhile_append_rtakeWhile ..).symm, by
    rw [List.all_eq_true]
    exact fun c hc => List.mem_rtakeWhile_imp hc⟩

theorem seen_trimEnd (text : Text) : seen (trimEnd text) = seen text := by
  obtain ⟨spaces, htext, hspaces⟩ := trimEnd_append text
  conv_rhs => rw [htext, seen_append, seen_eq_nil.mpr hspaces, List.append_nil]

@[simp] theorem seen_trim (text : Text) : seen (trim text) = seen text := by
  rw [trim, seen_trimEnd, seen_trimStart]

@[simp] theorem seen_pushTrimmed (text : Text) : seen (pushTrimmed text).flatten = seen text := by
  unfold pushTrimmed
  split_ifs with htrim
  · rw [List.flatten_nil, ← seen_trim text, htrim]
  · rw [List.flatten_singleton, seen_trim]

theorem isSpace_of_isBlank {c : Char} (h : isBlank c = true) : isSpace c = true := by
  simp only [isBlank, Bool.or_eq_true, decide_eq_true_eq] at h
  rcases h with ((rfl | rfl) | rfl) | rfl <;> decide

theorem seen_collapseBlanks (text : Text) : seen (collapseBlanks text) = seen text := by
  induction text with
  | nil => rfl
  | cons c text ih =>
    unfold collapseBlanks
    rw [seen_cons c text]
    split_ifs with hblank hnext hspace hspace hspace
    · exact ih
    · exact absurd (isSpace_of_isBlank hblank) hspace
    · rw [seen_cons, if_pos (by decide), ih]
    · exact absurd (isSpace_of_isBlank hblank) hspace
    · rw [seen_cons, if_pos hspace, ih]
    · rw [seen_cons, if_neg hspace, ih]

theorem seen_replicate_space (count : ℕ) : seen (List.replicate count ' ') = [] := by
  rw [seen_eq_nil, List.all_eq_true]
  intro c hc
  rw [List.eq_of_mem_replicate hc]
  decide

theorem seen_joinNewlines (scan : LineScan) (text : Text) :
    seen (joinNewlines scan text) = seen text := by
  have hspace : isSpace ' ' = true := by decide
  have hnewline : isSpace '\n' = true := by decide
  induction text generalizing scan with
  | nil =>
    cases scan with
    | spaces count => exact seen_replicate_space count
    | newlines => rfl
    | behind => rfl
  | cons c text ih =>
    cases scan <;> unfold joinNewlines <;> split_ifs with hc hc' <;>
      simp [seen_cons, seen_replicate_space, *]

theorem seen_normalizeText (text : Text) : seen (normalizeText text) = seen text := by
  rw [normalizeText, seen_trim, seen_joinNewlines, seen_collapseBlanks]

theorem seen_joinText (left right : Text) (language : String) :
    seen (joinText left right language) = seen left ++ seen right := by
  have hspace : isSpace ' ' = true := by decide
  unfold joinText
  split_ifs with hleft hright
  · simp [hleft]
  · simp [hright]
  · rw [seen_append, seen_cons, if_pos hspace, seen_trimEnd, seen_trimStart]
  · rw [seen_append, seen_trimEnd, seen_trimStart]

/-- Texts that are trimmed, without those that are blank, show what they showed before. -/
theorem seen_flatMap_pushTrimmed (texts : List Text) :
    seen (texts.flatMap pushTrimmed).flatten = seen texts.flatten := by
  induction texts with
  | nil => rfl
  | cons text texts ih =>
    rw [List.flatMap_cons, List.flatten_append, seen_append, seen_pushTrimmed, ih,
      List.flatten_cons,
      seen_append]

theorem seen_sentenceSpans_sublist (text : Text) :
    List.Sublist (seen (sentenceSpans text).flatten) (seen text) := by
  rw [sentenceSpans, seen_flatMap_pushTrimmed]
  exact (matchedSpans_sublist _ _ text).filter _

/-- The sentences show the text, unless it has a boundary that belongs to none of them. -/
theorem seen_sentenceSpans_iff (text : Text) :
    seen (sentenceSpans text).flatten = seen text ↔
      coversAll isStrongBoundary (fun c => !isSpace c) text = true := by
  rw [sentenceSpans, seen_flatMap_pushTrimmed]
  apply filter_matchedSpans_iff
  intro c hstrong hseen
  rw [isSentenceEnd, hstrong, Bool.true_and, bne_iff_ne]
  rintro rfl
  revert hseen
  decide

end CaptionCues
end Matinier
