import Mathlib.Data.Char
import Matinier.TaskSystem.LinearDescription

/-!
# Action keys of Linear issues

The key that is read from a description is that of its last line, unless a line above reads as that
of another key. A line of the body does so only if its marker is spelled with an i of another
alphabet, which the pattern takes for an i and the folding of the body does not; a line of the
evidence does so if an identifier has a line feed.
-/

namespace Matinier
namespace TaskSystem

variable {s rest : List Char} {draft : LinearDraft} {actionKey : String}

theorem readLiteral_eq_some {cs text : List Char} (h : readLiteral cs text = some rest) :
    ∃ start, text = start ++ rest ∧ List.Forall₂ (fun c x => ignoringCase c x = true) cs start := by
  induction cs generalizing text with
  | nil => exact ⟨[], (Option.some.inj h), .nil⟩
  | cons c cs ih =>
    cases text with
    | nil => cases h
    | cons x xs =>
      rw [readLiteral] at h
      split_ifs at h with hx
      obtain ⟨start, rfl, hstart⟩ := ih h
      exact ⟨x :: start, rfl, .cons hx hstart⟩

theorem readLiteral_append_feed {cs : List Char} (hcs : ∀ c ∈ cs, ignoringCase c '\n' = false)
    (s b : List Char) :
    readLiteral cs (s ++ '\n' :: b) = (readLiteral cs s).map (· ++ '\n' :: b) := by
  induction cs generalizing s with
  | nil => rfl
  | cons c cs ih =>
    cases s with
    | nil =>
      rw [List.nil_append, readLiteral, hcs c List.mem_cons_self]
      rfl
    | cons x xs =>
      rw [List.cons_append, readLiteral, readLiteral]
      split_ifs
      · exact ih (fun c hc => hcs c (List.mem_cons_of_mem _ hc)) xs
      · rfl

/-- Nothing but blanks is in front of what begins with a digit. -/
def BeginsDigits (b : List Char) : Prop := ∃ c ∈ (b.dropWhile isSpace).head?, isHexDigit c = true

theorem readDigits_of_not (h : ¬ BeginsDigits s) : readDigits s = none := by
  simp only [readDigits]
  split_ifs with hkey
  · exfalso
    obtain ⟨hlength, hdigits, -⟩ := hkey
    cases hs : s.dropWhile isSpace with
    | nil => simp [hs] at hlength
    | cons c cs =>
      rw [hs, List.take_succ_cons, List.all_cons, Bool.and_eq_true] at hdigits
      exact h ⟨c, by rw [hs]; rfl, hdigits.1⟩
  · rfl

/-- What is behind the line does not matter to its digits, if no digits are first there. -/
theorem readDigits_append_feed {b : List Char} (hb : ¬ BeginsDigits b) (s : List Char) :
    readDigits (s ++ '\n' :: b) = readDigits s := by
  by_cases hblank : s.dropWhile isSpace = []
  · rw [readDigits_of_not, readDigits_of_not]
    · rintro ⟨c, hc, -⟩
      rw [hblank] at hc
      cases hc
    · rintro ⟨c, hc, hdigit⟩
      have hfeed : isSpace '\n' = true := by decide
      rw [List.dropWhile_append, hblank, List.isEmpty_nil, if_pos rfl,
        List.dropWhile_cons_of_pos hfeed] at hc
      exact hb ⟨c, hc, hdigit⟩
  · have hdigits : (s ++ '\n' :: b).dropWhile isSpace = s.dropWhile isSpace ++ '\n' :: b := by
      rw [List.dropWhile_append, if_neg (by simpa using hblank)]
    unfold readDigits
    simp only [hdigits]
    generalize s.dropWhile isSpace = digits
    by_cases hlength : 64 ≤ digits.length
    · have hline : ((digits.drop 64 ++ '\n' :: b).takeWhile fun c => decide (c ≠ '\n')) =
          (digits.drop 64).takeWhile fun c => decide (c ≠ '\n') := by
        rw [List.takeWhile_append]
        split_ifs with hall
        · have hself : ((digits.drop 64).takeWhile fun c => decide (c ≠ '\n')) = digits.drop 64 :=
            (List.takeWhile_prefix _).eq_of_length hall
          rw [hself]
          simp
        · rfl
      rw [List.take_append_of_le_length hlength, List.drop_append_of_le_length hlength, hline]
    · have hshort : (digits.take 64).length ≠ 64 := by
        rw [List.length_take]
        omega
      -- The line feed is among the first characters, and it is no digit.
      have hfeed : '\n' ∈ (digits ++ '\n' :: b).take 64 := by
        have hlt : digits.length < 64 := not_le.mp hlength
        rw [List.take_append]
        apply List.mem_append_right
        obtain ⟨n, hn⟩ : ∃ n, 64 - digits.length = n + 1 := ⟨63 - digits.length, by omega⟩
        rw [hn, List.take_succ_cons]
        exact List.mem_cons_self
      have hnot : ((digits ++ '\n' :: b).take 64).all isHexDigit ≠ true := by
        intro hall
        exact absurd (List.all_eq_true.mp hall '\n' hfeed) (by decide)
      rw [if_neg fun h => hnot h.2.1, if_neg fun h => hshort h.1]

theorem keyMarker_plain : (keyMarker.all fun c =>
    ignoringCase c c && !ignoringCase c '\n' && !isSpace c && decide (c.toNat < 128)) = true := by
  decide +kernel

theorem of_mem_keyMarker {c : Char} (h : c ∈ keyMarker) :
    ignoringCase c c = true ∧ ignoringCase c '\n' = false ∧ isSpace c = false ∧
      c.toNat < 128 := by
  simpa [and_assoc] using List.all_eq_true.mp keyMarker_plain c h

theorem readKey_append_feed {b : List Char} (hb : ¬ BeginsDigits b) (s : List Char) :
    readKey (s ++ '\n' :: b) = readKey s := by
  rw [readKey, readLiteral_append_feed fun c hc => (of_mem_keyMarker hc).2.1, readKey,
    Option.bind_map]
  congr 1
  funext rest
  exact readDigits_append_feed hb rest

/-- The first key of two texts is that of the first, or else that of the second. -/
theorem findKey_append_feed {b : List Char} (hb : ¬ BeginsDigits b) (a : List Char) :
    (lineStarts (a ++ '\n' :: b)).findSome? readKey =
      ((lineStarts a).findSome? readKey).or ((lineStarts b).findSome? readKey) := by
  rw [lineStarts_append_feed, List.findSome?_append, List.findSome?_map]
  congr 2
  funext s
  exact readKey_append_feed hb s

theorem isActionKey_digits (h : isActionKey actionKey = true) :
    actionKey.toList.length = 64 ∧ ∀ c ∈ actionKey.toList, isHexDigit c = true := by
  simp only [isActionKey, Bool.and_eq_true, decide_eq_true_eq] at h
  refine ⟨by rw [String.length_toList]; exact h.1, fun c hc => ?_⟩
  have hdigit := List.all_eq_true.mp h.2 c hc
  simp only [isHexDigit, Bool.or_eq_true, Bool.and_eq_true, decide_eq_true_eq] at hdigit ⊢
  refine hdigit.imp id fun hletter => ?_
  -- A small letter is that of its lower case.
  have hlower : c.toLower = c := by
    refine dif_neg ?_
    rintro ⟨-, hle⟩
    exact absurd (hletter.1.trans (Char.le_def.mpr hle)) (by decide)
  rwa [hlower]

theorem toLower_cases (c : Char) :
    c.toLower = c ∨ (65 ≤ c.toNat ∧ c.toNat ≤ 90 ∧ c.toLower.toNat = c.toNat + 32) := by
  by_cases hcapital : 'A'.val ≤ c.val ∧ c.val ≤ 'Z'.val
  · right
    have hval : c.toLower.val = c.val + 32 := congrArg Char.val (dif_pos hcapital)
    have hlower : 65 ≤ c.toNat := hcapital.1
    have hupper : c.toNat ≤ 90 := hcapital.2
    refine ⟨hlower, hupper, ?_⟩
    show c.toLower.val.toNat = c.toNat + 32
    rw [hval, UInt32.toNat_add]
    exact Nat.mod_eq_of_lt (lt_of_le_of_lt (Nat.add_le_add_right hupper 32) (by decide))
  · exact Or.inl (dif_neg hcapital)

theorem hexDigit_not_space {c : Char} (h : isHexDigit c = true) : isSpace c = false := by
  have hbounds : 48 ≤ c.toNat ∧ c.toNat ≤ 102 := by
    simp only [isHexDigit, Char.isDigit, Bool.or_eq_true, Bool.and_eq_true, decide_eq_true_eq] at h
    rcases h with ⟨hlower, hupper⟩ | ⟨hlower, hupper⟩
    · have hlower : 48 ≤ c.toNat := hlower
      have hupper : c.toNat ≤ 57 := hupper
      omega
    · have hlower : 97 ≤ c.toLower.toNat := hlower
      have hupper : c.toLower.toNat ≤ 102 := hupper
      rcases toLower_cases c with hsame | ⟨-, -, hcapital⟩
      · rw [hsame] at hlower hupper
        omega
      · omega
  simp only [isSpace, Bool.or_eq_false_iff, Bool.and_eq_false_imp, decide_eq_true_eq,
    decide_eq_false_iff_not]
  omega

theorem readLiteral_self {cs : List Char} (hcs : ∀ c ∈ cs, ignoringCase c c = true) :
    readLiteral cs (cs ++ rest) = some rest := by
  induction cs with
  | nil => rfl
  | cons c cs ih =>
    rw [List.cons_append, readLiteral, if_pos (hcs c List.mem_cons_self)]
    exact ih fun c hc => hcs c (List.mem_cons_of_mem _ hc)

theorem readKey_keyLine (h : isActionKey actionKey = true) :
    readKey (keyLine actionKey) = some actionKey.toList := by
  obtain ⟨hlength, hdigits⟩ := isActionKey_digits h
  have hblank : (' ' :: actionKey.toList).dropWhile isSpace = actionKey.toList := by
    have hspace : isSpace ' ' = true := by decide
    rw [List.dropWhile_cons_of_pos hspace, List.dropWhile_eq_self_iff]
    intro hpos
    rw [hexDigit_not_space (hdigits _ (List.getElem_mem hpos))]
    exact Bool.false_ne_true
  rw [readKey, keyLine, readLiteral_self fun c hc => (of_mem_keyMarker hc).1, Option.bind_some]
  simp only [readDigits, hblank]
  rw [List.take_of_length_le hlength.le, List.drop_of_length_le hlength.le,
    if_pos ⟨hlength, List.all_eq_true.mpr hdigits, rfl⟩]

theorem keyLine_feed (h : isActionKey actionKey = true) : '\n' ∉ keyLine actionKey := by
  intro hmem
  rcases List.mem_append.mp hmem with hmarker | hrest
  · exact absurd (of_mem_keyMarker hmarker).2.1 (by decide)
  · rcases List.mem_cons.mp hrest with hspace | hkey
    · exact absurd hspace (by decide)
    · exact absurd ((isActionKey_digits h).2 _ hkey) (by decide)

theorem findKey_evidenceLines :
    (lineStarts draft.evidenceLines).findSome? readKey =
      (behindFeeds draft.evidenceIds).findSome? readKey := by
  have hlines : draft.evidenceLines = "---".toList ++
      '\n' :: ((evidenceMarker ++ [' ']) ++ draft.evidenceIds) := by
    simp [LinearDraft.evidenceLines]
  have hmarker : readKey ((evidenceMarker ++ [' ']) ++ draft.evidenceIds) = none := rfl
  have hrule : (lineStarts "---".toList).findSome? readKey = none := rfl
  have hdigits : ¬ BeginsDigits ((evidenceMarker ++ [' ']) ++ draft.evidenceIds) := by
    rintro ⟨c, hc, hdigit⟩
    obtain rfl : 'M' = c := Option.some.inj hc
    exact absurd hdigit (by decide)
  rw [hlines, findKey_append_feed hdigits, hrule, Option.none_or, lineStarts,
    List.findSome?_cons, hmarker, behindFeeds_append (by decide)]

/-- The key of a footer is its own, unless one is read from the evidence. -/
theorem findKey_footer (h : isActionKey actionKey = true) :
    (lineStarts (draft.footer actionKey)).findSome? readKey =
      ((behindFeeds draft.evidenceIds).findSome? readKey).or (some actionKey.toList) := by
  have hdigits : ¬ BeginsDigits (keyLine actionKey) := by
    rintro ⟨c, hc, hdigit⟩
    obtain rfl : 'm' = c := Option.some.inj hc
    exact absurd hdigit (by decide)
  rw [LinearDraft.footer, findKey_append_feed hdigits, findKey_evidenceLines, lineStarts,
    behindFeeds_eq_nil (keyLine_feed h), List.findSome?_cons, readKey_keyLine h]

end TaskSystem
end Matinier
