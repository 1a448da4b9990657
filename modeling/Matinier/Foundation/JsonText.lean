import Mathlib.Algebra.GroupWithZero.Nat
import Mathlib.Algebra.Order.BigOperators.Group.List
import Mathlib.Algebra.Order.Group.Nat
import Mathlib.Data.List.Nodup
import Mathlib.Data.List.TakeWhile

/-!
# JSON texts

The texts of JSON values and what is read back from them. Values are written without blanks, and
characters as they are but for quotes, backslashes and control characters. A finite floating-point
number is known by its shortest literal. What is written is read back as the same value.
-/

namespace Matinier

namespace JsonText

/-- A character that occurs in numbers. -/
def isNumberChar (c : Char) : Bool :=
  c.isDigit || c == '+' || c == '-' || c == '.' || c == 'e' || c == 'E'

def isBlank (c : Char) : Bool := c == ' ' || c == '\t' || c == '\n' || c == '\r'

def dropSign : List Char → List Char
  | '-' :: cs => cs
  | cs => cs

/-- Digits without a leading zero, or a zero. -/
def isWhole : List Char → Bool
  | [] => false
  | ['0'] => true
  | c :: cs => c != '0' && (c :: cs).all Char.isDigit

def isInteger (token : List Char) : Bool := isWhole (dropSign token)

def isExponent : List Char → Bool
  | [] => true
  | c :: cs =>
    let digits := match cs with
      | '+' :: ds => ds
      | '-' :: ds => ds
      | ds => ds
    (c == 'e' || c == 'E') && !digits.isEmpty && digits.all Char.isDigit

/-- A whole part, and a fraction or an exponent where there are any. -/
def isNumber (token : List Char) : Bool :=
  let whole := (dropSign token).takeWhile Char.isDigit
  let rest := (dropSign token).dropWhile Char.isDigit
  isWhole whole &&
    match rest with
    | '.' :: ds => !(ds.takeWhile Char.isDigit).isEmpty && isExponent (ds.dropWhile Char.isDigit)
    | ds => isExponent ds

def isFloat (token : List Char) : Bool :=
  token.all isNumberChar && !isInteger token && isNumber token

end JsonText

/-- A finite floating-point number, by the literal it is written as. -/
structure FloatLiteral where
  token : List Char
  valid : JsonText.isFloat token = true
  deriving DecidableEq

inductive JsonValue where
  | null
  | bool (value : Bool)
  | int (value : ℤ)
  | float (value : FloatLiteral)
  | str (value : String)
  | arr (items : List JsonValue)
  | obj (entries : List (String × JsonValue))

namespace JsonValue

/-- The value an object has under a key. -/
def lookup (key : String) (entries : List (String × JsonValue)) : Option JsonValue :=
  (entries.find? fun entry => entry.1 = key).map Prod.snd

/-- No dictionary of the value has a key twice. -/
inductive Unique : JsonValue → Prop
  | null : Unique .null
  | bool (b : Bool) : Unique (.bool b)
  | int (n : ℤ) : Unique (.int n)
  | float (f : FloatLiteral) : Unique (.float f)
  | str (s : String) : Unique (.str s)
  | arr {items : List JsonValue} (h : ∀ item ∈ items, Unique item) : Unique (.arr items)
  | obj {entries : List (String × JsonValue)} (keys : (entries.map Prod.fst).Nodup)
      (h : ∀ entry ∈ entries, Unique entry.2) : Unique (.obj entries)

mutual

/-- How deep lists and dictionaries are nested around something. -/
def nesting : JsonValue → ℕ
  | .arr items => nestingItems items
  | .obj entries => nestingEntries entries
  | _ => 0

def nestingItems : List JsonValue → ℕ
  | [] => 0
  | v :: vs => max (nesting v + 1) (nestingItems vs)

def nestingEntries : List (String × JsonValue) → ℕ
  | [] => 0
  | (_, v) :: vs => max (nesting v + 1) (nestingEntries vs)

end

end JsonValue

namespace JsonText

def hexDigit (n : ℕ) : Char :=
  if n < 10 then Char.ofNat (48 + n) else Char.ofNat (87 + n)

def escapeChar (c : Char) : List Char :=
  if c = '"' then ['\\', '"']
  else if c = '\\' then ['\\', '\\']
  else if c = '\n' then ['\\', 'n']
  else if c = '\r' then ['\\', 'r']
  else if c = '\t' then ['\\', 't']
  else if c = '\x08' then ['\\', 'b']
  else if c = '\x0c' then ['\\', 'f']
  else if c.toNat < 32 then
    ['\\', 'u', '0', '0', hexDigit (c.toNat / 16), hexDigit (c.toNat % 16)]
  else [c]

def writeString (s : String) : List Char := '"' :: s.toList.flatMap escapeChar ++ ['"']

def writeInt (n : ℤ) : List Char :=
  if n < 0 then '-' :: Nat.toDigits 10 n.natAbs else Nat.toDigits 10 n.natAbs

mutual

/-- The text of a value, without blanks. -/
def dumps : JsonValue → List Char
  | .null => ['n', 'u', 'l', 'l']
  | .bool true => ['t', 'r', 'u', 'e']
  | .bool false => ['f', 'a', 'l', 's', 'e']
  | .int n => writeInt n
  | .float f => f.token
  | .str s => writeString s
  | .arr items => '[' :: dumpsItems items ++ [']']
  | .obj entries => '{' :: dumpsEntries entries ++ ['}']

def dumpsItems : List JsonValue → List Char
  | [] => []
  | v :: vs => dumps v ++ dumpsMoreItems vs

def dumpsMoreItems : List JsonValue → List Char
  | [] => []
  | v :: vs => ',' :: dumps v ++ dumpsMoreItems vs

def dumpsEntries : List (String × JsonValue) → List Char
  | [] => []
  | (key, v) :: rest => writeString key ++ ':' :: dumps v ++ dumpsMoreEntries rest

def dumpsMoreEntries : List (String × JsonValue) → List Char
  | [] => []
  | (key, v) :: rest => ',' :: writeString key ++ ':' :: dumps v ++ dumpsMoreEntries rest

end

/-- The bytes of a text. -/
def byteLength (text : List Char) : ℕ := (text.map Char.utf8Size).sum

def skipBlanks (text : List Char) : List Char := text.dropWhile isBlank

def hexValue (c : Char) : Option ℕ :=
  if c.isDigit then some (c.toNat - 48)
  else if 'a' ≤ c ∧ c ≤ 'f' then some (c.toNat - 87)
  else if 'A' ≤ c ∧ c ≤ 'F' then some (c.toNat - 55)
  else none

def readHex : List Char → Option (ℕ × List Char)
  | a :: b :: c :: d :: rest => do
    let a ← hexValue a
    let b ← hexValue b
    let c ← hexValue c
    let d ← hexValue d
    return (((a * 16 + b) * 16 + c) * 16 + d, rest)
  | _ => none

/-- The character an escape stands for. A surrogate stands for one together with its other
half only. -/
def readEscape : List Char → Option (Char × List Char)
  | '"' :: rest => some ('"', rest)
  | '\\' :: rest => some ('\\', rest)
  | '/' :: rest => some ('/', rest)
  | 'b' :: rest => some ('\x08', rest)
  | 'f' :: rest => some ('\x0c', rest)
  | 'n' :: rest => some ('\n', rest)
  | 'r' :: rest => some ('\r', rest)
  | 't' :: rest => some ('\t', rest)
  | 'u' :: rest => do
    let (code, rest) ← readHex rest
    if 0xd800 ≤ code ∧ code < 0xdc00 then
      match rest with
      | '\\' :: 'u' :: rest => do
        let (low, rest) ← readHex rest
        if 0xdc00 ≤ low ∧ low < 0xe000 then
          some (Char.ofNat (0x10000 + (code - 0xd800) * 0x400 + (low - 0xdc00)), rest)
        else none
      | _ => none
    else if 0xdc00 ≤ code ∧ code < 0xe000 then none
    else some (Char.ofNat code, rest)
  | _ => none

/-- The characters up to the closing quote. -/
def readChars : ℕ → List Char → Option (List Char × List Char)
  | 0, _ => none
  | _ + 1, [] => none
  | fuel + 1, c :: rest =>
    if c = '"' then some ([], rest)
    else if c = '\\' then do
      let (c, rest) ← readEscape rest
      let (cs, rest) ← readChars fuel rest
      return (c :: cs, rest)
    else if c.toNat < 32 then none
    else do
      let (cs, rest) ← readChars fuel rest
      return (c :: cs, rest)

def readString (text : List Char) : Option (String × List Char) :=
  (readChars text.length text).map fun read => (String.ofList read.1, read.2)

def readInt : List Char → ℤ
  | '-' :: digits => -(Nat.ofDigitChars 10 digits 0 : ℤ)
  | digits => Nat.ofDigitChars 10 digits 0

def readNumber (token : List Char) : Option JsonValue :=
  if isInteger token = true then some (.int (readInt token))
  else if h : isFloat token = true then some (.float ⟨token, h⟩)
  else none

/-- Put an entry into a dictionary; a key keeps its place and has its last value. -/
def put (entries : List (String × JsonValue)) (entry : String × JsonValue) :
    List (String × JsonValue) :=
  if entries.any (fun e => e.1 = entry.1) then
    entries.map fun e => if e.1 = entry.1 then entry else e
  else entries ++ [entry]

def dictionary (entries : List (String × JsonValue)) : List (String × JsonValue) :=
  entries.foldl put []

mutual

/-- Read a value; the fuel bounds how much of the text is looked at. -/
def readValue : ℕ → List Char → Option (JsonValue × List Char)
  | 0, _ => none
  | fuel + 1, text =>
    match skipBlanks text with
    | '"' :: rest => (readString rest).map fun read => (.str read.1, read.2)
    | '[' :: rest =>
      match skipBlanks rest with
      | ']' :: rest => some (.arr [], rest)
      | rest => (readItems fuel rest).map fun read => (.arr read.1, read.2)
    | '{' :: rest =>
      match skipBlanks rest with
      | '}' :: rest => some (.obj [], rest)
      | rest => (readEntries fuel rest).map fun read => (.obj (dictionary read.1), read.2)
    | 'n' :: 'u' :: 'l' :: 'l' :: rest => some (.null, rest)
    | 't' :: 'r' :: 'u' :: 'e' :: rest => some (.bool true, rest)
    | 'f' :: 'a' :: 'l' :: 's' :: 'e' :: rest => some (.bool false, rest)
    | text => (readNumber (text.takeWhile isNumberChar)).map fun v =>
        (v, text.dropWhile isNumberChar)

def readItems : ℕ → List Char → Option (List JsonValue × List Char)
  | 0, _ => none
  | fuel + 1, text => do
    let (v, rest) ← readValue fuel text
    match skipBlanks rest with
    | ',' :: rest => do
      let (vs, rest) ← readItems fuel rest
      return (v :: vs, rest)
    | ']' :: rest => return ([v], rest)
    | _ => none

def readEntries : ℕ → List Char → Option (List (String × JsonValue) × List Char)
  | 0, _ => none
  | fuel + 1, text =>
    match skipBlanks text with
    | '"' :: rest => do
      let (key, rest) ← readString rest
      match skipBlanks rest with
      | ':' :: rest => do
        let (v, rest) ← readValue fuel rest
        match skipBlanks rest with
        | ',' :: rest => do
          let (entries, rest) ← readEntries fuel rest
          return ((key, v) :: entries, rest)
        | '}' :: rest => return ([(key, v)], rest)
        | _ => none
      | _ => none
    | _ => none

end

/-- The value of a text, with nothing but blanks after it. -/
def loads (text : List Char) : Option JsonValue :=
  (readValue text.length text).bind fun read =>
    if skipBlanks read.2 = [] then some read.1 else none

/-- The text does not go on with a character of a number. -/
def Stops (text : List Char) : Prop := ∀ c ∈ text.head?, isNumberChar c = false

theorem isDigit_of_mem_toDigits {n : ℕ} {c : Char} (h : c ∈ Nat.toDigits 10 n) :
    c.isDigit = true :=
  Nat.isDigit_of_mem_toDigits (by omega) (by omega) h

theorem isWhole_of_digits {cs : List Char} (h : ∀ c ∈ cs, c.isDigit = true)
    (hhead : ∀ c ∈ cs.head?, c ≠ '0') (hne : cs ≠ []) : isWhole cs = true := by
  cases cs with
  | nil => exact absurd rfl hne
  | cons c cs =>
    have hc : c ≠ '0' := hhead c rfl
    have hall : (c :: cs).all Char.isDigit = true := by simpa using h
    unfold isWhole
    split
    · contradiction
    · rfl
    · rename_i heq
      cases heq
      rw [hall, Bool.and_true, bne_iff_ne]
      exact hc

theorem head_toDigits {n : ℕ} (hn : 0 < n) : ∀ c ∈ (Nat.toDigits 10 n).head?, c ≠ '0' := by
  induction n using Nat.strong_induction_on with
  | _ n ih =>
    intro c hc
    by_cases hlt : n < 10
    · rw [Nat.toDigits_of_lt_base hlt] at hc
      cases hc
      simp only [ne_eq, Nat.digitChar_eq_zero]
      omega
    · rw [Nat.toDigits_of_base_le (by omega) (by omega),
        List.head?_append_of_ne_nil _ Nat.toDigits_ne_nil] at hc
      exact ih (n / 10) (by omega) (by omega) c hc

theorem isWhole_toDigits (n : ℕ) : isWhole (Nat.toDigits 10 n) = true := by
  rcases Nat.eq_zero_or_pos n with rfl | hn
  · rfl
  · exact isWhole_of_digits (fun c hc => isDigit_of_mem_toDigits hc) (head_toDigits hn)
      Nat.toDigits_ne_nil

theorem toDigits_ne_sign (n : ℕ) (cs : List Char) : Nat.toDigits 10 n ≠ '-' :: cs := by
  intro h
  have hdigit : '-'.isDigit = true :=
    isDigit_of_mem_toDigits (n := n) (by rw [h]; exact List.mem_cons_self)
  exact absurd hdigit (by decide)

theorem dropSign_toDigits (n : ℕ) : dropSign (Nat.toDigits 10 n) = Nat.toDigits 10 n := by
  unfold dropSign
  split
  · rename_i h
    exact absurd h (toDigits_ne_sign n _)
  · rfl

theorem isInteger_writeInt (n : ℤ) : isInteger (writeInt n) = true := by
  unfold writeInt isInteger
  split_ifs
  · exact isWhole_toDigits _
  · rw [dropSign_toDigits]
    exact isWhole_toDigits _

theorem readInt_writeInt (n : ℤ) : readInt (writeInt n) = n := by
  have hvalue := Nat.ofDigitChars_toDigits (b := 10) (n := n.natAbs) (by omega) (by omega)
  unfold writeInt
  split_ifs with hn
  · simp only [readInt, hvalue]
    omega
  · unfold readInt
    split
    · rename_i h
      exact absurd h (toDigits_ne_sign _ _)
    · rw [hvalue]
      omega

theorem isNumberChar_of_mem_writeInt {n : ℤ} {c : Char} (h : c ∈ writeInt n) :
    isNumberChar c = true := by
  have hdigit : ∀ c ∈ Nat.toDigits 10 n.natAbs, isNumberChar c = true := fun c hc => by
    simp [isNumberChar, isDigit_of_mem_toDigits hc]
  unfold writeInt at h
  split_ifs at h
  · rcases List.mem_cons.mp h with rfl | h
    · rfl
    · exact hdigit c h
  · exact hdigit c h

theorem writeInt_ne_nil (n : ℤ) : writeInt n ≠ [] := by
  unfold writeInt
  split_ifs
  · exact List.cons_ne_nil _ _
  · exact Nat.toDigits_ne_nil

theorem token_chars (f : FloatLiteral) : ∀ c ∈ f.token, isNumberChar c = true := by
  have h := f.valid
  simp only [isFloat, Bool.and_eq_true, List.all_eq_true] at h
  exact h.1.1

theorem token_not_integer (f : FloatLiteral) : isInteger f.token = false := by
  have h := f.valid
  simp only [isFloat, Bool.and_eq_true, Bool.not_eq_true'] at h
  exact h.1.2

theorem token_ne_nil (f : FloatLiteral) : f.token ≠ [] := by
  intro h
  have hvalid := f.valid
  rw [h] at hvalid
  exact absurd hvalid (by decide)

theorem takeWhile_token {token rest : List Char} (h : ∀ c ∈ token, isNumberChar c = true)
    (hstops : Stops rest) : (token ++ rest).takeWhile isNumberChar = token ∧
      (token ++ rest).dropWhile isNumberChar = rest := by
  have hrest : rest.takeWhile isNumberChar = [] ∧ rest.dropWhile isNumberChar = rest := by
    cases rest with
    | nil => exact ⟨rfl, rfl⟩
    | cons c rest => simp [hstops c rfl]
  rw [List.takeWhile_append_of_pos h, List.dropWhile_append_of_pos h, hrest.1, hrest.2,
    List.append_nil]
  exact ⟨rfl, rfl⟩

theorem readNumber_writeInt (n : ℤ) : readNumber (writeInt n) = some (.int n) := by
  rw [readNumber, if_pos (isInteger_writeInt n), readInt_writeInt]

theorem readNumber_float (f : FloatLiteral) : readNumber f.token = some (.float f) := by
  unfold readNumber
  rw [if_neg (by simp [token_not_integer f]), dif_pos f.valid]

/-- A text that begins with a character which is no blank is read as it is. -/
theorem skipBlanks_cons {c : Char} {text : List Char} (h : isBlank c = false) :
    skipBlanks (c :: text) = c :: text := by
  simp [skipBlanks, h]

theorem isBlank_of_number {c : Char} (h : isNumberChar c = true) : isBlank c = false := by
  by_contra hblank
  simp only [isBlank, Bool.not_eq_false, Bool.or_eq_true, beq_iff_eq] at hblank
  rcases hblank with ((rfl | rfl) | rfl) | rfl <;> exact absurd h (by decide)

theorem readValue_number {token rest : List Char} {v : JsonValue} {fuel : ℕ}
    (hchars : ∀ c ∈ token, isNumberChar c = true) (hne : token ≠ [])
    (hread : readNumber token = some v) (hstops : Stops rest) :
    readValue (fuel + 1) (token ++ rest) = some (v, rest) := by
  obtain ⟨htake, hdrop⟩ := takeWhile_token hchars hstops
  cases token with
  | nil => exact absurd rfl hne
  | cons c token =>
    have hc := hchars c List.mem_cons_self
    rw [List.cons_append] at htake hdrop ⊢
    unfold readValue
    rw [skipBlanks_cons (isBlank_of_number hc)]
    split
    all_goals first
      | exact absurd ((List.cons.inj (by assumption)).1 ▸ hc) (by decide)
      | rw [htake, hdrop, hread]; rfl

theorem hexValue_hexDigit : ∀ n < 16, hexValue (hexDigit n) = some n := by decide

theorem readChars_escapeChar {c : Char} {rest : List Char} {fuel : ℕ} :
    readChars (fuel + 1) (escapeChar c ++ rest) =
      (readChars fuel rest).map fun read => (c :: read.1, read.2) := by
  unfold escapeChar
  split_ifs with hquote hslash hnewline hreturn htab hback hfeed hcontrol
  · subst hquote
    cases h : readChars fuel rest <;> simp [readChars, readEscape, h]
  · subst hslash
    cases h : readChars fuel rest <;> simp [readChars, readEscape, h]
  · subst hnewline
    cases h : readChars fuel rest <;> simp [readChars, readEscape, h]
  · subst hreturn
    cases h : readChars fuel rest <;> simp [readChars, readEscape, h]
  · subst htab
    cases h : readChars fuel rest <;> simp [readChars, readEscape, h]
  · subst hback
    cases h : readChars fuel rest <;> simp [readChars, readEscape, h]
  · subst hfeed
    cases h : readChars fuel rest <;> simp [readChars, readEscape, h]
  · have hhigh := hexValue_hexDigit (c.toNat / 16) (by omega)
    have hlow := hexValue_hexDigit (c.toNat % 16) (by omega)
    have hzero : hexValue '0' = some 0 := rfl
    have hcode : c.toNat / 16 * 16 + c.toNat % 16 = c.toNat := by omega
    have hchar : ∀ x, readEscape ('u' :: '0' :: '0' :: hexDigit (c.toNat / 16) ::
        hexDigit (c.toNat % 16) :: x) = some (c, x) := by
      intro x
      have hsmall : ¬ (0xd800 ≤ c.toNat ∧ c.toNat < 0xdc00) := by omega
      have hsmall' : ¬ (0xdc00 ≤ c.toNat ∧ c.toNat < 0xe000) := by omega
      simp only [readEscape, readHex, hzero, hhigh, hlow, Option.bind_eq_bind, Option.bind_some,
        Option.pure_def, Nat.zero_mul, Nat.add_zero, hcode, Nat.zero_add, if_neg hsmall,
        if_neg hsmall', Char.ofNat_toNat]
    cases h : readChars fuel rest <;> simp [readChars, hchar, h]
  · cases h : readChars fuel rest <;> simp [readChars, hquote, hslash, hcontrol, h]

theorem readChars_written (cs : List Char) {rest : List Char} {fuel : ℕ} (h : cs.length < fuel) :
    readChars fuel (cs.flatMap escapeChar ++ '"' :: rest) = some (cs, rest) := by
  induction cs generalizing fuel with
  | nil =>
    obtain ⟨fuel, rfl⟩ : ∃ k, fuel = k + 1 := ⟨fuel - 1, by simp at h; omega⟩
    simp [readChars]
  | cons c cs ih =>
    obtain ⟨fuel, rfl⟩ : ∃ k, fuel = k + 1 := ⟨fuel - 1, by simp at h; omega⟩
    rw [List.flatMap_cons, List.append_assoc, readChars_escapeChar,
      ih (by simpa using h)]
    rfl

theorem escapeChar_ne_nil (c : Char) : escapeChar c ≠ [] := by
  unfold escapeChar
  split_ifs <;> exact List.cons_ne_nil _ _

theorem length_le_flatMap_escapeChar (cs : List Char) :
    cs.length ≤ (cs.flatMap escapeChar).length := by
  induction cs with
  | nil => exact Nat.le_refl _
  | cons c cs ih =>
    have hc := List.length_pos_iff.mpr (escapeChar_ne_nil c)
    rw [List.flatMap_cons, List.length_append, List.length_cons]
    omega

theorem readString_written (s : String) (rest : List Char) :
    readString (s.toList.flatMap escapeChar ++ '"' :: rest) = some (s, rest) := by
  have hlength := length_le_flatMap_escapeChar s.toList
  unfold readString
  rw [readChars_written]
  · simp
  · simp only [List.length_append, List.length_cons]
    omega

theorem foldl_put {entries d : List (String × JsonValue)}
    (h : ((d ++ entries).map Prod.fst).Nodup) : entries.foldl put d = d ++ entries := by
  induction entries generalizing d with
  | nil => simp
  | cons entry rest ih =>
    have hnew : d.any (fun e => e.1 = entry.1) = false := by
      rw [List.map_append, List.map_cons] at h
      have hdisjoint := (List.nodup_append.mp h).2.2
      simp only [List.any_eq_false, decide_eq_true_eq]
      exact fun e he heq => hdisjoint e.1 (List.mem_map_of_mem he) entry.1
        List.mem_cons_self heq
    rw [List.foldl_cons, put, if_neg (by simp [hnew]), ih (by simpa using h)]
    simp

theorem dictionary_of_nodup {entries : List (String × JsonValue)}
    (h : (entries.map Prod.fst).Nodup) : dictionary entries = entries :=
  foldl_put (by simpa using h)

mutual

/-- The fuel a value needs. -/
def weight : JsonValue → ℕ
  | .arr items => weightItems items + 1
  | .obj entries => weightEntries entries + 1
  | _ => 1

def weightItems : List JsonValue → ℕ
  | [] => 0
  | v :: vs => weight v + weightItems vs + 1

def weightEntries : List (String × JsonValue) → ℕ
  | [] => 0
  | (_, v) :: rest => weight v + weightEntries rest + 1

end

theorem stops_of_head {c : Char} {rest : List Char} (h : isNumberChar c = false) :
    Stops (c :: rest) := by
  intro d hd
  cases hd
  exact h

/-- What comes after an item of a list or an entry of a dictionary ends the item. -/
theorem stops_items (vs : List JsonValue) (rest : List Char) :
    Stops (dumpsMoreItems vs ++ ']' :: rest) := by
  cases vs <;> exact stops_of_head rfl

theorem stops_entries (entries : List (String × JsonValue)) (rest : List Char) :
    Stops (dumpsMoreEntries entries ++ '}' :: rest) := by
  rcases entries with _ | ⟨⟨key, v⟩, entries⟩ <;> exact stops_of_head rfl

/-- The text of a value begins with a character that is no blank and closes nothing. -/
theorem head_dumps (v : JsonValue) : ∃ c cs, dumps v = c :: cs ∧ isBlank c = false ∧ c ≠ ']' := by
  have hnumber : ∀ token : List Char, token ≠ [] → (∀ c ∈ token, isNumberChar c = true) →
      ∃ c cs, token = c :: cs ∧ isBlank c = false ∧ c ≠ ']' := by
    intro token hne hchars
    cases token with
    | nil => exact absurd rfl hne
    | cons c cs =>
      have hc := hchars c List.mem_cons_self
      refine ⟨c, cs, rfl, isBlank_of_number hc, ?_⟩
      rintro rfl
      exact absurd hc (by decide)
  cases v with
  | null => exact ⟨_, _, rfl, rfl, by decide⟩
  | bool b => cases b <;> exact ⟨_, _, rfl, rfl, by decide⟩
  | int n => exact hnumber _ (writeInt_ne_nil n) fun c hc => isNumberChar_of_mem_writeInt hc
  | float f => exact hnumber _ (token_ne_nil f) (token_chars f)
  | str s => exact ⟨_, _, rfl, rfl, by decide⟩
  | arr items => exact ⟨_, _, rfl, rfl, by decide⟩
  | obj entries => exact ⟨_, _, rfl, rfl, by decide⟩

theorem readValue_list {c : Char} {cs : List Char} {fuel : ℕ} (hblank : isBlank c = false)
    (hclose : c ≠ ']') : readValue (fuel + 1) ('[' :: c :: cs) =
      (readItems fuel (c :: cs)).map fun read => (.arr read.1, read.2) := by
  rw [readValue, skipBlanks_cons (by decide)]
  simp only [skipBlanks_cons hblank]
  split
  · rename_i heq
    exact absurd (List.cons.inj heq).1 hclose
  · rfl

theorem readItems_last {text rest : List Char} {v : JsonValue} {fuel : ℕ}
    (h : readValue fuel text = some (v, ']' :: rest)) :
    readItems (fuel + 1) text = some ([v], rest) := by
  simp [readItems, h, skipBlanks_cons (c := ']') rfl]

theorem readItems_more {text rest : List Char} {v : JsonValue} {fuel : ℕ}
    (h : readValue fuel text = some (v, ',' :: rest)) : readItems (fuel + 1) text =
      (readItems fuel rest).map fun read => (v :: read.1, read.2) := by
  cases hrest : readItems fuel rest <;>
    simp [readItems, h, skipBlanks_cons (c := ',') rfl, hrest]

theorem readValue_dictionary {cs : List Char} {fuel : ℕ} :
    readValue (fuel + 1) ('{' :: '"' :: cs) =
      (readEntries fuel ('"' :: cs)).map fun read => (.obj (dictionary read.1), read.2) := by
  rw [readValue, skipBlanks_cons (by decide)]
  simp only [skipBlanks_cons (c := '"') rfl]
  rfl

theorem readEntries_last {key : String} {text rest : List Char} {v : JsonValue} {fuel : ℕ}
    (h : readValue fuel text = some (v, '}' :: rest)) :
    readEntries (fuel + 1) (writeString key ++ ':' :: text) = some ([(key, v)], rest) := by
  simp [readEntries, writeString, readString_written, h, skipBlanks_cons (c := '"') rfl,
    skipBlanks_cons (c := ':') rfl, skipBlanks_cons (c := '}') rfl]

theorem readEntries_more {key : String} {text rest : List Char} {v : JsonValue} {fuel : ℕ}
    (h : readValue fuel text = some (v, ',' :: rest)) :
    readEntries (fuel + 1) (writeString key ++ ':' :: text) =
      (readEntries fuel rest).map fun read => ((key, v) :: read.1, read.2) := by
  cases hrest : readEntries fuel rest <;>
    simp [readEntries, writeString, readString_written, h, skipBlanks_cons (c := '"') rfl,
      skipBlanks_cons (c := ':') rfl, skipBlanks_cons (c := ',') rfl, hrest]

mutual

theorem readValue_dumps : ∀ (v : JsonValue), v.Unique → ∀ (fuel : ℕ) (rest : List Char),
    weight v ≤ fuel → Stops rest → readValue fuel (dumps v ++ rest) = some (v, rest)
  | .null, _, 0, _, h, _ => by simp [weight] at h
  | .null, _, fuel + 1, rest, _, _ => rfl
  | .bool _, _, 0, _, h, _ => by simp [weight] at h
  | .bool true, _, fuel + 1, rest, _, _ => rfl
  | .bool false, _, fuel + 1, rest, _, _ => rfl
  | .int n, _, 0, _, h, _ => by simp [weight] at h
  | .int n, _, fuel + 1, rest, _, hstops => by
    rw [dumps]
    exact readValue_number (fun c hc => isNumberChar_of_mem_writeInt hc) (writeInt_ne_nil n)
      (readNumber_writeInt n) hstops
  | .float f, _, 0, _, h, _ => by simp [weight] at h
  | .float f, _, fuel + 1, rest, _, hstops => by
    rw [dumps]
    exact readValue_number (token_chars f) (token_ne_nil f) (readNumber_float f)
      hstops
  | .str s, _, 0, _, h, _ => by simp [weight] at h
  | .str s, _, fuel + 1, rest, _, _ => by
    have hread := readString_written s rest
    simp [dumps, writeString, readValue, skipBlanks_cons (c := '"') rfl, hread]
  | .arr items, _, 0, _, h, _ => by simp [weight] at h
  | .arr [], _, fuel + 1, rest, _, _ => rfl
  | .arr (v :: vs), hunique, fuel + 1, rest, h, _ => by
    have hitems : ∀ item ∈ v :: vs, item.Unique := by cases hunique; assumption
    have hread := readItems_dumps v vs hitems fuel rest (by simpa [weight] using h)
    obtain ⟨c, cs, hdumps, hblank, hclose⟩ := head_dumps v
    have htext : dumpsItems (v :: vs) ++ ']' :: rest =
        c :: (cs ++ (dumpsMoreItems vs ++ ']' :: rest)) := by simp [dumpsItems, hdumps]
    rw [htext] at hread
    have hwhole : dumps (.arr (v :: vs)) ++ rest =
        '[' :: c :: (cs ++ (dumpsMoreItems vs ++ ']' :: rest)) := by
      rw [← htext]
      simp [dumps]
    rw [hwhole, readValue_list hblank hclose, hread]
    rfl
  | .obj entries, _, 0, _, h, _ => by simp [weight] at h
  | .obj [], _, fuel + 1, rest, _, _ => rfl
  | .obj ((key, v) :: entries), hunique, fuel + 1, rest, h, _ => by
    obtain ⟨hkeys, hentries⟩ : (((key, v) :: entries).map Prod.fst).Nodup ∧
        ∀ entry ∈ (key, v) :: entries, entry.2.Unique := by
      cases hunique
      exact ⟨by assumption, by assumption⟩
    have hread := readEntries_dumps key v entries hentries fuel rest
      (by simpa [weight] using h)
    have htext : dumps (.obj ((key, v) :: entries)) ++ rest =
        '{' :: '"' :: (key.toList.flatMap escapeChar ++ '"' :: ':' :: (dumps v ++
          (dumpsMoreEntries entries ++ '}' :: rest))) := by
      simp [dumps, dumpsEntries, writeString]
    have hentry : dumpsEntries ((key, v) :: entries) ++ '}' :: rest =
        '"' :: (key.toList.flatMap escapeChar ++ '"' :: ':' :: (dumps v ++
          (dumpsMoreEntries entries ++ '}' :: rest))) := by
      simp [dumpsEntries, writeString]
    rw [htext, readValue_dictionary, ← hentry, hread, Option.map_some, dictionary_of_nodup hkeys]

theorem readItems_dumps : ∀ (v : JsonValue) (vs : List JsonValue),
    (∀ item ∈ v :: vs, item.Unique) → ∀ (fuel : ℕ) (rest : List Char),
    weightItems (v :: vs) ≤ fuel →
      readItems fuel (dumpsItems (v :: vs) ++ ']' :: rest) = some (v :: vs, rest)
  | v, vs, _, 0, _, h => by simp [weightItems] at h
  | v, [], hunique, fuel + 1, rest, h => by
    rw [weightItems] at h
    have hv := readValue_dumps v (hunique v List.mem_cons_self) fuel (']' :: rest) (by omega)
      (stops_of_head rfl)
    have htext : dumpsItems [v] ++ ']' :: rest = dumps v ++ ']' :: rest := by
      simp [dumpsItems, dumpsMoreItems]
    rw [htext, readItems_last hv]
  | v, w :: vs, hunique, fuel + 1, rest, h => by
    rw [weightItems] at h
    have hv := readValue_dumps v (hunique v List.mem_cons_self) fuel
      (dumpsMoreItems (w :: vs) ++ ']' :: rest) (by omega) (stops_items _ _)
    have hvs := readItems_dumps w vs (fun item hitem => hunique item (List.mem_cons_of_mem _ hitem))
      fuel rest (by omega)
    have hmore : dumpsMoreItems (w :: vs) ++ ']' :: rest =
        ',' :: (dumpsItems (w :: vs) ++ ']' :: rest) := by simp [dumpsItems, dumpsMoreItems]
    have htext : dumpsItems (v :: w :: vs) ++ ']' :: rest =
        dumps v ++ (dumpsMoreItems (w :: vs) ++ ']' :: rest) := by simp [dumpsItems]
    rw [hmore] at hv htext
    rw [htext, readItems_more hv, hvs, Option.map_some]

theorem readEntries_dumps : ∀ (key : String) (v : JsonValue) (entries : List (String × JsonValue)),
    (∀ entry ∈ (key, v) :: entries, entry.2.Unique) → ∀ (fuel : ℕ) (rest : List Char),
    weightEntries ((key, v) :: entries) ≤ fuel →
      readEntries fuel (dumpsEntries ((key, v) :: entries) ++ '}' :: rest) =
        some ((key, v) :: entries, rest)
  | key, v, entries, _, 0, _, h => by simp [weightEntries] at h
  | key, v, [], hunique, fuel + 1, rest, h => by
    rw [weightEntries] at h
    have hv := readValue_dumps v (hunique (key, v) List.mem_cons_self) fuel ('}' :: rest) (by omega)
      (stops_of_head rfl)
    have htext : dumpsEntries [(key, v)] ++ '}' :: rest =
        writeString key ++ ':' :: (dumps v ++ '}' :: rest) := by
      simp [dumpsEntries, dumpsMoreEntries]
    rw [htext, readEntries_last hv]
  | key, v, (key', w) :: entries, hunique, fuel + 1, rest, h => by
    rw [weightEntries] at h
    have hv := readValue_dumps v (hunique (key, v) List.mem_cons_self) fuel
      (dumpsMoreEntries ((key', w) :: entries) ++ '}' :: rest) (by omega) (stops_entries _ _)
    have hrest := readEntries_dumps key' w entries
      (fun entry hentry => hunique entry (List.mem_cons_of_mem _ hentry))
      fuel rest (by omega)
    have hmore : dumpsMoreEntries ((key', w) :: entries) ++ '}' :: rest =
        ',' :: (dumpsEntries ((key', w) :: entries) ++ '}' :: rest) := by
      simp [dumpsEntries, dumpsMoreEntries]
    have htext : dumpsEntries ((key, v) :: (key', w) :: entries) ++ '}' :: rest =
        writeString key ++ ':' ::
          (dumps v ++ (dumpsMoreEntries ((key', w) :: entries) ++ '}' :: rest)) := by
      simp [dumpsEntries]
    rw [hmore] at hv htext
    rw [htext, readEntries_more hv, hrest, Option.map_some]

end

mutual

theorem weight_le_length : ∀ v : JsonValue, weight v ≤ (dumps v).length
  | .null => by simp [weight, dumps]
  | .bool true => by simp [weight, dumps]
  | .bool false => by simp [weight, dumps]
  | .int n => List.length_pos_iff.mpr (writeInt_ne_nil n)
  | .float f => List.length_pos_iff.mpr (token_ne_nil f)
  | .str s => by simp [weight, dumps, writeString]
  | .arr [] => by simp [weight, weightItems, dumps]
  | .arr (v :: vs) => by
    have hv := weight_le_length v
    have hvs := weightItems_le_length vs
    simp only [weight, weightItems, dumps, dumpsItems, List.length_append, List.length_cons,
      List.length_nil]
    omega
  | .obj [] => by simp [weight, weightEntries, dumps]
  | .obj ((key, v) :: entries) => by
    have hv := weight_le_length v
    have hrest := weightEntries_le_length entries
    simp only [weight, weightEntries, dumps, dumpsEntries, writeString, List.length_append,
      List.length_cons, List.length_nil]
    omega

theorem weightItems_le_length : ∀ vs : List JsonValue,
    weightItems vs ≤ (dumpsMoreItems vs).length
  | [] => Nat.le_refl _
  | v :: vs => by
    have hv := weight_le_length v
    have hvs := weightItems_le_length vs
    simp only [weightItems, dumpsMoreItems, List.length_append, List.length_cons]
    omega

theorem weightEntries_le_length : ∀ entries : List (String × JsonValue),
    weightEntries entries ≤ (dumpsMoreEntries entries).length
  | [] => Nat.le_refl _
  | (key, v) :: entries => by
    have hv := weight_le_length v
    have hrest := weightEntries_le_length entries
    simp only [weightEntries, dumpsMoreEntries, List.length_append, List.length_cons]
    omega

end

/-- What is written for a value, and ended with blanks, is read as the value. -/
theorem loads_dumps {v : JsonValue} (h : v.Unique) (blanks : List Char)
    (hblanks : ∀ c ∈ blanks, isBlank c = true) : loads (dumps v ++ blanks) = some v := by
  have hstops : Stops blanks := by
    intro c hc
    have hblank := hblanks c (List.mem_of_mem_head? hc)
    by_contra hnumber
    rw [Bool.not_eq_false] at hnumber
    rw [isBlank_of_number hnumber] at hblank
    cases hblank
  have hfuel : weight v ≤ (dumps v ++ blanks).length := by
    have := weight_le_length v
    rw [List.length_append]
    omega
  have hskip : skipBlanks blanks = [] := List.dropWhile_eq_nil_iff.mpr hblanks
  rw [loads, readValue_dumps v h _ _ hfuel hstops, Option.bind_some, if_pos hskip]

@[simp] theorem byteLength_nil : byteLength [] = 0 := rfl

@[simp] theorem byteLength_cons (c : Char) (text : List Char) :
    byteLength (c :: text) = c.utf8Size + byteLength text := by
  simp [byteLength]

@[simp] theorem byteLength_append (text rest : List Char) :
    byteLength (text ++ rest) = byteLength text + byteLength rest := by
  simp [byteLength]

@[simp] theorem byteLength_replicate (n : ℕ) (c : Char) :
    byteLength (List.replicate n c) = n * c.utf8Size := by
  simp [byteLength]

theorem byteLength_moreItems (items : List JsonValue) :
    byteLength (dumpsMoreItems items) =
      (items.map fun v => byteLength (dumps v)).sum + items.length := by
  induction items with
  | nil => rfl
  | cons v items ih =>
    simp only [dumpsMoreItems, byteLength_cons, byteLength_append, ih, List.map_cons,
      List.sum_cons, List.length_cons]
    have hcomma : ','.utf8Size = 1 := rfl
    omega

/-- The items of a list take all of its bytes but two, and one for each comma. -/
theorem byteLength_arr (items : List JsonValue) :
    byteLength (dumps (.arr items)) =
      (items.map fun v => byteLength (dumps v)).sum + (items.length - 1) + 2 := by
  have hopen : '['.utf8Size = 1 := rfl
  have hclose : ']'.utf8Size = 1 := rfl
  cases items with
  | nil =>
    simp only [dumps, dumpsItems, byteLength_cons, byteLength_append, byteLength_nil,
      List.map_nil, List.sum_nil, List.length_nil, hopen, hclose]
  | cons v items =>
    simp only [dumps, dumpsItems, byteLength_cons, byteLength_append, byteLength_nil,
      byteLength_moreItems, List.map_cons, List.sum_cons, List.length_cons, hopen, hclose]
    omega

theorem byteLength_moreEntries {entries : List (String × JsonValue)} {key : String}
    {v : JsonValue} (h : (key, v) ∈ entries) :
    byteLength (dumps v) ≤ byteLength (dumpsMoreEntries entries) := by
  induction entries with
  | nil => cases h
  | cons entry entries ih =>
    obtain ⟨key', w⟩ := entry
    rw [dumpsMoreEntries]
    rcases List.mem_cons.mp h with heq | h
    · cases heq
      simp only [byteLength_cons, byteLength_append]
      omega
    · have := ih h
      simp only [byteLength_cons, byteLength_append]
      omega

theorem byteLength_entry {entries : List (String × JsonValue)} (key : String) {v : JsonValue}
    (h : (key, v) ∈ entries) : byteLength (dumps v) ≤ byteLength (dumps (.obj entries)) := by
  cases entries with
  | nil => cases h
  | cons entry entries =>
    obtain ⟨key', w⟩ := entry
    simp only [dumps, dumpsEntries, byteLength_cons, byteLength_append]
    rcases List.mem_cons.mp h with heq | h
    · cases heq
      omega
    · have := byteLength_moreEntries h
      omega

theorem newline_notMem_escapeChar (c : Char) : '\n' ∉ escapeChar c := by
  have hhex : ∀ n, n < 16 → hexDigit n ≠ '\n' := by decide
  unfold escapeChar
  split_ifs with hquote hslash hnewline hreturn htab hback hfeed hcontrol
  case pos => decide
  case pos => decide
  case pos => decide
  case pos => decide
  case pos => decide
  case pos => decide
  case pos => decide
  case pos =>
    have hhigh := hhex (c.toNat / 16) (by omega)
    have hlow := hhex (c.toNat % 16) (by omega)
    simp [hhigh.symm, hlow.symm]
  case neg => simpa using fun h => hnewline h.symm

theorem newline_notMem_writeString (s : String) : '\n' ∉ writeString s := by
  intro h
  simp only [writeString, List.mem_append, List.mem_cons, List.mem_flatMap, List.not_mem_nil,
    or_false] at h
  rcases h with (h | ⟨c, -, h⟩) | h
  · exact absurd h (by decide)
  · exact newline_notMem_escapeChar c h
  · exact absurd h (by decide)

theorem newline_notMem_token {token : List Char} (h : ∀ c ∈ token, isNumberChar c = true) :
    '\n' ∉ token := fun hmem => absurd (h _ hmem) (by decide)

mutual

theorem newline_notMem_dumps : ∀ v : JsonValue, '\n' ∉ dumps v
  | .null => by decide
  | .bool true => by decide
  | .bool false => by decide
  | .int n => newline_notMem_token fun c hc => isNumberChar_of_mem_writeInt hc
  | .float f => newline_notMem_token (token_chars f)
  | .str s => newline_notMem_writeString s
  | .arr [] => by decide
  | .arr (v :: vs) => by
    have hv := newline_notMem_dumps v
    have hvs := newline_notMem_items vs
    simp [dumps, dumpsItems, hv, hvs]
  | .obj [] => by decide
  | .obj ((key, v) :: entries) => by
    have hkey := newline_notMem_writeString key
    have hv := newline_notMem_dumps v
    have hrest := newline_notMem_entries entries
    simp [dumps, dumpsEntries, hkey, hv, hrest]

theorem newline_notMem_items : ∀ vs : List JsonValue, '\n' ∉ dumpsMoreItems vs
  | [] => List.not_mem_nil
  | v :: vs => by
    have hv := newline_notMem_dumps v
    have hvs := newline_notMem_items vs
    simp [dumpsMoreItems, hv, hvs]

theorem newline_notMem_entries : ∀ entries : List (String × JsonValue),
    '\n' ∉ dumpsMoreEntries entries
  | [] => List.not_mem_nil
  | (key, v) :: entries => by
    have hkey := newline_notMem_writeString key
    have hv := newline_notMem_dumps v
    have hrest := newline_notMem_entries entries
    simp [dumpsMoreEntries, hkey, hv, hrest]

end

end JsonText

namespace JsonValue

theorem nesting_arr_le {items : List JsonValue} {n : ℕ} :
    (JsonValue.arr items).nesting ≤ n ↔ ∀ v ∈ items, v.nesting < n := by
  rw [nesting]
  induction items with
  | nil => simp [nestingItems]
  | cons w items ih =>
    rw [nestingItems, Nat.max_le, ih, List.forall_mem_cons]
    exact Iff.rfl

/-- A dictionary is nested as deep as its values are, and one level more. -/
theorem nesting_obj_le {entries : List (String × JsonValue)} {n : ℕ} :
    (JsonValue.obj entries).nesting ≤ n ↔ ∀ entry ∈ entries, entry.2.nesting < n := by
  rw [nesting]
  induction entries with
  | nil => simp [nestingEntries]
  | cons entry entries ih =>
    rw [nestingEntries, Nat.max_le, ih, List.forall_mem_cons]
    exact Iff.rfl

theorem nesting_entry {entries : List (String × JsonValue)} {key : String} {v : JsonValue}
    (h : (key, v) ∈ entries) : v.nesting < (JsonValue.obj entries).nesting :=
  nesting_obj_le.mp (Nat.le_refl _) (key, v) h

end JsonValue

end Matinier
