import Mathlib.Data.Rat.Defs

/-!
# JSON values

The values a JSON column holds, with equality as the source compares them: a
truth value equals the number it stands for, and the order of the keys of an
object does not matter.
-/

namespace Matinier

/-- A JSON value. An object lists its entries, each key once. -/
inductive Json where
  | null
  | bool (value : Bool)
  | num (value : ℤ)
  | float (value : ℚ)
  | str (value : String)
  | arr (items : List Json)
  | obj (entries : List (String × Json))
  deriving Inhabited

namespace Json

def lookup (key : String) : List (String × Json) → Option Json
  | [] => none
  | (k, v) :: rest => if k = key then some v else lookup key rest

/-- The value under a key; anything but an object has none. -/
def get? (key : String) : Json → Option Json
  | .obj entries => lookup key entries
  | _ => none

def text? : Json → Option String
  | .str s => some s
  | _ => none

mutual

def eqv : Json → Json → Bool
  | .null, .null => true
  | .bool a, .bool b => a = b
  | .bool a, .num n => (if a then 1 else 0) = n
  | .num n, .bool b => n = (if b then 1 else 0)
  | .num n, .num m => n = m
  | .float a, .bool b => a = (if b then 1 else 0)
  | .bool a, .float b => (if a then 1 else 0) = b
  | .float a, .num n => a = n
  | .num n, .float a => n = a
  | .float a, .float b => a = b
  | .str s, .str t => s = t
  | .arr xs, .arr ys => eqvItems xs ys
  | .obj xs, .obj ys => xs.length = ys.length && eqvEntries xs ys
  | _, _ => false

def eqvItems : List Json → List Json → Bool
  | [], [] => true
  | x :: xs, y :: ys => eqv x y && eqvItems xs ys
  | _, _ => false

/-- Every entry of the first object is in the second, under the same key. -/
def eqvEntries : List (String × Json) → List (String × Json) → Bool
  | [], _ => true
  | (k, v) :: rest, ys =>
    (match lookup k ys with
     | some w => eqv v w
     | none => false) && eqvEntries rest ys

end

/-- Induction over a value: over the items of a list and the values of an object. -/
@[elab_as_elim]
theorem induction {motive : Json → Prop} (null : motive .null) (bool : ∀ b, motive (.bool b))
    (num : ∀ n, motive (.num n)) (float : ∀ q, motive (.float q)) (str : ∀ s, motive (.str s))
    (arr : ∀ items : List Json, (∀ item ∈ items, motive item) → motive (.arr items))
    (obj : ∀ entries : List (String × Json), (∀ entry ∈ entries, motive entry.2) →
      motive (.obj entries)) : ∀ j, motive j
  | .null => null
  | .bool b => bool b
  | .num n => num n
  | .float q => float q
  | .str s => str s
  | .arr items => arr items fun item _ => induction null bool num float str arr obj item
  | .obj entries => obj entries fun entry hentry =>
      have hsmall : sizeOf entry.2 < 1 + sizeOf entries := by
        have hmem := List.sizeOf_lt_of_mem hentry
        obtain ⟨key, value⟩ := entry
        simp only [Prod.mk.sizeOf_spec] at hmem ⊢
        omega
      induction null bool num float str arr obj entry.2

/-- Each key of an object occurs once, at every depth, as in a dictionary. -/
inductive KeysUnique : Json → Prop
  | null : KeysUnique .null
  | bool (b : Bool) : KeysUnique (.bool b)
  | num (n : ℤ) : KeysUnique (.num n)
  | float (q : ℚ) : KeysUnique (.float q)
  | str (s : String) : KeysUnique (.str s)
  | arr {items : List Json} (h : ∀ item ∈ items, KeysUnique item) : KeysUnique (.arr items)
  | obj {entries : List (String × Json)} (keys : (entries.map Prod.fst).Nodup)
      (h : ∀ entry ∈ entries, KeysUnique entry.2) : KeysUnique (.obj entries)

theorem lookup_of_mem {entries : List (String × Json)} {entry : String × Json}
    (hkeys : (entries.map Prod.fst).Nodup) (hentry : entry ∈ entries) :
    lookup entry.1 entries = some entry.2 := by
  induction entries with
  | nil => cases hentry
  | cons first rest ih =>
    rw [List.map_cons, List.nodup_cons] at hkeys
    rcases List.mem_cons.mp hentry with rfl | hrest
    · simp [lookup]
    · have hne : first.1 ≠ entry.1 := fun heq =>
        hkeys.1 (heq ▸ List.mem_map_of_mem hrest)
      rw [lookup, if_neg hne]
      exact ih hkeys.2 hrest

theorem mem_of_lookup {entries : List (String × Json)} {key : String} {value : Json}
    (h : lookup key entries = some value) : (key, value) ∈ entries := by
  induction entries with
  | nil => cases h
  | cons first rest ih =>
    obtain ⟨k, v⟩ := first
    rw [lookup] at h
    by_cases hk : k = key
    · rw [if_pos hk] at h
      cases h
      exact hk ▸ List.mem_cons_self
    · rw [if_neg hk] at h
      exact List.mem_cons_of_mem _ (ih h)

end Json
end Matinier
