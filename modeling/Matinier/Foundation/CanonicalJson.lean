import Mathlib.Data.List.Sort
import Mathlib.Data.String.Basic
import Matinier.Foundation.JsonText

/-!
# Canonical JSON

The canonical bytes of a JSON value: the keys of every dictionary in order, no blanks, in UTF-8.
Two values with the same canonical bytes are the same but for the order of keys.
-/

namespace Matinier

abbrev Bytes := List UInt8

namespace JsonValue

mutual

/-- The value with the keys of each dictionary in order. -/
def sortKeys : JsonValue → JsonValue
  | .arr items => .arr (sortKeysItems items)
  | .obj entries =>
    .obj ((sortKeysEntries entries).insertionSort fun entry entry' => entry.1 ≤ entry'.1)
  | v => v

def sortKeysItems : List JsonValue → List JsonValue
  | [] => []
  | v :: vs => sortKeys v :: sortKeysItems vs

def sortKeysEntries : List (String × JsonValue) → List (String × JsonValue)
  | [] => []
  | (key, v) :: entries => (key, sortKeys v) :: sortKeysEntries entries

end

mutual

/-- The value with another literal for each floating-point number. -/
def mapFloats (f : FloatLiteral → FloatLiteral) : JsonValue → JsonValue
  | .float x => .float (f x)
  | .arr items => .arr (mapFloatsItems f items)
  | .obj entries => .obj (mapFloatsEntries f entries)
  | v => v

def mapFloatsItems (f : FloatLiteral → FloatLiteral) : List JsonValue → List JsonValue
  | [] => []
  | v :: vs => mapFloats f v :: mapFloatsItems f vs

def mapFloatsEntries (f : FloatLiteral → FloatLiteral) :
    List (String × JsonValue) → List (String × JsonValue)
  | [] => []
  | (key, v) :: entries => (key, mapFloats f v) :: mapFloatsEntries f entries

end

/-- The same value, whatever the order of keys. -/
def Same (v w : JsonValue) : Prop := sortKeys v = sortKeys w

theorem sortKeysItems_eq (items : List JsonValue) : sortKeysItems items = items.map sortKeys := by
  induction items with
  | nil => rfl
  | cons v vs ih => rw [sortKeysItems, ih, List.map_cons]

theorem sortKeysEntries_eq (entries : List (String × JsonValue)) :
    sortKeysEntries entries = entries.map fun entry => (entry.1, sortKeys entry.2) := by
  induction entries with
  | nil => rfl
  | cons entry entries ih => rw [sortKeysEntries, ih, List.map_cons]

theorem mapFloatsItems_eq (f : FloatLiteral → FloatLiteral) (items : List JsonValue) :
    mapFloatsItems f items = items.map (mapFloats f) := by
  induction items with
  | nil => rfl
  | cons v vs ih => rw [mapFloatsItems, ih, List.map_cons]

theorem mapFloatsEntries_eq (f : FloatLiteral → FloatLiteral)
    (entries : List (String × JsonValue)) :
    mapFloatsEntries f entries = entries.map fun entry => (entry.1, mapFloats f entry.2) := by
  induction entries with
  | nil => rfl
  | cons entry entries ih => rw [mapFloatsEntries, ih, List.map_cons]

theorem unique_sortKeys {v : JsonValue} (h : v.Unique) : (sortKeys v).Unique := by
  induction h with
  | null => exact .null
  | bool b => exact .bool b
  | int n => exact .int n
  | float f => exact .float f
  | str s => exact .str s
  | arr _ ih =>
    rw [sortKeys, sortKeysItems_eq]
    apply Unique.arr
    intro item hitem
    obtain ⟨v, hv, rfl⟩ := List.mem_map.mp hitem
    exact ih v hv
  | @obj entries keys _ ih =>
    rw [sortKeys, sortKeysEntries_eq]
    have hperm := List.perm_insertionSort (fun entry entry' : String × JsonValue =>
      entry.1 ≤ entry'.1) (entries.map fun entry => (entry.1, sortKeys entry.2))
    apply Unique.obj
    · apply ((hperm.map Prod.fst).nodup_iff).mpr
      rwa [List.map_map]
    · intro entry hentry
      obtain ⟨e, he, rfl⟩ := List.mem_map.mp (hperm.mem_iff.mp hentry)
      exact ih e he

theorem unique_mapFloats (f : FloatLiteral → FloatLiteral) {v : JsonValue} (h : v.Unique) :
    (mapFloats f v).Unique := by
  induction h with
  | null => exact .null
  | bool b => exact .bool b
  | int n => exact .int n
  | float x => exact .float (f x)
  | str s => exact .str s
  | arr _ ih =>
    rw [mapFloats, mapFloatsItems_eq]
    apply Unique.arr
    intro item hitem
    obtain ⟨v, hv, rfl⟩ := List.mem_map.mp hitem
    exact ih v hv
  | @obj entries keys _ ih =>
    rw [mapFloats, mapFloatsEntries_eq]
    apply Unique.obj
    · rwa [List.map_map]
    · intro entry hentry
      obtain ⟨e, he, rfl⟩ := List.mem_map.mp hentry
      exact ih e he

end JsonValue

namespace JsonText

open JsonValue

theorem keys_put (entries : List (String × JsonValue)) (entry : String × JsonValue) :
    (put entries entry).map Prod.fst =
      if entry.1 ∈ entries.map Prod.fst then entries.map Prod.fst
      else entries.map Prod.fst ++ [entry.1] := by
  have hany : entries.any (fun e => e.1 = entry.1) = true ↔ entry.1 ∈ entries.map Prod.fst := by
    rw [List.any_eq_true, List.mem_map]
    simp only [decide_eq_true_eq]
  unfold put
  by_cases h : entry.1 ∈ entries.map Prod.fst
  · rw [if_pos (hany.mpr h), if_pos h, List.map_map]
    apply List.map_congr_left
    intro e _
    by_cases he : e.1 = entry.1
    · simp [he]
    · simp [he]
  · rw [if_neg (mt hany.mp h), if_neg h, List.map_append, List.map_singleton]

theorem nodup_put {entries : List (String × JsonValue)} (entry : String × JsonValue)
    (h : (entries.map Prod.fst).Nodup) : ((put entries entry).map Prod.fst).Nodup := by
  rw [keys_put]
  split_ifs with hmem
  · exact h
  · exact List.nodup_append.mpr ⟨h, List.nodup_singleton _, by
      intro a ha b hb
      rw [List.mem_singleton.mp hb]
      exact ne_of_mem_of_not_mem ha hmem⟩

theorem mem_put {entries : List (String × JsonValue)} {entry e : String × JsonValue}
    (h : e ∈ put entries entry) : e = entry ∨ e ∈ entries := by
  unfold put at h
  split_ifs at h
  · obtain ⟨e', he', rfl⟩ := List.mem_map.mp h
    split_ifs with heq
    · exact .inl rfl
    · exact .inr he'
  · rcases List.mem_append.mp h with h | h
    · exact .inr h
    · exact .inl (List.mem_singleton.mp h)

theorem foldl_put_unique (entries d : List (String × JsonValue))
    (hd : (d.map Prod.fst).Nodup) (hunique : ∀ e ∈ d, e.2.Unique)
    (hentries : ∀ e ∈ entries, e.2.Unique) :
    ((entries.foldl put d).map Prod.fst).Nodup ∧ ∀ e ∈ entries.foldl put d, e.2.Unique := by
  induction entries generalizing d with
  | nil => exact ⟨hd, hunique⟩
  | cons entry entries ih =>
    apply ih (put d entry) (nodup_put entry hd)
    · intro e he
      rcases mem_put he with rfl | he
      · exact hentries e List.mem_cons_self
      · exact hunique e he
    · intro e he
      exact hentries e (List.mem_cons_of_mem _ he)

theorem unique_dictionary {entries : List (String × JsonValue)}
    (h : ∀ e ∈ entries, e.2.Unique) : (JsonValue.obj (dictionary entries)).Unique := by
  obtain ⟨hkeys, hvalues⟩ := foldl_put_unique entries [] List.nodup_nil (by simp) h
  exact .obj hkeys hvalues

theorem unique_of_readNumber {token : List Char} {v : JsonValue}
    (h : readNumber token = some v) : v.Unique := by
  unfold readNumber at h
  split_ifs at h
  · cases h
    exact .int _
  · cases h
    exact .float _

/-- What is read with some fuel has no key twice, if what is read with less has none. -/
theorem unique_of_read (fuel : ℕ) :
    (∀ text v rest, readValue fuel text = some (v, rest) → v.Unique) ∧
    (∀ text vs rest, readItems fuel text = some (vs, rest) → ∀ v ∈ vs, v.Unique) ∧
    ∀ text entries rest, readEntries fuel text = some (entries, rest) →
      ∀ e ∈ entries, e.2.Unique := by
  induction fuel with
  | zero =>
    refine ⟨?_, ?_, ?_⟩
    · intro text v rest h
      simp [readValue] at h
    · intro text vs rest h
      simp [readItems] at h
    · intro text entries rest h
      simp [readEntries] at h
  | succ fuel ih =>
    obtain ⟨hvalue, hitems, hentries⟩ := ih
    refine ⟨?_, ?_, ?_⟩
    · intro text v rest h
      rw [readValue] at h
      split at h
      · obtain ⟨read, _, hread⟩ := Option.map_eq_some_iff.mp h
        cases hread
        exact .str _
      · split at h
        · cases h
          exact .arr (by simp)
        · obtain ⟨read, hread, heq⟩ := Option.map_eq_some_iff.mp h
          cases heq
          exact .arr (hitems _ _ _ hread)
      · split at h
        · cases h
          exact .obj List.nodup_nil (by simp)
        · obtain ⟨read, hread, heq⟩ := Option.map_eq_some_iff.mp h
          cases heq
          exact unique_dictionary (hentries _ _ _ hread)
      · cases h
        exact .null
      · cases h
        exact .bool _
      · cases h
        exact .bool _
      · obtain ⟨number, hnumber, heq⟩ := Option.map_eq_some_iff.mp h
        cases heq
        exact unique_of_readNumber hnumber
    · intro text vs rest h
      rw [readItems] at h
      obtain ⟨⟨v, more⟩, hv, h⟩ := Option.bind_eq_some_iff.mp h
      have hunique := hvalue _ _ _ hv
      dsimp only at h
      split at h
      · obtain ⟨⟨vs', more⟩, hvs, h⟩ := Option.bind_eq_some_iff.mp h
        cases h
        exact List.forall_mem_cons.mpr ⟨hunique, hitems _ _ _ hvs⟩
      · cases h
        exact List.forall_mem_cons.mpr ⟨hunique, by simp⟩
      · cases h
    · intro text entries rest h
      rw [readEntries] at h
      split at h
      · obtain ⟨⟨key, more⟩, _, h⟩ := Option.bind_eq_some_iff.mp h
        dsimp only at h
        split at h
        · obtain ⟨⟨v, more⟩, hv, h⟩ := Option.bind_eq_some_iff.mp h
          have hunique := hvalue _ _ _ hv
          dsimp only at h
          split at h
          · obtain ⟨⟨entries', more⟩, he, h⟩ := Option.bind_eq_some_iff.mp h
            cases h
            exact List.forall_mem_cons.mpr ⟨hunique, hentries _ _ _ he⟩
          · cases h
            exact List.forall_mem_cons.mpr ⟨hunique, by simp⟩
          · cases h
        · cases h
      · cases h

/-- A value that is read has no key twice. -/
theorem unique_of_loads {text : List Char} {v : JsonValue} (h : loads text = some v) :
    v.Unique := by
  obtain ⟨⟨w, rest⟩, hread, h⟩ := Option.bind_eq_some_iff.mp h
  split_ifs at h
  cases h
  exact (unique_of_read _).1 _ _ _ hread

/-- Values with the same text are the same. -/
theorem dumps_injective {v w : JsonValue} (hv : v.Unique) (hw : w.Unique)
    (h : dumps v = dumps w) : v = w := by
  have hread := loads_dumps hv [] (by simp)
  rw [List.append_nil, h] at hread
  have hread' := loads_dumps hw [] (by simp)
  rw [List.append_nil, hread] at hread'
  exact Option.some.inj hread'

def encodeUtf8 (text : List Char) : Bytes := text.flatMap String.utf8EncodeChar

theorem encodeUtf8_injective {text text' : List Char} (h : encodeUtf8 text = encodeUtf8 text') :
    text = text' := by
  have hbytes : text.utf8Encode = text'.utf8Encode := by
    rw [List.utf8Encode, List.utf8Encode]
    exact congrArg List.toByteArray h
  have hstring : String.ofList text = String.ofList text' := by
    apply String.toByteArray_inj.mp
    rw [String.toByteArray_ofList, String.toByteArray_ofList, hbytes]
  exact String.ofList_injective hstring

def canonicalJsonBytes (v : JsonValue) : Bytes := encodeUtf8 (dumps (sortKeys v))

end JsonText

end Matinier
