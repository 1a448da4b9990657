import Mathlib.Data.List.Infix

/-!
# Relative paths

The components of a path, what is written for them, and where a path leads from a directory.
A path whose components are all proper leads to something inside the directory.
-/

namespace Matinier

/-- The components of a path, the outermost first. -/
abbrev PosixPath := List (List Char)

namespace PosixPath

/-- Empty components and single dots are dropped; a component that leads up is kept. -/
def ofText (text : List Char) : PosixPath :=
  (text.splitOn '/').filter fun part => part ≠ [] ∧ part ≠ ['.']

def asPosix (path : PosixPath) : List Char :=
  if path = [] then ['.'] else ['/'].intercalate path

/-- Where a path leads from a directory. -/
def walk (directory : PosixPath) : PosixPath → PosixPath
  | [] => directory
  | part :: rest =>
    if part = [] ∨ part = ['.'] then walk directory rest
    else if part = ['.', '.'] then walk directory.dropLast rest
    else walk (directory ++ [part]) rest

/-- What a path leads to is in the directory, and is not the directory itself. -/
def StrictlyInside (path : PosixPath) : Prop :=
  ∀ directory, ∃ rest, rest ≠ [] ∧ walk directory path = directory ++ rest

/-- A component that names something in a directory. -/
structure ProperPart (part : List Char) : Prop where
  nonempty : part ≠ []
  notHere : part ≠ ['.']
  notUp : part ≠ ['.', '.']
  single : '/' ∉ part

def Proper (path : PosixPath) : Prop := ∀ part ∈ path, ProperPart part

variable {path : PosixPath} {text : List Char}

theorem slash_notMem_splitOn (text : List Char) : ∀ part ∈ text.splitOn '/', '/' ∉ part := by
  induction text with
  | nil =>
    intro part hpart
    rw [List.splitOn_nil, List.mem_singleton] at hpart
    simp [hpart]
  | cons c rest ih =>
    rw [List.splitOn_cons_eq_if_modifyHead]
    obtain ⟨first, more, hmore⟩ := List.exists_cons_of_ne_nil (List.splitOn_ne_nil '/' rest)
    rw [hmore] at ih ⊢
    split_ifs with hc
    · exact List.forall_mem_cons.mpr ⟨List.not_mem_nil, ih⟩
    · rw [List.modifyHead_cons]
      obtain ⟨hfirst, hmore⟩ := List.forall_mem_cons.mp ih
      refine List.forall_mem_cons.mpr ⟨?_, hmore⟩
      rw [List.mem_cons, not_or]
      exact ⟨fun h => hc (beq_iff_eq.mpr h.symm), hfirst⟩

theorem proper_ofText (h : ['.', '.'] ∉ ofText text) : Proper (ofText text) := by
  intro part hpart
  have hmem := List.mem_filter.mp hpart
  have hne : part ≠ [] ∧ part ≠ ['.'] := by simpa using hmem.2
  exact {
    nonempty := hne.1
    notHere := hne.2
    notUp := fun hup => h (hup ▸ hpart)
    single := slash_notMem_splitOn text part hmem.1 }

theorem asPosix_of_ne (h : path ≠ []) : asPosix path = ['/'].intercalate path := if_neg h

/-- The components of what is written for proper components are these. -/
theorem ofText_asPosix (h : Proper path) : ofText (asPosix path) = path := by
  by_cases hnil : path = []
  · rw [hnil]
    decide
  · have hsplit : (['/'].intercalate path).splitOn '/' = path :=
      List.splitOn_intercalate '/' (fun part hpart => (h part hpart).single) hnil
    rw [asPosix_of_ne hnil, ofText, hsplit, List.filter_eq_self]
    intro part hpart
    simp [(h part hpart).nonempty, (h part hpart).notHere]

theorem asPosix_injective {path' : PosixPath} (h : Proper path) (h' : Proper path')
    (heq : asPosix path = asPosix path') : path = path' := by
  rw [← ofText_asPosix h, heq, ofText_asPosix h']

theorem walk_proper (h : Proper path) (directory : PosixPath) :
    walk directory path = directory ++ path := by
  induction path generalizing directory with
  | nil => rw [walk, List.append_nil]
  | cons part rest ih =>
    obtain ⟨hpart, hrest⟩ := List.forall_mem_cons.mp h
    rw [walk, if_neg (not_or.mpr ⟨hpart.nonempty, hpart.notHere⟩), if_neg hpart.notUp,
      ih hrest, List.append_assoc, List.singleton_append]

theorem strictlyInside_of_proper (h : Proper path) (hnil : path ≠ []) : StrictlyInside path :=
  fun directory => ⟨path, hnil, walk_proper h directory⟩

theorem proper_prefix {path' : PosixPath} (h : Proper path) (hsub : path' <+: path) :
    Proper path' :=
  fun part hpart => h part (hsub.subset hpart)

example : ¬ StrictlyInside ["a".toList, "..".toList, "..".toList, "b".toList] := by
  intro h
  obtain ⟨rest, _, hrest⟩ := h ["c".toList]
  exact absurd hrest (by simp [walk])

end PosixPath

end Matinier
