import Mathlib.Data.Rat.Lemmas
import Mathlib.Algebra.Order.Ring.Rat
import Matinier.Foundation.CanonicalJson
import Matinier.Foundation.Checked
import Matinier.Foundation.PosixPath

/-!
# Plugin archives

The entries of a plugin package are checked as a whole and then extracted one by one. Whatever the
names of the entries are, nothing is written outside the directory that they are extracted to.
-/

namespace Matinier
namespace Plugins

inductive PackageError where
  | inspection (message : String)
  | value (message : String)
  | lookup (message : String)
  | other
  deriving DecidableEq

structure PackageStoreConfig where
  packagesDir : String
  allowUnsigned : Bool := false
  maxEntries : ℕ := 2000
  maxCompressedBytes : ℕ := 512 * 1024 * 1024
  maxUncompressedBytes : ℕ := 2 * 1024 * 1024 * 1024
  maxCompressionRatio : ℚ := 200

/-- An entry of a ZIP archive. It has no content if it cannot be read. -/
structure ZipInfo where
  filename : String
  externalAttr : ℕ
  compressSize : ℕ
  fileSize : ℕ
  content : Option Bytes

def ZipInfo.isDir (info : ZipInfo) : Bool := info.filename.toList.getLast? = some '/'

/-- The file type in a mode is that of a symbolic link. -/
def isLink (unixMode : ℕ) : Bool := unixMode &&& 0o170000 = 0o120000

def hasDrive : List Char → Bool
  | c :: ':' :: _ => c.isAlpha
  | _ => false

def safeMemberName (name : String) : Except PackageError (List Char) := do
  ensure (name ≠ "" ∧ '\x00' ∉ name.toList ∧ '\\' ∉ name.toList)
    (.inspection "plugin package contains an unsafe path")
  ensure (name.toList.head? ≠ some '/' ∧ hasDrive name.toList = false)
    (.inspection "plugin package contains an absolute path")
  let path := PosixPath.ofText name.toList
  ensure (∀ part ∈ path, part ≠ [] ∧ part ≠ ['.'] ∧ part ≠ ['.', '.'])
    (.inspection "plugin package contains path traversal")
  return path.asPosix

/-- What the entries looked at so far come to. -/
structure EntryTotals where
  names : List (List Char) := []
  compressed : ℕ := 0
  uncompressed : ℕ := 0

section

variable (config : PackageStoreConfig) (casefold : List Char → List Char)

def validateEntry (totals : EntryTotals) (info : ZipInfo) : Except PackageError EntryTotals := do
  let normalized ← safeMemberName info.filename
  let key := casefold normalized
  ensure (key ∉ totals.names) (.inspection "plugin package contains duplicate entries")
  ensure (isLink (info.externalAttr >>> 16) = false)
    (.inspection "plugin package cannot contain links")
  ensure (info.fileSize = 0 ∨
      (info.fileSize : ℚ) / (max info.compressSize 1 : ℕ) ≤ config.maxCompressionRatio)
    (.inspection "plugin package exceeds compression ratio limit")
  return {
    names := totals.names ++ [key]
    compressed := totals.compressed + info.compressSize
    uncompressed := totals.uncompressed + info.fileSize }

def validateEntries (infos : List ZipInfo) : Except PackageError Unit := do
  ensure (infos.length ≤ config.maxEntries) (.inspection "plugin package has too many entries")
  let totals ← infos.foldlM (validateEntry config casefold) {}
  ensure (totals.compressed ≤ config.maxCompressedBytes)
    (.inspection "plugin package exceeds compressed size limit")
  ensure (totals.uncompressed ≤ config.maxUncompressedBytes)
    (.inspection "plugin package exceeds uncompressed size limit")
  ensure ("plugin.json".toList ∈ totals.names ∧ "image.tar".toList ∈ totals.names)
    (.inspection "plugin package is missing required entries")

end

/-- What is below the directory that a package is extracted to. -/
structure PackageContents where
  directories : List PosixPath := []
  files : List (PosixPath × Bytes) := []

def notSafeZip : PackageError := .inspection "plugin package is not a valid safe ZIP"

namespace PackageContents

variable (contents : PackageContents)

def paths : List PosixPath := contents.directories ++ contents.files.map Prod.fst

def file? (path : PosixPath) : Option Bytes :=
  (contents.files.find? fun file => file.1 = path).map Prod.snd

def mkdirs (path : PosixPath) : Except PackageError PackageContents := do
  ensure (∀ file ∈ contents.files, ¬ file.1 <+: path) notSafeZip
  return { contents with
    directories := contents.directories ++
      path.inits.filter fun around => around ≠ [] ∧ around ∉ contents.directories }

/-- Write a file that is not there yet. -/
def createFile (path : PosixPath) (bytes : Bytes) : Except PackageError PackageContents := do
  ensure (path ≠ [] ∧ path ∉ contents.paths) notSafeZip
  return { contents with files := contents.files ++ [(path, bytes)] }

def extractEntry (info : ZipInfo) : Except PackageError PackageContents := do
  let normalized ← safeMemberName info.filename
  let target := PosixPath.ofText normalized
  if info.isDir = true then contents.mkdirs target
  else do
    let contents ← contents.mkdirs target.dropLast
    let bytes ← require info.content notSafeZip
    contents.createFile target bytes

end PackageContents

def extractEntries (infos : List ZipInfo) : Except PackageError PackageContents :=
  infos.foldlM PackageContents.extractEntry {}

theorem safeMemberName_ok {name : String} {normalized : List Char}
    (h : safeMemberName name = .ok normalized) :
    (PosixPath.ofText normalized).Proper ∧
      PosixPath.ofText normalized = PosixPath.ofText name.toList := by
  simp only [safeMemberName, bind_eq_ok, ensure_eq_ok, pure_eq_ok] at h
  obtain ⟨_, _, _, _, _, hparts, rfl⟩ := h
  have hproper : (PosixPath.ofText name.toList).Proper := by
    apply PosixPath.proper_ofText
    intro hup
    exact (hparts _ hup).2.2 rfl
  rw [PosixPath.ofText_asPosix hproper]
  exact ⟨hproper, rfl⟩

section

variable {config : PackageStoreConfig} {casefold : List Char → List Char}

theorem validateEntry_ok {totals totals' : EntryTotals} {info : ZipInfo}
    (h : validateEntry config casefold totals info = .ok totals') :
    ∃ normalized, safeMemberName info.filename = .ok normalized ∧
      casefold normalized ∉ totals.names ∧
      totals'.names = totals.names ++ [casefold normalized] := by
  simp only [validateEntry, bind_eq_ok, ensure_eq_ok, pure_eq_ok] at h
  obtain ⟨normalized, hname, _, hnew, _, _, _, _, rfl⟩ := h
  exact ⟨normalized, hname, hnew, rfl⟩

/-- The names in the totals are those of the entries, and there are no two alike. -/
theorem validateEntry_foldlM {infos : List ZipInfo} {totals totals' : EntryTotals}
    (hnodup : totals.names.Nodup)
    (h : infos.foldlM (validateEntry config casefold) totals = .ok totals') :
    ∃ names, List.Forall₂ (fun info name => safeMemberName info.filename = .ok name) infos names ∧
      totals'.names = totals.names ++ names.map casefold ∧ totals'.names.Nodup := by
  induction infos generalizing totals with
  | nil =>
    cases h
    exact ⟨[], .nil, by simp, hnodup⟩
  | cons info infos ih =>
    rw [List.foldlM_cons, bind_eq_ok] at h
    obtain ⟨next, hnext, h⟩ := h
    obtain ⟨normalized, hname, hnew, hnames⟩ := validateEntry_ok hnext
    have hnodup' : next.names.Nodup := by
      rw [hnames, List.nodup_append]
      refine ⟨hnodup, List.nodup_singleton _, ?_⟩
      intro a ha b hb
      rw [List.mem_singleton.mp hb]
      exact ne_of_mem_of_not_mem ha hnew
    obtain ⟨names, hall, htotals, hfinal⟩ := ih hnodup' h
    refine ⟨normalized :: names, .cons hname hall, ?_, hfinal⟩
    rw [htotals, hnames, List.map_cons, List.append_assoc, List.singleton_append]

theorem validateEntries_ok {infos : List ZipInfo}
    (h : validateEntries config casefold infos = .ok ()) :
    ∃ names, List.Forall₂ (fun info name => safeMemberName info.filename = .ok name) infos names ∧
      (names.map casefold).Nodup := by
  simp only [validateEntries, bind_eq_ok, ensure_eq_ok] at h
  obtain ⟨_, _, totals, hfold, _⟩ := h
  obtain ⟨names, hall, htotals, hnodup⟩ := validateEntry_foldlM List.nodup_nil hfold
  rw [htotals, List.nil_append] at hnodup
  exact ⟨names, hall, hnodup⟩

end

namespace PackageContents

variable {contents contents' : PackageContents} {path : PosixPath}

/-- The directories around something are there. -/
def HasAround (contents : PackageContents) (path : PosixPath) : Prop :=
  ∀ around, around <+: path → around ≠ [] → around ∈ contents.directories

/-- Everything is inside, no file is there twice, and each is in a directory. -/
structure Contained (contents : PackageContents) : Prop where
  proper : ∀ path ∈ contents.paths, path.Proper ∧ path ≠ []
  distinct : (contents.files.map Prod.fst).Nodup
  around : ∀ file ∈ contents.files, contents.HasAround file.1.dropLast

theorem contained_empty : Contained {} where
  proper := by simp [paths]
  distinct := List.nodup_nil
  around := by simp

theorem mkdirs_ok (h : contents.mkdirs path = .ok contents') (hc : contents.Contained)
    (hpath : path.Proper) : contents'.Contained ∧ contents'.HasAround path := by
  simp only [mkdirs, bind_eq_ok, ensure_eq_ok, pure_eq_ok] at h
  obtain ⟨_, _, rfl⟩ := h
  refine ⟨⟨?_, hc.distinct, ?_⟩, ?_⟩
  · intro p hp
    simp only [paths, List.mem_append] at hp
    rcases hp with (hp | hp) | hp
    · exact hc.proper p (List.mem_append_left _ hp)
    · obtain ⟨hinit, hnew⟩ := List.mem_filter.mp hp
      have hprefix : p <+: path := List.mem_inits _ _ |>.mp hinit
      exact ⟨PosixPath.proper_prefix hpath hprefix, (by simpa using hnew : _ ∧ _).1⟩
    · exact hc.proper p (List.mem_append_right _ hp)
  · intro file hfile p hp hnil
    exact List.mem_append_left _ (hc.around file hfile p hp hnil)
  · intro p hp hnil
    by_cases hold : p ∈ contents.directories
    · exact List.mem_append_left _ hold
    · apply List.mem_append_right
      rw [List.mem_filter]
      exact ⟨(List.mem_inits _ _).mpr hp, by simp [hnil, hold]⟩

theorem createFile_ok {bytes : Bytes} (h : contents.createFile path bytes = .ok contents')
    (hc : contents.Contained) (hpath : path.Proper) (haround : contents.HasAround path.dropLast) :
    contents'.Contained := by
  simp only [createFile, bind_eq_ok, ensure_eq_ok, pure_eq_ok] at h
  obtain ⟨_, ⟨hnil, hnew⟩, rfl⟩ := h
  have hnew' : path ∉ contents.files.map Prod.fst := fun hmem =>
    hnew (List.mem_append_right _ hmem)
  constructor
  · intro p hp
    simp only [paths, List.map_append, List.map_singleton, List.mem_append,
      List.mem_singleton] at hp
    rcases hp with hp | hp | rfl
    · exact hc.proper p (List.mem_append_left _ hp)
    · exact hc.proper p (List.mem_append_right _ hp)
    · exact ⟨hpath, hnil⟩
  · rw [List.map_append, List.map_singleton, List.nodup_append]
    refine ⟨hc.distinct, List.nodup_singleton _, ?_⟩
    intro a ha b hb
    rw [List.mem_singleton.mp hb]
    exact ne_of_mem_of_not_mem ha hnew'
  · intro file hfile
    rcases List.mem_append.mp hfile with hfile | hfile
    · exact hc.around file hfile
    · rw [List.mem_singleton.mp hfile]
      exact haround

theorem extractEntry_ok {info : ZipInfo} (h : contents.extractEntry info = .ok contents')
    (hc : contents.Contained) : contents'.Contained := by
  simp only [extractEntry, bind_eq_ok] at h
  obtain ⟨normalized, hname, h⟩ := h
  have hproper := (safeMemberName_ok hname).1
  split_ifs at h
  · exact (mkdirs_ok h hc hproper).1
  · simp only [bind_eq_ok] at h
    obtain ⟨made, hmade, bytes, _, h⟩ := h
    have haround := PosixPath.proper_prefix hproper (List.dropLast_prefix _)
    obtain ⟨hmade, hthere⟩ := mkdirs_ok hmade hc haround
    exact createFile_ok h hmade hproper hthere

end PackageContents

theorem extractEntries_contained {infos : List ZipInfo} {contents : PackageContents}
    (h : extractEntries infos = .ok contents) : contents.Contained :=
  foldlM_invariant (fun _ _ _ _ hc hstep => PackageContents.extractEntry_ok hstep hc)
    PackageContents.contained_empty h

end Plugins
end Matinier
