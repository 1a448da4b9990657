import Mathlib.Data.List.Dedup
import Mathlib.Data.List.Infix
import Matinier.Foundation.CanonicalJson
import Matinier.Foundation.LastWins
import Matinier.Packages.Delivery

/-!
# Packages as ZIP archives

A package is exported as an archive of its documents and of what is rendered from them, with the
checksums of all of these in a file of their own. The archive is verified against its checksums.
-/

namespace Matinier
namespace Packages

open Assistant (Fault)
open JsonText JsonValue

/-- Files by path, in the order in which they are written; a later one replaces an earlier one. -/
abbrev Files := List (String × Bytes)

def Files.read (files : Files) (path : String) : Option Bytes :=
  (lastAt Prod.fst files path).map Prod.snd

def Files.paths (files : Files) : List String :=
  (files.map Prod.fst).dedup.insertionSort (· ≤ ·)

/-- The files in the order of their paths. -/
def Files.sorted (files : Files) : Files := files.paths.filterMap (lastAt Prod.fst files)

def decodeUtf8 (bytes : Bytes) : Option (List Char) :=
  (String.fromUTF8? bytes.toByteArray).map String.toList

def jsonFile (value : JsonValue) : Bytes := encodeUtf8 (dumps (sortKeys value) ++ ['\n'])

def readJson (bytes : Bytes) : Option JsonValue := (decodeUtf8 bytes).bind loads

def hasSuffix (ending text : String) : Bool := ending.toList.isSuffixOf text.toList

def removeSuffix (ending text : String) : String :=
  String.ofList (text.toList.take (text.toList.length - ending.toList.length))

def removePrefix (start text : String) : String :=
  if start.toList.isPrefixOf text.toList then String.ofList (text.toList.drop start.toList.length)
  else text

def safeLanguage (value : String) : String :=
  String.ofList (value.toList.map fun c => if c.isAlphanum || c = '-' then c else '_')

def documentPath (document : PackageDocument) : String :=
  match document.documentKind with
  | .sourceRaw => "documents/source.raw.json"
  | .sourceApproved => "documents/source.approved.json"
  | .liveTranslation =>
    "documents/translation." ++ safeLanguage (document.language.getD "") ++ ".live.json"
  | .timelineIndex => "indexes/timeline.json"
  | .evidenceIndex => "indexes/evidence.json"
  | .sessionMetadata => "metadata/session.json"
  | .providerMetadata => "metadata/providers.json"
  | .metricsMetadata => "metadata/metrics.json"

/-- The document as it is dumped. -/
def PackageDocument.json (document : PackageDocument) : JsonValue :=
  .obj [("document_id", .str document.documentId),
    ("language", (document.language.map JsonValue.str).getD .null),
    ("content_hash", .str document.contentHash),
    ("document_kind", .str document.documentKind.text), ("content", .obj document.content)]

structure TranscriptPackage where
  packageVersion : ℕ
  manifest : JsonValue
  effectiveSourceDocumentId : String
  documents : List PackageDocument

/-- How subtitles and notes are rendered from a document with a transcript. -/
structure Renderers where
  srt : TranscriptPackage → PackageDocument → Bytes
  vtt : TranscriptPackage → PackageDocument → Bytes
  markdown : TranscriptPackage → PackageDocument → Bytes

/-- The exporter, with what it uses: a validator, which lists what is wrong with a package, the
renderers and the hash. -/
structure PackageZipExporter where
  validate : TranscriptPackage → List String
  render : Renderers
  sha256Hex : Bytes → String

namespace TranscriptPackage

variable (package : TranscriptPackage)

def root : String := "package-v" ++ toString package.packageVersion ++ "/"

def sourceDocument : Option PackageDocument :=
  lastAt PackageDocument.documentId (package.documents.filter fun document =>
    document.documentKind = .sourceRaw ∨ document.documentKind = .sourceApproved)
    package.effectiveSourceDocumentId

def translations : List PackageDocument :=
  (package.documents.filter fun document => document.documentKind = .liveTranslation).insertionSort
    fun a b => a.language.getD "" ≤ b.language.getD ""

end TranscriptPackage

namespace PackageZipExporter

variable (exporter : PackageZipExporter)

def files (package : TranscriptPackage) (source : PackageDocument) : Files :=
  ("manifest.json", jsonFile package.manifest) ::
    package.documents.map (fun document => (documentPath document, jsonFile document.json)) ++
    [("rendered/source.srt", exporter.render.srt package source),
      ("rendered/source.vtt", exporter.render.vtt package source),
      ("rendered/source.md", exporter.render.markdown package source)] ++
    package.translations.map fun document =>
      ("rendered/translation." ++ safeLanguage (document.language.getD "") ++ ".srt",
        exporter.render.srt package document)

def checksums (files : Files) : JsonValue :=
  .obj [("algorithm", .str "sha256"), ("files", .obj (files.sorted.map fun file =>
    (file.1, .str (exporter.sha256Hex file.2))))]

def withChecksums (files : Files) : Files :=
  files ++ [("checksums.json", jsonFile (exporter.checksums files))]

/-- The entries of the archive. -/
def archive (package : TranscriptPackage) (files : Files) : Files :=
  (exporter.withChecksums files).sorted.map fun file => (package.root ++ file.1, file.2)

def exportZip (package : TranscriptPackage) : Except Fault Files := do
  ensure (exporter.validate package = [])
    (.value ("; ".intercalate (exporter.validate package)))
  let source ← require package.sourceDocument (.value "Package has no effective source document")
  pure (exporter.archive package (exporter.files package source))

end PackageZipExporter

/-- What is wrong with the file that has a checksum. -/
def checksumError (sha256Hex : Bytes → String) (archive : Files) (root : String)
    (entry : String × JsonValue) : Option String :=
  match archive.read (root ++ entry.1) with
  | none => none
  | some content =>
    match entry.2 with
    | .str expected =>
      if sha256Hex content ≠ expected then some ("checksum mismatch: " ++ entry.1) else none
    | _ => some ("checksum mismatch: " ++ entry.1)

/-- The names of the entries that should have a checksum, without the root. -/
def expectedFiles (archive : Files) (root name : String) : List String :=
  ((archive.map Prod.fst).filter fun other => other ≠ name).map (removePrefix root)

def verifyPackageZip (sha256Hex : Bytes → String) (archive : Files) :
    Except Fault (Bool × List String) :=
  match (archive.map Prod.fst).filter (hasSuffix "checksums.json") with
  | [name] => do
    let root := removeSuffix "checksums.json" name
    let payload ← require ((archive.read name).bind readJson) (.value "JSONDecodeError")
    match payload with
    | .obj payload =>
      match lookup "algorithm" payload, lookup "files" payload with
      | some (.str "sha256"), some (.obj files) =>
        let expected := expectedFiles archive root name
        let errors := if (∀ path ∈ files.map Prod.fst, path ∈ expected) ∧
            ∀ path ∈ expected, path ∈ files.map Prod.fst then []
          else ["checksums file index does not match ZIP entries"]
        let errors := errors ++ files.filterMap (checksumError sha256Hex archive root)
        pure (decide (errors = []), errors)
      | _, _ => pure (false, ["checksums.json has an invalid schema"])
    | _ => .error (.runtime "AttributeError")
  | _ => pure (false, ["ZIP must contain exactly one checksums.json"])

theorem decodeUtf8_encodeUtf8 (text : List Char) : decodeUtf8 (encodeUtf8 text) = some text := by
  have hbytes : (encodeUtf8 text).toByteArray = (String.ofList text).toByteArray := by
    rw [String.toByteArray_ofList]
    rfl
  have hvalid : (encodeUtf8 text).toByteArray.IsValidUTF8 :=
    hbytes ▸ (String.ofList text).isValidUTF8
  have hstring : String.fromUTF8 _ hvalid = String.ofList text :=
    String.toByteArray_inj.mp hbytes
  rw [decodeUtf8, String.fromUTF8?, dif_pos hvalid, hstring, Option.map_some, String.toList_ofList]

theorem readJson_jsonFile {value : JsonValue} (h : value.Unique) :
    readJson (jsonFile value) = some (sortKeys value) := by
  rw [readJson, jsonFile, decodeUtf8_encodeUtf8]
  refine loads_dumps (unique_sortKeys h) ['\n'] fun c hc => ?_
  rw [List.mem_singleton.mp hc]
  rfl

theorem Files.sorted_paths (files : Files) : files.sorted.map Prod.fst = files.paths := by
  rw [Files.sorted, List.map_filterMap]
  have hread : ∀ path ∈ files.paths,
      (lastAt Prod.fst files path).map Prod.fst = some path := by
    intro path hpath
    obtain ⟨file, hfile, hkey⟩ :=
      List.mem_map.mp (List.mem_dedup.mp ((List.mem_insertionSort _).mp hpath))
    cases hlast : lastAt Prod.fst files path with
    | none => exact absurd hkey (lastAt_eq_none.mp hlast file hfile)
    | some last => rw [Option.map_some, (mem_of_lastAt hlast).2]
  rw [List.filterMap_congr hread, List.filterMap_some]

theorem Files.nodup_sorted (files : Files) : (files.sorted.map Prod.fst).Nodup := by
  rw [files.sorted_paths]
  exact (List.perm_insertionSort _ _).nodup_iff.mpr (List.nodup_dedup _)

theorem Files.mem_sorted {files : Files} {file : String × Bytes} (h : file ∈ files.sorted) :
    lastAt Prod.fst files file.1 = some file := by
  obtain ⟨path, -, hlast⟩ := List.mem_filterMap.mp h
  rwa [(mem_of_lastAt hlast).2]

theorem Files.mem_paths {files : Files} {path : String} :
    path ∈ files.sorted.map Prod.fst ↔ path ∈ files.map Prod.fst := by
  rw [files.sorted_paths, Files.paths, List.mem_insertionSort, List.mem_dedup]

theorem Files.mem_sorted_of_read {files : Files} {path : String} {file : String × Bytes}
    (h : lastAt Prod.fst files path = some file) : file ∈ files.sorted := by
  obtain ⟨hmem, rfl⟩ := mem_of_lastAt h
  have hpath := files.sorted_paths ▸ Files.mem_paths.mpr (List.mem_map_of_mem hmem)
  exact List.mem_filterMap.mpr ⟨file.1, hpath, h⟩

theorem removeSuffix_append (root ending : String) :
    removeSuffix ending (root ++ ending) = root := by
  simp [removeSuffix]

theorem removePrefix_append (root path : String) : removePrefix root (root ++ path) = path := by
  simp [removePrefix]

theorem hasSuffix_iff {ending text : String} :
    hasSuffix ending text = true ↔ ending.toList <:+ text.toList :=
  List.isSuffixOf_iff_suffix

/-- A path that ends otherwise does not end like the path of the checksums. -/
theorem hasSuffix_checksums {root path : String} (front last : String) (h : path = front ++ last)
    (hlength : last.toList.length ≤ 14) (hlast : hasSuffix last "checksums.json" = false) :
    hasSuffix "checksums.json" (root ++ path) = false := by
  rw [Bool.eq_false_iff] at hlast ⊢
  intro hsuffix
  have hall := hasSuffix_iff.mp hsuffix
  rw [h, ← String.append_assoc, String.toList_append] at hall
  exact hlast (hasSuffix_iff.mpr
    (List.suffix_of_suffix_length_le (List.suffix_append _ _) hall hlength))

theorem hasSuffix_documentPath (root : String) (document : PackageDocument) :
    hasSuffix "checksums.json" (root ++ documentPath document) = false := by
  unfold documentPath
  cases document.documentKind with
  | liveTranslation => exact hasSuffix_checksums _ ".live.json" rfl (by decide) (by decide)
  | sourceRaw =>
    exact hasSuffix_checksums "documents/source" ".raw.json" (by simp) (by decide) (by decide)
  | sourceApproved =>
    exact hasSuffix_checksums "documents/source.appr" "oved.json" (by simp) (by decide) (by decide)
  | timelineIndex =>
    exact hasSuffix_checksums "indexes/tim" "eline.json" (by simp) (by decide) (by decide)
  | evidenceIndex =>
    exact hasSuffix_checksums "indexes/evid" "ence.json" (by simp) (by decide) (by decide)
  | sessionMetadata =>
    exact hasSuffix_checksums "metadata/ses" "sion.json" (by simp) (by decide) (by decide)
  | providerMetadata =>
    exact hasSuffix_checksums "metadata/provi" "ders.json" (by simp) (by decide) (by decide)
  | metricsMetadata =>
    exact hasSuffix_checksums "metadata/me" "trics.json" (by simp) (by decide) (by decide)

theorem hasSuffix_files (exporter : PackageZipExporter) (root : String)
    (package : TranscriptPackage) (source : PackageDocument) {path : String}
    (h : path ∈ (exporter.files package source).map Prod.fst) :
    hasSuffix "checksums.json" (root ++ path) = false := by
  simp only [PackageZipExporter.files, List.map_append, List.map_cons, List.map_nil, List.map_map,
    List.mem_append, List.mem_cons, List.mem_map, List.not_mem_nil, or_false] at h
  rcases h with ((rfl | ⟨document, -, rfl⟩) | rfl | rfl | rfl) | ⟨document, -, rfl⟩
  · exact hasSuffix_checksums "mani" "fest.json" (by simp) (by decide) (by decide)
  · exact hasSuffix_documentPath root document
  · exact hasSuffix_checksums "rendered/source" ".srt" (by simp) (by decide) (by decide)
  · exact hasSuffix_checksums "rendered/source" ".vtt" (by simp) (by decide) (by decide)
  · exact hasSuffix_checksums "rendered/source" ".md" (by simp) (by decide) (by decide)
  · exact hasSuffix_checksums _ ".srt" rfl (by decide) (by decide)

section Verification

variable {exporter : PackageZipExporter} {package : TranscriptPackage} {files extra : Files}

theorem archive_names : (exporter.archive package files).map Prod.fst =
    ((exporter.withChecksums files).sorted.map Prod.fst).map (package.root ++ ·) := by
  rw [PackageZipExporter.archive, List.map_map, List.map_map]
  rfl

theorem nodup_archive : ((exporter.archive package files).map Prod.fst).Nodup := by
  rw [archive_names]
  exact (Files.nodup_sorted _).map fun a b h => (String.append_right_inj _).mp h

theorem mem_archive (file : String × Bytes)
    (h : lastAt Prod.fst (exporter.withChecksums files) file.1 = some file) :
    (package.root ++ file.1, file.2) ∈ exporter.archive package files :=
  List.mem_map.mpr ⟨file, Files.mem_sorted_of_read h, rfl⟩

/-- Entries from outside the root are not read instead of a file below it. -/
theorem read_archive (hextra : ∀ entry ∈ extra,
      package.root.toList.isPrefixOf entry.1.toList = false)
    (file : String × Bytes)
    (h : lastAt Prod.fst (exporter.withChecksums files) file.1 = some file) :
    (exporter.archive package files ++ extra).read (package.root ++ file.1) = some file.2 := by
  have hother : lastAt Prod.fst extra (package.root ++ file.1) = none := by
    refine lastAt_eq_none.mpr fun entry hentry heq => ?_
    have houtside := hextra entry hentry
    rw [heq, String.toList_append, Bool.eq_false_iff] at houtside
    exact houtside (List.isPrefixOf_iff_prefix.mpr (List.prefix_append _ _))
  rw [Files.read, lastAt_append, hother, Option.none_or,
    lastAt_of_mem nodup_archive (mem_archive file h)]
  rfl

theorem read_checksums (exporter : PackageZipExporter) (files : Files) :
    lastAt Prod.fst (exporter.withChecksums files) "checksums.json" =
      some ("checksums.json", jsonFile (exporter.checksums files)) := by
  rw [PackageZipExporter.withChecksums, lastAt_append]
  simp [lastAt]

theorem read_withChecksums (file : String × Bytes) (hpath : file.1 ≠ "checksums.json")
    (h : lastAt Prod.fst files file.1 = some file) :
    lastAt Prod.fst (exporter.withChecksums files) file.1 = some file := by
  rw [PackageZipExporter.withChecksums, lastAt_append, h]
  simp [lastAt, hpath.symm]

/-- The names of the archive are those of the files below the root. -/
theorem mem_archive_names {name : String} :
    name ∈ (exporter.archive package files).map Prod.fst ↔
      ∃ path, (path ∈ files.map Prod.fst ∨ path = "checksums.json") ∧
        name = package.root ++ path := by
  have hpaths : ∀ path, path ∈ (exporter.withChecksums files).sorted.map Prod.fst ↔
      path ∈ files.map Prod.fst ∨ path = "checksums.json" := by
    intro path
    rw [Files.mem_paths, PackageZipExporter.withChecksums, List.map_append, List.mem_append,
      List.map_singleton, List.mem_singleton]
  rw [archive_names, List.mem_map]
  exact exists_congr fun path => and_congr (hpaths path) eq_comm

theorem read_checksums_json (exporter : PackageZipExporter) (files : Files) : ∃ entries,
    readJson (jsonFile (exporter.checksums files)) = some
      (.obj [("algorithm", .str "sha256"), ("files", .obj entries)]) ∧
      entries.Perm (files.sorted.map fun file => (file.1, .str (exporter.sha256Hex file.2))) := by
  have hunique : (exporter.checksums files).Unique := by
    refine .obj (by simp) ?_
    simp only [List.forall_mem_cons]
    refine ⟨.str _, .obj ?_ ?_, by simp⟩
    · rw [List.map_map]
      exact files.nodup_sorted
    · intro entry hentry
      obtain ⟨file, -, rfl⟩ := List.mem_map.mp hentry
      exact .str _
  refine ⟨(files.sorted.map fun file => (file.1, .str (exporter.sha256Hex file.2))).insertionSort
    fun entry entry' => entry.1 ≤ entry'.1, (readJson_jsonFile hunique).trans ?_,
    List.perm_insertionSort _ _⟩
  have horder : "algorithm" ≤ "files" := by decide
  simp [PackageZipExporter.checksums, sortKeys, sortKeysEntries, sortKeysEntries_eq,
    List.insertionSort, horder, Function.comp_def]

/-- With its checksums read, an archive is accepted where these list its files and match them. -/
theorem verifyPackageZip_iff {sha256Hex : Bytes → String} {archive : Files} {root : String}
    {entries : List (String × JsonValue)} {errors : List String}
    (hnames : (archive.map Prod.fst).filter (hasSuffix "checksums.json") =
      [root ++ "checksums.json"])
    (hpayload : (archive.read (root ++ "checksums.json")).bind readJson =
      some (.obj [("algorithm", .str "sha256"), ("files", .obj entries)])) :
    verifyPackageZip sha256Hex archive = .ok (true, errors) ↔ errors = [] ∧
      ((∀ path ∈ entries.map Prod.fst,
        path ∈ expectedFiles archive root (root ++ "checksums.json")) ∧
      ∀ path ∈ expectedFiles archive root (root ++ "checksums.json"),
        path ∈ entries.map Prod.fst) ∧
      entries.filterMap (checksumError sha256Hex archive root) = [] := by
  rw [verifyPackageZip, hnames]
  dsimp only
  rw [removeSuffix_append, hpayload]
  have halgorithm : lookup "algorithm" [("algorithm", .str "sha256"), ("files", .obj entries)] =
    some (.str "sha256") := rfl
  have hfiles : lookup "files" [("algorithm", .str "sha256"), ("files", .obj entries)] =
    some (.obj entries) := rfl
  simp only [require, ok_bind, halgorithm, hfiles, pure_eq_ok, Prod.mk.injEq, decide_eq_true_eq]
  split_ifs with hindex
  · rw [List.nil_append]
    constructor
    · rintro ⟨hnone, heq⟩
      exact ⟨heq ▸ hnone, hindex, hnone⟩
    · rintro ⟨hnone, -, h⟩
      exact ⟨h, h.trans hnone.symm⟩
  · exact ⟨fun h => absurd h.1 (List.cons_ne_nil _ _), fun h => absurd h.2.1 hindex⟩

/-- Nothing of the archive but its checksums is named like checksums, and what is added is outside
the root, under the path of a file. -/
structure Plain (package : TranscriptPackage) (files extra : Files) : Prop where
  names : ∀ path ∈ files.map Prod.fst, hasSuffix "checksums.json" (package.root ++ path) = false
  added : ∀ entry ∈ extra, hasSuffix "checksums.json" entry.1 = false
  outside : ∀ entry ∈ extra, package.root.toList.isPrefixOf entry.1.toList = false
  paths : ∀ entry ∈ extra, entry.1 ∈ files.map Prod.fst

theorem hasSuffix_root (root : String) :
    hasSuffix "checksums.json" (root ++ "checksums.json") = true :=
  hasSuffix_iff.mpr (String.toList_append ▸ List.suffix_append _ _)

theorem Plain.no_checksums (h : Plain package files extra) :
    "checksums.json" ∉ files.map Prod.fst := by
  intro hmem
  have hsuffix := hasSuffix_root package.root
  rw [h.names _ hmem] at hsuffix
  cases hsuffix

theorem Plain.checksum_names (h : Plain package files extra) :
    ((exporter.archive package files ++ extra).map Prod.fst).filter
      (hasSuffix "checksums.json") = [package.root ++ "checksums.json"] := by
  have hnone : (extra.map Prod.fst).filter (hasSuffix "checksums.json") = [] := by
    refine List.filter_eq_nil_iff.mpr fun name hname => ?_
    obtain ⟨entry, hentry, rfl⟩ := List.mem_map.mp hname
    rw [h.added entry hentry]
    exact Bool.false_ne_true
  rw [List.map_append, List.filter_append, hnone, List.append_nil]
  refine List.perm_singleton.mp ((List.perm_ext_iff_of_nodup (nodup_archive.filter _)
    (List.nodup_singleton _)).mpr fun name => ?_)
  rw [List.mem_filter, mem_archive_names, List.mem_singleton]
  constructor
  · rintro ⟨⟨path, hpath | rfl, rfl⟩, hsuffix⟩
    · rw [h.names path hpath] at hsuffix
      cases hsuffix
    · rfl
  · rintro rfl
    exact ⟨⟨_, .inr rfl, rfl⟩, hasSuffix_root package.root⟩

theorem Plain.expected_files (h : Plain package files extra) (path : String) :
    path ∈ expectedFiles (exporter.archive package files ++ extra) package.root
      (package.root ++ "checksums.json") ↔ path ∈ files.map Prod.fst := by
  rw [expectedFiles, List.map_append, List.filter_append, List.map_append, List.mem_append]
  simp only [List.mem_map (f := removePrefix package.root), List.mem_filter, decide_eq_true_eq,
    mem_archive_names]
  constructor
  · rintro (⟨_, ⟨⟨other, hother, rfl⟩, hne⟩, rfl⟩ | ⟨_, ⟨hname, -⟩, rfl⟩)
    · rw [removePrefix_append]
      exact hother.resolve_right fun heq => hne (heq ▸ rfl)
    · obtain ⟨entry, hentry, rfl⟩ := List.mem_map.mp hname
      rw [removePrefix, h.outside entry hentry, if_neg Bool.false_ne_true]
      exact h.paths entry hentry
  · intro hpath
    refine .inl ⟨_, ⟨⟨path, .inl hpath, rfl⟩, fun heq => ?_⟩, removePrefix_append _ _⟩
    exact h.no_checksums ((String.append_right_inj _).mp heq ▸ hpath)

/-- Whatever is added outside the root under the path of a file, the archive is accepted. -/
theorem verify_accepts (h : Plain package files extra) :
    verifyPackageZip exporter.sha256Hex (exporter.archive package files ++ extra) =
      .ok (true, []) := by
  obtain ⟨entries, hjson, hentries⟩ := read_checksums_json exporter files
  have hread : ∀ file, lastAt Prod.fst (exporter.withChecksums files) file.1 = some file →
      (exporter.archive package files ++ extra).read (package.root ++ file.1) = some file.2 :=
    read_archive h.outside
  have hkeys : ∀ path, path ∈ entries.map Prod.fst ↔ path ∈ files.map Prod.fst := by
    intro path
    rw [(hentries.map Prod.fst).mem_iff, List.map_map, ← Files.mem_paths]
    rfl
  have herrors : entries.filterMap (checksumError exporter.sha256Hex
      (exporter.archive package files ++ extra) package.root) = [] := by
    refine List.filterMap_eq_nil_iff.mpr fun entry hentry => ?_
    obtain ⟨file, hfile, rfl⟩ := List.mem_map.mp (hentries.mem_iff.mp hentry)
    have hne : file.1 ≠ "checksums.json" := fun heq =>
      h.no_checksums (heq ▸ Files.mem_paths.mp (List.mem_map_of_mem hfile))
    have hcontent := hread file (read_withChecksums file hne (Files.mem_sorted hfile))
    simp only [checksumError, hcontent]
    simp
  have hpayload := hread ("checksums.json", _) (read_checksums exporter files)
  refine (verifyPackageZip_iff h.checksum_names ?_).mpr
    ⟨rfl, ⟨fun path hpath => (h.expected_files path).mpr ((hkeys path).mp hpath),
      fun path hpath => (hkeys path).mpr ((h.expected_files path).mp hpath)⟩, herrors⟩
  rw [hpayload, Option.bind_some, hjson]

end Verification

/-- Entries have been added, removed or changed, other than the checksums. -/
def Altered (root : String) (archive altered : Files) : Prop :=
  ¬ altered.Perm archive ∧ ∀ content,
    (root ++ "checksums.json", content) ∈ altered ↔ (root ++ "checksums.json", content) ∈ archive

def SafePath (path : String) : Prop :=
  ∀ part ∈ path.toList.splitOn '/', part ≠ [] ∧ part ≠ ['.'] ∧ part ≠ ['.', '.']

/-- The archive is accepted, the documents are read back from it, and nothing else is accepted with
its checksums. -/
structure SelfVerifying (exporter : PackageZipExporter) (package : TranscriptPackage)
    (archive : Files) : Prop where
  accepted : verifyPackageZip exporter.sha256Hex archive = .ok (true, [])
  safe : ∀ document ∈ package.documents, SafePath (documentPath document)
  distinct : (package.documents.map documentPath).Nodup
  readBack : ∀ document ∈ package.documents,
    (archive.read (package.root ++ documentPath document)).bind readJson =
      some (sortKeys document.json)
  rejected : ∀ altered, Altered package.root archive altered →
    ∀ errors, verifyPackageZip exporter.sha256Hex altered ≠ .ok (true, errors)

section Alterations

variable {exporter : PackageZipExporter} {package : TranscriptPackage} {files altered : Files}
  {errors : List String}

/-- What is accepted with the checksums of an archive has the files of this, and nothing under the
name of one that has another hash. -/
theorem verify_lists (hnodup : (altered.map Prod.fst).Nodup)
    (hchecksums : (package.root ++ "checksums.json", jsonFile (exporter.checksums files)) ∈ altered)
    (h : verifyPackageZip exporter.sha256Hex altered = .ok (true, errors)) :
    (∀ path ∈ files.map Prod.fst,
      path ∈ expectedFiles altered package.root (package.root ++ "checksums.json")) ∧
    ∀ path content, path ≠ "checksums.json" → (package.root ++ path, content) ∈ altered →
      ∃ file ∈ files.sorted, file.1 = path ∧
        exporter.sha256Hex content = exporter.sha256Hex file.2 := by
  have hnames : (altered.map Prod.fst).filter (hasSuffix "checksums.json") =
      [package.root ++ "checksums.json"] := by
    have hmem : package.root ++ "checksums.json" ∈
        (altered.map Prod.fst).filter (hasSuffix "checksums.json") :=
      List.mem_filter.mpr ⟨List.mem_map_of_mem hchecksums, hasSuffix_root package.root⟩
    unfold verifyPackageZip at h
    split at h
    · rename_i name hname
      rw [hname] at hmem ⊢
      rw [List.mem_singleton.mp hmem]
    · cases h
  obtain ⟨entries, hjson, hentries⟩ := read_checksums_json exporter files
  have hread : ∀ entry ∈ altered, altered.read entry.1 = some entry.2 := fun entry hentry =>
    congrArg (Option.map Prod.snd) (lastAt_of_mem hnodup hentry)
  have hpayload := hread _ hchecksums
  obtain ⟨-, ⟨hindex, hindex'⟩, herrors⟩ :=
    (verifyPackageZip_iff hnames (by rw [hpayload, Option.bind_some, hjson])).mp h
  refine ⟨fun path hpath => hindex path ?_, fun path content hpath hcontent => ?_⟩
  · rw [(hentries.map Prod.fst).mem_iff, List.map_map]
    exact Files.mem_paths.mpr hpath
  · have hne : package.root ++ path ≠ package.root ++ "checksums.json" := fun heq =>
      hpath ((String.append_right_inj _).mp heq)
    obtain ⟨listed, hlisted, rfl⟩ := List.mem_map.mp (hindex' path (List.mem_map.mpr ⟨_,
      List.mem_filter.mpr ⟨List.mem_map_of_mem hcontent, decide_eq_true hne⟩,
      removePrefix_append _ _⟩))
    obtain ⟨file, hfile, rfl⟩ := List.mem_map.mp (hentries.mem_iff.mp hlisted)
    have herror := List.filterMap_eq_nil_iff.mp herrors _ hlisted
    rw [checksumError, hread _ hcontent] at herror
    exact ⟨file, hfile, rfl, by simpa using herror⟩

/-- The checksums of the archive that is exported accept no other archive in which every entry has
a name of its own below the root. -/
theorem verify_rejects (hsha : Function.Injective exporter.sha256Hex)
    (haltered : Altered package.root (exporter.archive package files) altered)
    (hunder : ∀ entry ∈ altered, ∃ path, entry.1 = package.root ++ path)
    (hnodup : (altered.map Prod.fst).Nodup) :
    verifyPackageZip exporter.sha256Hex altered ≠ .ok (true, errors) := by
  intro haccepted
  have hchecksums : (package.root ++ "checksums.json", jsonFile (exporter.checksums files)) ∈
      altered := (haltered.2 _).mpr (mem_archive ("checksums.json", _) (read_checksums _ _))
  obtain ⟨hlists, hlisted⟩ := verify_lists hnodup hchecksums haccepted
  have hkept : ∀ entry ∈ altered, entry ∈ exporter.archive package files := by
    rintro ⟨name, content⟩ hentry
    obtain ⟨path, rfl⟩ := hunder _ hentry
    by_cases hpath : path = "checksums.json"
    · subst hpath
      exact (haltered.2 content).mp hentry
    · obtain ⟨file, hfile, rfl, hsame⟩ := hlisted path content hpath hentry
      rw [hsha hsame]
      exact mem_archive file (read_withChecksums file hpath (Files.mem_sorted hfile))
  have hthere : ∀ entry ∈ exporter.archive package files, entry ∈ altered := by
    intro entry hentry
    have hname : entry.1 ∈ altered.map Prod.fst := by
      obtain ⟨path, hpath | rfl, hname⟩ :=
        mem_archive_names.mp (List.mem_map_of_mem (f := Prod.fst) hentry)
      · obtain ⟨_, hmem, rfl⟩ := List.mem_map.mp (hlists path hpath)
        obtain ⟨other, hother, rfl⟩ := List.mem_map.mp (List.mem_filter.mp hmem).1
        obtain ⟨path', hpath'⟩ := hunder other hother
        rw [hpath', removePrefix_append, ← hpath'] at hname
        exact hname ▸ List.mem_map_of_mem hother
      · exact hname ▸ List.mem_map_of_mem hchecksums
    obtain ⟨other, hother, heq⟩ := List.mem_map.mp hname
    exact List.inj_on_of_nodup_map nodup_archive (hkept other hother) hentry heq ▸ hother
  exact haltered.1 ((List.perm_ext_iff_of_nodup hnodup.of_map nodup_archive.of_map).mpr
    fun entry => ⟨hkept entry, hthere entry⟩)

end Alterations

theorem head_documentPath (document : PackageDocument) :
    (documentPath document).toList.head? ≠ some 'r' := by
  unfold documentPath
  cases document.documentKind with
  | liveTranslation => simp
  | _ => dsimp only; decide

theorem read_documentPath (exporter : PackageZipExporter) {package : TranscriptPackage}
    (source : PackageDocument) (hdistinct : (package.documents.map documentPath).Nodup)
    {document : PackageDocument} (h : document ∈ package.documents) :
    lastAt Prod.fst (exporter.files package source) (documentPath document) =
      some (documentPath document, jsonFile document.json) := by
  have hdocument : lastAt Prod.fst
      (package.documents.map fun document => (documentPath document, jsonFile document.json))
      (documentPath document) = some (documentPath document, jsonFile document.json) :=
    lastAt_of_mem (by rwa [List.map_map]) (List.mem_map_of_mem h)
  have hrendered : ∀ entry ∈ [("rendered/source.srt", exporter.render.srt package source),
      ("rendered/source.vtt", exporter.render.vtt package source),
      ("rendered/source.md", exporter.render.markdown package source)] ++
      package.translations.map fun document =>
        ("rendered/translation." ++ safeLanguage (document.language.getD "") ++ ".srt",
          exporter.render.srt package document), entry.1 ≠ documentPath document := by
    intro entry hentry heq
    refine head_documentPath document (heq ▸ ?_)
    simp only [List.mem_append, List.mem_cons, List.mem_map, List.not_mem_nil, or_false] at hentry
    rcases hentry with (rfl | rfl | rfl) | ⟨translation, -, rfl⟩
    · simp
    · simp
    · simp
    · simp
  rw [PackageZipExporter.files, List.append_assoc, lastAt_append, lastAt_eq_none.mpr hrendered,
    Option.none_or, lastAt, hdocument, Option.some_or]

theorem safePath_documentPath (document : PackageDocument) : SafePath (documentPath document) := by
  unfold documentPath SafePath
  cases document.documentKind with
  | liveTranslation =>
    have hlanguage : '/' ∉ (safeLanguage (document.language.getD "")).toList := by
      simp only [safeLanguage, String.toList_ofList, List.mem_map, not_exists, not_and]
      intro c _ hc
      split_ifs at hc with hsafe
      · rw [hc] at hsafe
        exact absurd hsafe (by decide)
      · exact absurd hc (by decide)
    have hparts : ("documents/translation." ++ safeLanguage (document.language.getD "") ++
        ".live.json").toList = ['/'].intercalate ["documents".toList, "translation.".toList ++
          (safeLanguage (document.language.getD "")).toList ++ ".live.json".toList] := by
      simp
    dsimp only
    rw [hparts, List.splitOn_intercalate '/' (by simp [hlanguage]) (by simp)]
    simp
  | _ => dsimp only; decide

/-- The paths of exported documents are safe, and those that are told apart by them are read back.
Where no two contents have the same hash, nothing else is accepted in which every entry has a name
of its own below the root. -/
theorem export_verified {exporter : PackageZipExporter} {package : TranscriptPackage}
    {archive : Files} (h : exporter.exportZip package = .ok archive) :
    (∀ document ∈ package.documents, SafePath (documentPath document)) ∧
      ((package.documents.map documentPath).Nodup → ∀ document ∈ package.documents,
        document.json.Unique →
          (archive.read (package.root ++ documentPath document)).bind readJson =
            some (sortKeys document.json)) ∧
      (Function.Injective exporter.sha256Hex → ∀ altered, Altered package.root archive altered →
        (∀ entry ∈ altered, ∃ path, entry.1 = package.root ++ path) →
        (altered.map Prod.fst).Nodup →
          ∀ errors, verifyPackageZip exporter.sha256Hex altered ≠ .ok (true, errors)) := by
  simp only [PackageZipExporter.exportZip, bind_eq_ok, pure_eq_ok] at h
  obtain ⟨-, -, source, -, rfl⟩ := h
  refine ⟨fun document _ => safePath_documentPath document,
    fun hdistinct document hdocument hunique => ?_,
    fun hsha altered haltered hunder hnodup errors => verify_rejects hsha haltered hunder hnodup⟩
  have hne : documentPath document ≠ "checksums.json" := fun heq => by
    have hsuffix := hasSuffix_documentPath package.root document
    rw [heq, hasSuffix_root] at hsuffix
    cases hsuffix
  have hread : (exporter.archive package (exporter.files package source) ++ []).read
      (package.root ++ documentPath document) = some (jsonFile document.json) :=
    read_archive (List.forall_mem_nil _) (documentPath document, _) (read_withChecksums
      (documentPath document, _) hne (read_documentPath exporter source hdistinct hdocument))
  rw [List.append_nil] at hread
  rw [hread, Option.bind_some, readJson_jsonFile hunique]

/-- An archive that is exported is accepted, also with a manifest added outside the root. -/
theorem export_accepts {exporter : PackageZipExporter} {package : TranscriptPackage}
    {archive : Files} (h : exporter.exportZip package = .ok archive) :
    verifyPackageZip exporter.sha256Hex archive = .ok (true, []) ∧
      ∀ manifest, Altered package.root archive (archive ++ [("manifest.json", manifest)]) ∧
        verifyPackageZip exporter.sha256Hex (archive ++ [("manifest.json", manifest)]) =
          .ok (true, []) := by
  simp only [PackageZipExporter.exportZip, bind_eq_ok, pure_eq_ok] at h
  obtain ⟨-, -, source, -, rfl⟩ := h
  have hname : hasSuffix "checksums.json" "manifest.json" = false := by decide
  have houtside : package.root.toList.isPrefixOf "manifest.json".toList = false := by
    simp [TranscriptPackage.root, List.isPrefixOf]
  have hpath : "manifest.json" ∈ (exporter.files package source).map Prod.fst := by
    simp [PackageZipExporter.files]
  have hplain : ∀ extra : Files, (∀ entry ∈ extra, entry.1 = "manifest.json") →
      Plain package (exporter.files package source) extra := fun extra hextra =>
    { names := fun _ hpath => hasSuffix_files exporter package.root package source hpath
      added := fun entry hentry => (hextra entry hentry).symm ▸ hname
      outside := fun entry hentry => (hextra entry hentry).symm ▸ houtside
      paths := fun entry hentry => (hextra entry hentry).symm ▸ hpath }
  have haccepts : verifyPackageZip exporter.sha256Hex
      (exporter.archive package (exporter.files package source) ++ []) = .ok (true, []) :=
    verify_accepts (hplain [] (List.forall_mem_nil _))
  rw [List.append_nil] at haccepts
  refine ⟨haccepts, fun manifest => ⟨⟨?_, ?_⟩, verify_accepts (hplain _ ?_)⟩⟩
  · intro hperm
    have hlength := hperm.length_eq
    rw [List.length_append, List.length_singleton] at hlength
    omega
  · intro content
    rw [List.mem_append, List.mem_singleton, or_iff_left]
    intro heq
    have hsuffix := hasSuffix_root package.root
    rw [(Prod.mk.inj heq).1, hname] at hsuffix
    cases hsuffix
  · intro entry hentry
    rw [List.mem_singleton.mp hentry]

/-- No archive that is exported is verified by its checksums, whatever the package and the hash
are: it is accepted, but so it is with another manifest. -/
theorem export_not_selfVerifying (exporter : PackageZipExporter) (package : TranscriptPackage)
    {archive : Files} (h : exporter.exportZip package = .ok archive) :
    verifyPackageZip exporter.sha256Hex archive = .ok (true, []) ∧
      ¬ SelfVerifying exporter package archive := by
  obtain ⟨haccepts, hadded⟩ := export_accepts h
  exact ⟨haccepts, fun hverifying => hverifying.rejected _ (hadded []).1 _ (hadded []).2⟩

/-- An exporter that accepts every package and renders nothing; its hash is the content. -/
def plainExporter : PackageZipExporter where
  validate := fun _ => []
  render := ⟨fun _ _ => [], fun _ _ => [], fun _ _ => []⟩
  sha256Hex := fun bytes => String.ofList (dumps (.arr (bytes.map fun byte => .int byte.toNat)))

def digest (value : JsonValue) : String := plainExporter.sha256Hex (canonicalJsonBytes value)

/-- A document of a session in which nothing was said. -/
def silentDocument (kind : DocumentKind) (language : Option String)
    (content : List (String × JsonValue))
    (h : lookup "items" content = some (.arr []) ∨ lookup "items" content = none) :
    PackageDocument where
  documentId := kind.text
  documentKind := kind
  language := language
  contentHash := digest (.obj [("document_kind", .str kind.text),
    ("language", (language.map JsonValue.str).getD .null), ("content", .obj content)])
  content := content
  objects := by
    intro items hitems item hitem
    rcases h with h | h
    · rw [h] at hitems
      cases hitems
      cases hitem
    · rw [h] at hitems
      cases hitems

def silentDocuments : List PackageDocument :=
  [silentDocument .evidenceIndex none [("items", .arr [])] (.inl rfl),
    silentDocument .metricsMetadata none silentMetrics (.inr rfl),
    silentDocument .providerMetadata none silentProviders (.inr rfl),
    silentDocument .sessionMetadata none silentSession (.inr rfl),
    silentDocument .sourceRaw (some "en") [("items", .arr [])] (.inl rfl),
    silentDocument .timelineIndex none [("duration_ms", .int 0), ("items", .arr [])] (.inl rfl)]

/-- The index of the documents, with the identities of these or without. -/
def silentIndex (identities : Bool) : JsonValue :=
  .arr (silentDocuments.map fun document => .obj (
    (if identities then [("document_id", .str document.documentId)] else []) ++
    [("document_kind", .str document.documentKind.text),
      ("language", (document.language.map JsonValue.str).getD .null),
      ("content_hash", .str document.contentHash)]))

def silentPackage : TranscriptPackage where
  packageVersion := 1
  manifest := .obj (silentManifest (digest (.obj [
    ("schema_name", .str "matinier.transcript-package"), ("schema_version", .str "1.0"),
    ("package_version", .int 1), ("session_id", .str "s1"), ("source_revision_id", .null),
    ("documents", silentIndex false)])) (silentIndex true))
  effectiveSourceDocumentId := "source_raw"
  documents := silentDocuments

theorem silentPackage_exported : ∃ archive, plainExporter.exportZip silentPackage = .ok archive ∧
    verifyPackageZip plainExporter.sha256Hex archive = .ok (true, []) ∧
      ¬ SelfVerifying plainExporter silentPackage archive :=
  ⟨_, rfl, export_not_selfVerifying plainExporter silentPackage rfl⟩

/-- The archive of the package is accepted with an entry that was added. -/
theorem silentPackage_not_selfVerifying :
    ¬ ∀ (exporter : PackageZipExporter) (package : TranscriptPackage) (archive : Files),
      Function.Injective exporter.sha256Hex → exporter.exportZip package = .ok archive →
        SelfVerifying exporter package archive := by
  intro h
  obtain ⟨archive, hexport⟩ : ∃ archive, plainExporter.exportZip silentPackage = .ok archive :=
    ⟨_, rfl⟩
  obtain ⟨-, hadded⟩ := export_accepts hexport
  have hunique : ∀ bytes : Bytes,
      (JsonValue.arr (bytes.map fun byte => .int byte.toNat)).Unique := by
    refine fun bytes => .arr fun value hvalue => ?_
    obtain ⟨byte, -, rfl⟩ := List.mem_map.mp hvalue
    exact .int _
  have hinjective : Function.Injective plainExporter.sha256Hex := by
    intro a b heq
    have hvalues := dumps_injective (hunique a) (hunique b) (String.ofList_injective heq)
    refine List.map_injective_iff.mpr (fun x y hxy => ?_) (JsonValue.arr.inj hvalues)
    exact UInt8.toNat_inj.mp (Int.ofNat.inj (JsonValue.int.inj hxy))
  have hverifying := h plainExporter silentPackage archive hinjective hexport
  exact hverifying.rejected _ (hadded []).1 _ (hadded []).2

end Packages
end Matinier
