import Matinier.Plugins.PackageSigning

/-!
# The package store

An archive is taken for a package if its entries are safe, its manifest is one of this host's
plugins, its image has the digest the manifest gives, and its signature, if it has one, is good for
all of this.
-/

namespace Matinier
namespace Plugins

open JsonText

/-- A file that may be a ZIP archive: its digest, and its entries if it is one. -/
structure Archive where
  sha256 : Sha256Digest
  infos : Option (List ZipInfo)

/-- The digest of a file. -/
def Archive.hashFile (archive : Archive) : List Char :=
  "sha256:".toList ++ hexdigest archive.sha256

structure VerifiedPackage where
  manifest : PackageManifest
  manifestJson : JsonValue
  manifestHash : List Char
  imageDigest : List Char
  assetsDigest : List Char
  signatureStatus : SignatureStatus
  publisherName : String
  publisherFingerprint : Option (List Char)
  publisherPublicKey : Option String
  contentDigest : List Char
  contents : PackageContents

def manifestPath : PosixPath := ["plugin.json".toList]
def imagePath : PosixPath := ["image.tar".toList]
def assetsPath : PosixPath := ["assets".toList]
def signaturePath : PosixPath := ["signature.json".toList]

def IsAsset (path : PosixPath) : Prop := assetsPath <+: path ∧ path ≠ assetsPath

instance : DecidablePred IsAsset := fun _ => inferInstanceAs (Decidable (_ ∧ _))

theorem posixPath_lawful : LawfulBEq PosixPath := inferInstance

attribute [local instance] posixPath_lawful

def PackageContents.assetValues (contents : PackageContents) : List (List Char × Bytes) :=
  if assetsPath ∈ contents.directories then
    (contents.files.filter fun file => IsAsset file.1).map fun file => (file.1.asPosix, file.2)
  else []

def isObject : JsonValue → Bool
  | .obj _ => true
  | _ => false

/-- An error of a manifest becomes one of the package. -/
def PackageError.asInspection : PackageError → PackageError
  | .value message => .inspection message
  | error => error

namespace PackageLibraries

variable (libraries : PackageLibraries)

def loadManifest (raw : Bytes) : Except PackageError (PackageManifest × JsonValue) := do
  let value ← require (libraries.loads raw) (.value "plugin.json must contain UTF-8 JSON")
  ensure (isObject value = true) (.value "plugin.json root must be an object")
  let manifest ← require (libraries.manifest value)
    (.value "plugin.json does not match manifest schema")
  return (manifest, value)

/-- The envelope of a package, if it is good for what the package contains. -/
def checkSignature (raw : Bytes) (manifest : PackageManifest) (manifestJson : JsonValue)
    (imageDigest packageAssetsDigest : List Char) : Except PackageError SignatureEnvelope := do
  let rawSignature ← require (libraries.loads raw) (.value "")
  let envelope ← require (libraries.envelope rawSignature) (.value "")
  ensure (envelope.publisher = manifest.publisher)
    (.value "signature publisher does not match manifest")
  ensure (envelope.assetsDigest = packageAssetsDigest)
    (.value "signed assets digest does not match package assets")
  libraries.verifySignature envelope manifestJson imageDigest packageAssetsDigest
  return envelope

variable (config : PackageStoreConfig)

def verifyAndExtract (archive : Archive) : Except PackageError VerifiedPackage := do
  let infos ← require archive.infos notSafeZip
  validateEntries config libraries.casefold infos
  let contents ← extractEntries infos
  let rawManifest ← require (contents.file? manifestPath)
    (.inspection "No such file or directory: plugin.json")
  let (manifest, manifestJson) ← (libraries.loadManifest rawManifest).mapError .asInspection
  ensure (hostApiCompatible manifest.hostApi = true)
    (.inspection "plugin is incompatible with this Host API")
  let image ← require (contents.file? imagePath) .other
  let imageDigest := libraries.digest image
  ensure (manifest.imageDigest = imageDigest)
    (.inspection "plugin image digest does not match image.tar")
  let packageAssetsDigest ← libraries.assetsDigest contents.assetValues
  let unsigned : VerifiedPackage := {
    manifest := manifest
    manifestJson := manifestJson
    manifestHash := libraries.digest (canonicalJsonBytes manifestJson)
    imageDigest := imageDigest
    assetsDigest := packageAssetsDigest
    signatureStatus := .unsigned
    publisherName := manifest.publisher
    publisherFingerprint := none
    publisherPublicKey := none
    contentDigest := archive.hashFile
    contents := contents }
  if signaturePath ∉ contents.paths then do
    ensure (config.allowUnsigned = true) (.inspection "unsigned plugin packages are disabled")
    return unsigned
  else do
    let rawSignature ← require (contents.file? signaturePath) .other
    let envelope ← (libraries.checkSignature rawSignature manifest manifestJson imageDigest
      packageAssetsDigest).mapError fun _ => .inspection "plugin package signature is invalid"
    let fingerprint ← libraries.publicKeyFingerprint envelope.publicKey
    return { unsigned with
      signatureStatus := .verified
      publisherName := envelope.publisher
      publisherFingerprint := some fingerprint
      publisherPublicKey := some envelope.publicKey }

end PackageLibraries

/-- The envelope that is found among the contents of a package. -/
def PackageContents.envelope? (contents : PackageContents) (libraries : PackageLibraries) :
    Option SignatureEnvelope := do
  let raw ← contents.file? signaturePath
  let value ← libraries.loads raw
  libraries.envelope value

theorem PackageContents.file?_eq_some {contents : PackageContents} {path : PosixPath}
    {bytes : Bytes} (hc : contents.Contained) :
    contents.file? path = some bytes ↔ (path, bytes) ∈ contents.files := by
  constructor
  · intro h
    obtain ⟨file, hfile, rfl⟩ := Option.map_eq_some_iff.mp h
    have hpath : file.1 = path := by simpa using List.find?_some hfile
    rw [← hpath]
    exact List.mem_of_find?_eq_some hfile
  · intro h
    have hsome : (contents.files.find? fun file => file.1 = path).isSome := by
      rw [List.find?_isSome]
      exact ⟨_, h, by simp⟩
    obtain ⟨file, hfile⟩ := Option.isSome_iff_exists.mp hsome
    have hpath : file.1 = path := by simpa using List.find?_some hfile
    have hmem := List.mem_of_find?_eq_some hfile
    have hinj := List.inj_on_of_nodup_map hc.distinct hmem h hpath
    rw [PackageContents.file?, hfile, hinj, Option.map_some]

namespace PackageLibraries

variable {libraries : PackageLibraries} {config : PackageStoreConfig} {archive : Archive}
  {verified : VerifiedPackage}

/-- What an archive that is taken for a package has been found to be. -/
structure Verified (libraries : PackageLibraries) (config : PackageStoreConfig)
    (archive : Archive) (verified : VerifiedPackage) : Prop where
  entries : ∃ infos, archive.infos = some infos ∧
    validateEntries config libraries.casefold infos = .ok () ∧
    extractEntries infos = .ok verified.contents
  contentDigest : verified.contentDigest = archive.hashFile
  manifest : ∃ raw, verified.contents.file? manifestPath = some raw ∧
    libraries.loads raw = some verified.manifestJson ∧
    libraries.manifest verified.manifestJson = some verified.manifest
  image : ∃ image, verified.contents.file? imagePath = some image ∧
    verified.imageDigest = libraries.digest image
  assets : libraries.assetsDigest verified.contents.assetValues = .ok verified.assetsDigest
  signature : verified.signatureStatus = .verified → ∃ envelope,
    verified.contents.envelope? libraries = some envelope ∧
    libraries.verifySignature envelope verified.manifestJson verified.imageDigest
      verified.assetsDigest = .ok () ∧
    libraries.publicKeyFingerprint envelope.publicKey = .ok (verified.publisherFingerprint.getD [])
  unsigned : verified.signatureStatus = .unsigned → signaturePath ∉ verified.contents.paths

theorem loadManifest_ok {raw : Bytes} {manifest : PackageManifest} {value : JsonValue}
    (h : libraries.loadManifest raw = .ok (manifest, value)) :
    libraries.loads raw = some value ∧ libraries.manifest value = some manifest := by
  simp only [loadManifest, bind_eq_ok, require_eq_ok, ensure_eq_ok, pure_eq_ok,
    Prod.mk.injEq] at h
  obtain ⟨_, hload, _, _, _, hschema, rfl, rfl⟩ := h
  exact ⟨hload, hschema⟩

theorem checkSignature_ok {raw : Bytes} {manifest : PackageManifest} {value : JsonValue}
    {imageDigest assetsDigest : List Char} {envelope : SignatureEnvelope}
    (h : libraries.checkSignature raw manifest value imageDigest assetsDigest = .ok envelope) :
    (libraries.loads raw).bind libraries.envelope = some envelope ∧
      libraries.verifySignature envelope value imageDigest assetsDigest = .ok () := by
  simp only [checkSignature, bind_eq_ok, require_eq_ok, ensure_eq_ok, pure_eq_ok] at h
  obtain ⟨_, hload, _, henvelope, _, _, _, _, _, hverify, rfl⟩ := h
  rw [hload, Option.bind_some]
  exact ⟨henvelope, hverify⟩

theorem verifyAndExtract_ok (h : libraries.verifyAndExtract config archive = .ok verified) :
    Verified libraries config archive verified := by
  simp only [verifyAndExtract, bind_eq_ok, require_eq_ok, ensure_eq_ok, mapError_eq_ok] at h
  obtain ⟨infos, hinfos, _, hvalid, contents, hextract, raw, hraw, ⟨manifest, value⟩, hmanifest, _,
    _, image, himage, _, _, assetsDigest, hassets, h⟩ := h
  obtain ⟨hload, hschema⟩ := loadManifest_ok hmanifest
  have hentries : ∃ infos, archive.infos = some infos ∧
      validateEntries config libraries.casefold infos = .ok () ∧
      extractEntries infos = .ok contents := ⟨infos, hinfos, hvalid, hextract⟩
  split_ifs at h with hsigned
  · simp only [bind_eq_ok, require_eq_ok, mapError_eq_ok, pure_eq_ok] at h
    obtain ⟨rawSignature, hsignature, envelope, hcheck, fingerprint, hfingerprint, rfl⟩ := h
    obtain ⟨henvelope, hverify⟩ := checkSignature_ok hcheck
    exact {
      entries := hentries
      contentDigest := rfl
      manifest := ⟨raw, hraw, hload, hschema⟩
      image := ⟨image, himage, rfl⟩
      assets := hassets
      signature := fun _ => by
        refine ⟨envelope, ?_, hverify, hfingerprint⟩
        rw [PackageContents.envelope?, hsignature]
        exact henvelope
      unsigned := fun hstatus => by cases hstatus }
  · simp only [bind_eq_ok, ensure_eq_ok, pure_eq_ok] at h
    obtain ⟨_, _, rfl⟩ := h
    exact {
      entries := hentries
      contentDigest := rfl
      manifest := ⟨raw, hraw, hload, hschema⟩
      image := ⟨image, himage, rfl⟩
      assets := hassets
      signature := fun hstatus => by cases hstatus
      unsigned := fun _ => hsigned }

end PackageLibraries

end Plugins
end Matinier
