import Matinier.Plugins.PackageStore

/-!
# What a signature covers

Two packages with the same signature envelope have the same image, the same assets, and manifests
that are the same JSON value. Other files, such as a README, are in neither digest.
-/

namespace Matinier
namespace Plugins

open JsonText

/-- The files that a signature covers byte by byte. -/
def Covered (path : PosixPath) : Prop := path = imagePath ∨ IsAsset path

/-- The strings that are hashed for the image and the assets. -/
def PackageContents.Hashed (contents : PackageContents) (libraries : PackageLibraries)
    (bytes : Bytes) : Prop :=
  contents.file? imagePath = some bytes ∨
  (∃ name, (name, bytes) ∈ contents.assetValues) ∨
  libraries.assetsMaterial contents.assetValues = .ok bytes

/-- No two of the strings that are hashed for two packages have the same digest. -/
def PackageLibraries.CollisionFree (libraries : PackageLibraries)
    (contents contents' : PackageContents) : Prop :=
  Set.InjOn libraries.sha256
    {bytes | contents.Hashed libraries bytes ∨ contents'.Hashed libraries bytes}

/-- What is covered is the same in two packages. -/
structure PackageContents.CoveredAlike (libraries : PackageLibraries)
    (contents contents' : PackageContents) : Prop where
  files : ∀ path, Covered path → ∀ bytes,
    (path, bytes) ∈ contents.files ↔ (path, bytes) ∈ contents'.files
  manifest : ∀ raw raw', (manifestPath, raw) ∈ contents.files →
    (manifestPath, raw') ∈ contents'.files →
    ∃ v v', libraries.loads raw = some v ∧ libraries.loads raw' = some v' ∧ v.Same v'

variable {libraries : PackageLibraries} {config : PackageStoreConfig}
  {contents contents' : PackageContents}

theorem mem_directories_of_isAsset (hc : contents.Contained) {file : PosixPath × Bytes}
    (hfile : file ∈ contents.files) (hasset : IsAsset file.1) :
    assetsPath ∈ contents.directories := by
  obtain ⟨⟨rest, hrest⟩, hne⟩ := hasset
  have hrest' : rest ≠ [] := by
    rintro rfl
    rw [List.append_nil] at hrest
    exact hne hrest.symm
  apply hc.around file hfile
  · rw [← hrest, List.dropLast_append_of_ne_nil hrest']
    exact List.prefix_append _ _
  · exact List.cons_ne_nil _ _

theorem mem_assetValues (hc : contents.Contained) {path : PosixPath} {bytes : Bytes}
    (hfile : (path, bytes) ∈ contents.files) (hasset : IsAsset path) :
    (path.asPosix, bytes) ∈ contents.assetValues := by
  rw [PackageContents.assetValues, if_pos (mem_directories_of_isAsset hc hfile hasset)]
  apply List.mem_map.mpr
  exact ⟨(path, bytes), List.mem_filter.mpr ⟨hfile, decide_eq_true hasset⟩, rfl⟩

theorem of_mem_assetValues {asset : List Char × Bytes} (h : asset ∈ contents.assetValues) :
    ∃ path, (path, asset.2) ∈ contents.files ∧ IsAsset path ∧ path.asPosix = asset.1 := by
  unfold PackageContents.assetValues at h
  split_ifs at h
  · obtain ⟨file, hfile, rfl⟩ := List.mem_map.mp h
    obtain ⟨hmem, hasset⟩ := List.mem_filter.mp hfile
    exact ⟨file.1, hmem, of_decide_eq_true hasset, rfl⟩
  · cases h

theorem proper_of_mem (hc : contents.Contained) {path : PosixPath} {bytes : Bytes}
    (h : (path, bytes) ∈ contents.files) : path.Proper :=
  (hc.proper path (List.mem_append_right _ (List.mem_map_of_mem h))).1

/-- The assets of one package are among those of another one with the same values. -/
theorem asset_transfer (hc : contents.Contained) (hc' : contents'.Contained)
    (hvalues : ∀ asset, asset ∈ contents.assetValues → asset ∈ contents'.assetValues)
    {path : PosixPath} {bytes : Bytes} (hasset : IsAsset path)
    (h : (path, bytes) ∈ contents.files) : (path, bytes) ∈ contents'.files := by
  obtain ⟨path', hfile, _, hname⟩ := of_mem_assetValues (hvalues _ (mem_assetValues hc h hasset))
  have heq := PosixPath.asPosix_injective (proper_of_mem hc' hfile) (proper_of_mem hc h) hname
  rwa [heq] at hfile

/-- Lists with the same names and the same digests are equal where there are no collisions. -/
theorem assets_eq {assets assets' : List (List Char × Bytes)} {hashed : Set Bytes}
    (hinj : Set.InjOn libraries.sha256 hashed) (h : ∀ asset ∈ assets, asset.2 ∈ hashed)
    (h' : ∀ asset ∈ assets', asset.2 ∈ hashed)
    (hall : List.Forall₂ (fun asset asset' => asset.1 = asset'.1 ∧
      libraries.sha256 asset.2 = libraries.sha256 asset'.2) assets assets') :
    assets = assets' := by
  induction hall with
  | nil => rfl
  | cons hhead _ ih =>
    obtain ⟨hfirst, hrest⟩ := List.forall_mem_cons.mp h
    obtain ⟨hfirst', hrest'⟩ := List.forall_mem_cons.mp h'
    rw [Prod.ext hhead.1 (hinj hfirst hfirst' hhead.2), ih hrest hrest']

theorem assetValues_eq (hcollision : libraries.CollisionFree contents contents')
    {digest : List Char} (h : libraries.assetsDigest contents.assetValues = .ok digest)
    (h' : libraries.assetsDigest contents'.assetValues = .ok digest) (asset : List Char × Bytes) :
    asset ∈ contents.assetValues ↔ asset ∈ contents'.assetValues := by
  simp only [PackageLibraries.assetsDigest, bind_eq_ok, pure_eq_ok] at h h'
  obtain ⟨material, hmaterial, rfl⟩ := h
  obtain ⟨material', hmaterial', hdigest⟩ := h'
  have hequal : material = material' := hcollision (.inl (.inr (.inr hmaterial)))
    (.inr (.inr (.inr hmaterial'))) (PackageLibraries.digest_injective hdigest.symm)
  simp only [PackageLibraries.assetsMaterial, bind_eq_ok, pure_eq_ok] at hmaterial hmaterial'
  obtain ⟨blocks, hblocks, rfl⟩ := hmaterial
  obtain ⟨blocks', hblocks', rfl⟩ := hmaterial'
  have hsorted := assets_eq hcollision
    (fun asset hasset => .inl (.inr (.inl ⟨asset.1, (List.mem_insertionSort _).mp hasset⟩)))
    (fun asset hasset => .inr (.inr (.inl ⟨asset.1, (List.mem_insertionSort _).mp hasset⟩)))
    (PackageLibraries.assetBlocks_inj hblocks hblocks' hequal)
  have hperm := List.perm_insertionSort PackageLibraries.AssetBefore contents.assetValues
  rw [hsorted] at hperm
  exact (hperm.symm.trans (List.perm_insertionSort _ _)).mem_iff

/-- The signature of an envelope is good for what was found in a package that carries it. -/
theorem verified_signature {archive : Archive} {verified : VerifiedPackage}
    {envelope : SignatureEnvelope} (h : PackageLibraries.Verified libraries config archive verified)
    (henvelope : verified.contents.envelope? libraries = some envelope) :
    libraries.verifySignature envelope verified.manifestJson verified.imageDigest
      verified.assetsDigest = .ok () := by
  cases hstatus : verified.signatureStatus with
  | verified =>
    obtain ⟨envelope', henvelope', hverify, _⟩ := h.signature hstatus
    rw [henvelope] at henvelope'
    cases henvelope'
    exact hverify
  | unsigned =>
    obtain ⟨_, _, _, hextract⟩ := h.entries
    have hc := extractEntries_contained hextract
    obtain ⟨raw, hraw, _⟩ := Option.bind_eq_some_iff.mp henvelope
    have hmem := (PackageContents.file?_eq_some hc).mp hraw
    exact absurd (List.mem_append_right _ (List.mem_map_of_mem hmem)) (h.unsigned hstatus)

/-- A signature that is good for two packages was made for one message. -/
theorem signedMaterial_eq_of_verified {envelope : SignatureEnvelope} {v v' : JsonValue}
    {imageDigest imageDigest' assetsDigest assetsDigest' : List Char}
    (hunforgeable : libraries.Unforgeable envelope)
    (h : libraries.verifySignature envelope v imageDigest assetsDigest = .ok ())
    (h' : libraries.verifySignature envelope v' imageDigest' assetsDigest' = .ok ()) :
    signedMaterial v imageDigest assetsDigest = signedMaterial v' imageDigest' assetsDigest' := by
  simp only [PackageLibraries.verifySignature, PackageLibraries.decodePublicKey, bind_eq_ok,
    require_eq_ok, ensure_eq_ok, pure_eq_ok] at h h'
  obtain ⟨_, ⟨key, hkey, _, _, rfl⟩, signature, hsignature, hverify⟩ := h
  obtain ⟨_, ⟨key', hkey', _, _, rfl⟩, signature', hsignature', hverify'⟩ := h'
  rw [hkey] at hkey'
  cases hkey'
  rw [hsignature] at hsignature'
  cases hsignature'
  exact hunforgeable _ _ _ _ hkey hsignature hverify hverify'

theorem coveredAlike {archive archive' : Archive} {verified verified' : VerifiedPackage}
    {envelope : SignatureEnvelope}
    (h : libraries.verifyAndExtract config archive = .ok verified)
    (h' : libraries.verifyAndExtract config archive' = .ok verified')
    (henvelope : verified.contents.envelope? libraries = some envelope)
    (henvelope' : verified'.contents.envelope? libraries = some envelope)
    (hunforgeable : libraries.Unforgeable envelope)
    (hcollision : libraries.CollisionFree verified.contents verified'.contents) :
    verified.contents.CoveredAlike libraries verified'.contents := by
  have hv := PackageLibraries.verifyAndExtract_ok h
  have hv' := PackageLibraries.verifyAndExtract_ok h'
  obtain ⟨_, _, _, hextract⟩ := hv.entries
  obtain ⟨_, _, _, hextract'⟩ := hv'.entries
  have hc := extractEntries_contained hextract
  have hc' := extractEntries_contained hextract'
  obtain ⟨raw, hraw, hload, _⟩ := hv.manifest
  obtain ⟨raw', hraw', hload', _⟩ := hv'.manifest
  obtain ⟨image, himage, hdigest⟩ := hv.image
  obtain ⟨image', himage', hdigest'⟩ := hv'.image
  have hmaterial := signedMaterial_eq_of_verified hunforgeable
    (verified_signature hv henvelope) (verified_signature hv' henvelope')
  rw [hdigest, hdigest'] at hmaterial
  obtain ⟨hsame, himages, hassets⟩ := signedMaterial_inj
    (PackageLibraries.unique_of_loads hload) (PackageLibraries.unique_of_loads hload')
    (PackageLibraries.newline_notMem_digest _) (PackageLibraries.newline_notMem_digest _) hmaterial
  have himage_eq : image = image' := hcollision (.inl (.inl himage)) (.inr (.inl himage'))
    (PackageLibraries.digest_injective himages)
  have hvalues := assetValues_eq hcollision hv.assets (hassets ▸ hv'.assets)
  constructor
  · intro path hpath bytes
    rcases hpath with rfl | hasset
    · rw [← PackageContents.file?_eq_some hc, ← PackageContents.file?_eq_some hc', himage,
        himage', himage_eq]
    · exact ⟨asset_transfer hc hc' (fun asset => (hvalues asset).mp) hasset,
        asset_transfer hc' hc (fun asset => (hvalues asset).mpr) hasset⟩
  · intro r r' hr hr'
    rw [← PackageContents.file?_eq_some hc, hraw] at hr
    rw [← PackageContents.file?_eq_some hc', hraw'] at hr'
    cases hr
    cases hr'
    exact ⟨_, _, hload, hload', hsame⟩

def emptyDigest : List Char :=
  "e3b0c44298fc1c149afbf4c8996fb92427ae41e4649b934ca495991b7852b855".toList

def notesManifest : List Char :=
  "\x7b\"host_api\":\"1.0\",\"id\":\"org.example.notes\",\"image_digest\":\"sha256:".toList ++
    emptyDigest ++
    "\",\"name\":\"Notes\",\"publisher\":\"Example\",\"version\":\"1.0.0\"\x7d".toList

def notesPublicKey : String := "O2onvM62pC1io6jQKm8Nc2UyFXcd4kOmOsBIoYtZ2ik="

def notesPublicKeyBytes : Bytes :=
  unhex "3b6a27bcceb6a42d62a3a8d02a6f0d73653215771de243a63ac048a18b59da29".toList

def notesSignature : String :=
  "XT68orclkdFFa84eTtkrl4AIuqfCbPdumnGMOXbtbDyh+xeEqRrFDBc8MWRdeUqu5dD0Tp3btdFMogEzNqA/Bg=="

def notesSignatureBytes : Bytes :=
  unhex "5d3ebca2b72591d1456bce1e4ed92b978008baa7c26cf76e9a718c3976ed6c3c".toList ++
    unhex "a1fb1784a91ac50c173c31645d794aaee5d0f44e9ddbb5d14ca2013336a03f06".toList

def notesEnvelopeText : List Char :=
  "\x7b\"algorithm\":\"Ed25519\",\"assets_digest\":\"sha256:".toList ++ emptyDigest ++
    "\",\"public_key\":\"".toList ++ notesPublicKey.toList ++
    "\",\"publisher\":\"Example\",\"signature\":\"".toList ++ notesSignature.toList ++
    "\"\x7d".toList

def sha256OfKnown (bytes : Bytes) : List Char :=
  if bytes = [] then emptyDigest
  else if bytes = encodeUtf8 notesManifest then
    "8f489392d5505665d3fdb70be9bdf9e81280e68db7cec858388d80c8ea2c18aa".toList
  else if bytes = notesPublicKeyBytes then
    "139e3940e64b5491722088d9a0d741628fc826e09475d341a780acde3c4b8070".toList
  else []

def textField (key : String) (entries : List (String × JsonValue)) : Option String :=
  match JsonValue.lookup key entries with
  | some (.str text) => some text
  | _ => none

/-- Libraries that know the digests and the signature of one package, and read ASCII only. -/
def notesLibraries : PackageLibraries where
  casefold := List.map Char.toLower
  sha256 bytes := fixedWidth (unhex (sha256OfKnown bytes))
  b64decode text :=
    if text = notesPublicKey then some notesPublicKeyBytes
    else if text = notesSignature then some notesSignatureBytes
    else none
  verify publicKey signature message :=
    publicKey = notesPublicKeyBytes ∧ signature = notesSignatureBytes ∧
      message = encodeUtf8 (notesManifest ++ '\n' :: ("sha256:".toList ++ emptyDigest ++
        '\n' :: ("sha256:".toList ++ emptyDigest)))
  decode bytes :=
    if bytes.all (· < 128) then some (bytes.map fun b => Char.ofNat b.toNat) else none
  shortest := id
  manifest
    | .obj entries => do
      let id ← textField "id" entries
      let name ← textField "name" entries
      let version ← textField "version" entries
      let publisher ← textField "publisher" entries
      let hostApi ← textField "host_api" entries
      let imageDigest ← textField "image_digest" entries
      return {
        id := id
        name := name
        version := version
        publisher := publisher
        hostApi := [if hostApi = "1.0" then some ⟨.equal, 1, 0, 0⟩ else none]
        imageDigest := imageDigest.toList
        permissions := [] }
    | _ => none
  envelope
    | .obj entries => do
      let publisher ← textField "publisher" entries
      let publicKey ← textField "public_key" entries
      let assetsDigest ← textField "assets_digest" entries
      let signature ← textField "signature" entries
      return ⟨publisher, publicKey, assetsDigest.toList, signature⟩
    | _ => none

def storedEntry (filename : String) (text : List Char) : ZipInfo :=
  { filename := filename
    externalAttr := 25165824
    compressSize := text.length
    fileSize := text.length
    content := some (encodeUtf8 text) }

def notesInfos : List ZipInfo :=
  [storedEntry "plugin.json" notesManifest, storedEntry "image.tar" [],
    storedEntry "signature.json" notesEnvelopeText]

def notesReadme : ZipInfo := storedEntry "README.md" "# Notes".toList

def notesArchive : Archive where
  sha256 := fixedWidth
    (unhex "6f61255f99e2cb3f5a414141e8879841e540b040d026cbb33c93dfacc57e3de5".toList)
  infos := some notesInfos

def notesArchiveWithReadme : Archive where
  sha256 := fixedWidth
    (unhex "8a4046ba74bc6a4743dd4b688c01235fef9915e71c54a2229a13c1e99eafe35d".toList)
  infos := some (notesInfos ++ [notesReadme])

def notesConfig : PackageStoreConfig := { packagesDir := "/packages" }

def notesContents : PackageContents where
  files := [(manifestPath, encodeUtf8 notesManifest), (imagePath, []),
    (signaturePath, encodeUtf8 notesEnvelopeText)]

def notesContentsWithReadme : PackageContents where
  files := notesContents.files ++ [(["README.md".toList], encodeUtf8 "# Notes".toList)]

def notesEnvelope : SignatureEnvelope :=
  ⟨"Example", notesPublicKey, "sha256:".toList ++ emptyDigest, notesSignature⟩

theorem notes_extracted : extractEntries notesInfos = .ok notesContents := by rfl

theorem readme_extracted :
    extractEntries (notesInfos ++ [notesReadme]) = .ok notesContentsWithReadme := by rfl

/-- An archive whose manifest, image, signature and assets are those of an accepted one is
accepted too, whatever else is in it. -/
theorem accepted_alike {archive archive' : Archive} {infos infos' : List ZipInfo}
    {verified : VerifiedPackage} {contents' : PackageContents}
    (hverified : libraries.verifyAndExtract config archive = .ok verified)
    (hinfos : archive.infos = some infos) (hextract : extractEntries infos = .ok contents)
    (hinfos' : archive'.infos = some infos')
    (hvalid' : validateEntries config libraries.casefold infos' = .ok ())
    (hextract' : extractEntries infos' = .ok contents')
    (hfiles : ∀ path ∈ [manifestPath, imagePath, signaturePath],
      contents'.file? path = contents.file? path)
    (hassets : contents'.assetValues = contents.assetValues)
    (hsigned : signaturePath ∈ contents.paths) (hsigned' : signaturePath ∈ contents'.paths) :
    ∃ verified', libraries.verifyAndExtract config archive' = .ok verified' ∧
      verified'.contents = contents' := by
  simp only [PackageLibraries.verifyAndExtract, bind_eq_ok, require_eq_ok,
    ensure_eq_ok] at hverified
  obtain ⟨_, hinfos'', _, _, _, hextract'', raw, hraw, manifest, hmanifest, _, hhost, image, himage,
    _, himageDigest, assetsDigest, hassetsDigest, h⟩ := hverified
  rw [hinfos] at hinfos''
  cases hinfos''
  rw [hextract] at hextract''
  cases hextract''
  rw [if_neg (not_not_intro hsigned)] at h
  simp only [bind_eq_ok, require_eq_ok, pure_eq_ok] at h
  obtain ⟨rawSignature, hsignature, envelope, hcheck, fingerprint, hfingerprint, rfl⟩ := h
  refine ⟨{
    manifest := manifest.1
    manifestJson := manifest.2
    manifestHash := libraries.digest (canonicalJsonBytes manifest.2)
    imageDigest := libraries.digest image
    assetsDigest := assetsDigest
    signatureStatus := .verified
    publisherName := envelope.publisher
    publisherFingerprint := some fingerprint
    publisherPublicKey := some envelope.publicKey
    contentDigest := archive'.hashFile
    contents := contents' }, ?_, rfl⟩
  simp only [PackageLibraries.verifyAndExtract, bind_eq_ok, require_eq_ok, ensure_eq_ok]
  refine ⟨infos', hinfos', (), hvalid', contents', hextract', raw, ?_, manifest, hmanifest, (),
    hhost, image, ?_, (), himageDigest, assetsDigest, ?_, ?_⟩
  · rw [hfiles _ (by simp), hraw]
  · rw [hfiles _ (by simp), himage]
  · rw [hassets, hassetsDigest]
  · rw [if_neg (not_not_intro hsigned')]
    simp only [bind_eq_ok, require_eq_ok, pure_eq_ok]
    exact ⟨rawSignature, by rw [hfiles _ (by simp), hsignature], envelope, hcheck, fingerprint,
      hfingerprint, rfl⟩

structure VerifiedPackage.IsNotes (verified : VerifiedPackage) : Prop where
  id : verified.manifest.id = "org.example.notes"
  version : verified.manifest.version = "1.0.0"
  manifestHash : verified.manifestHash = "sha256:".toList ++
    "8f489392d5505665d3fdb70be9bdf9e81280e68db7cec858388d80c8ea2c18aa".toList
  signatureStatus : verified.signatureStatus = .verified
  fingerprint : verified.publisherFingerprint = some ("sha256:".toList ++
    "139e3940e64b5491722088d9a0d741628fc826e09475d341a780acde3c4b8070".toList)
  publicKey : verified.publisherPublicKey = some notesPublicKey
  permissions : verified.manifest.permissions = []

instance : DecidablePred VerifiedPackage.IsNotes := fun _ =>
  decidable_of_iff (_ ∧ _ ∧ _ ∧ _ ∧ _ ∧ _ ∧ _)
    ⟨fun ⟨h₁, h₂, h₃, h₄, h₅, h₆, h₇⟩ => ⟨h₁, h₂, h₃, h₄, h₅, h₆, h₇⟩,
      fun ⟨h₁, h₂, h₃, h₄, h₅, h₆, h₇⟩ => ⟨h₁, h₂, h₃, h₄, h₅, h₆, h₇⟩⟩

theorem notes_checked :
    ((notesLibraries.verifyAndExtract notesConfig notesArchive).toOption.any fun verified =>
        verified.IsNotes) = true ∧
      validateEntries notesConfig notesLibraries.casefold (notesInfos ++ [notesReadme]) =
        .ok () ∧
      notesContents.envelope? notesLibraries = some notesEnvelope := by
  -- the literals become lists of characters here, which the kernel computes with at once
  delta notesLibraries sha256OfKnown notesArchive notesInfos notesReadme notesContents
    notesEnvelope notesEnvelopeText notesManifest emptyDigest notesPublicKeyBytes
    notesSignatureBytes storedEntry notesPublicKey notesSignature
  repeat rw [String.toList_ofList]
  decide +kernel

theorem notes_verified : ∃ verified,
    notesLibraries.verifyAndExtract notesConfig notesArchive = .ok verified ∧ verified.IsNotes := by
  obtain ⟨verified, hverified, hnotes⟩ := (Option.any_eq_true _ _).mp notes_checked.1
  rw [toOption_eq_some] at hverified
  exact ⟨verified, hverified, of_decide_eq_true hnotes⟩

theorem notes_accepted : ∃ verified,
    notesLibraries.verifyAndExtract notesConfig notesArchive = .ok verified ∧
      verified.contents = notesContents := by
  obtain ⟨verified, hverified, _⟩ := notes_verified
  obtain ⟨infos, hinfos, _, hextract⟩ := (PackageLibraries.verifyAndExtract_ok hverified).entries
  cases hinfos
  rw [notes_extracted] at hextract
  exact ⟨verified, hverified, (Except.ok.inj hextract).symm⟩

theorem readme_files : ∀ path ∈ [manifestPath, imagePath, signaturePath],
    notesContentsWithReadme.file? path = notesContents.file? path := by
  intro path hpath
  simp only [List.mem_cons, List.not_mem_nil, or_false] at hpath
  rcases hpath with rfl | rfl | rfl <;> rfl

theorem readme_accepted : ∃ verified,
    notesLibraries.verifyAndExtract notesConfig notesArchiveWithReadme = .ok verified ∧
      verified.contents = notesContentsWithReadme := by
  obtain ⟨verified, hverified, _⟩ := notes_verified
  exact accepted_alike hverified rfl notes_extracted rfl notes_checked.2.1 readme_extracted
    readme_files rfl (by decide) (by decide)

theorem notes_envelope :
    notesContents.envelope? notesLibraries = some notesEnvelope ∧
      notesContentsWithReadme.envelope? notesLibraries = some notesEnvelope := by
  refine ⟨notes_checked.2.2, ?_⟩
  rw [PackageContents.envelope?, readme_files signaturePath (by simp)]
  exact notes_checked.2.2

theorem notes_unforgeable : notesLibraries.Unforgeable notesEnvelope := by
  intro publicKey signature message message' _ _ h h'
  rw [(of_decide_eq_true h).2.2, (of_decide_eq_true h').2.2]

/-- Nothing but the empty image and the empty list of assets is hashed. -/
theorem hashed_empty {bytes : Bytes} (himage : contents.file? imagePath = some [])
    (hassets : contents.assetValues = []) (h : contents.Hashed libraries bytes) : bytes = [] := by
  rcases h with h | ⟨name, h⟩ | h
  · rw [himage] at h
    exact (Option.some.inj h).symm
  · rw [hassets] at h
    cases h
  · rw [hassets] at h
    exact (Except.ok.inj h).symm

theorem notes_collisionFree :
    notesLibraries.CollisionFree notesContents notesContentsWithReadme := by
  have hempty : ∀ bytes, notesContents.Hashed notesLibraries bytes ∨
      notesContentsWithReadme.Hashed notesLibraries bytes → bytes = [] := by
    intro bytes h
    rcases h with h | h
    · exact hashed_empty rfl rfl h
    · exact hashed_empty rfl rfl h
  intro bytes h bytes' h' _
  rw [hempty bytes h, hempty bytes' h']

/-- Packages with the same signature envelope agree in their manifest, their image and their
assets; and what is extracted from an archive is inside, without two entries that are alike up
to case. -/
theorem signature_covers (libraries : PackageLibraries) (config : PackageStoreConfig) :
    (∀ archive archive' verified verified' envelope,
      libraries.verifyAndExtract config archive = .ok verified →
      libraries.verifyAndExtract config archive' = .ok verified' →
      verified.contents.envelope? libraries = some envelope →
      verified'.contents.envelope? libraries = some envelope →
      libraries.Unforgeable envelope →
      libraries.CollisionFree verified.contents verified'.contents →
      verified.contents.CoveredAlike libraries verified'.contents) ∧
    ∀ infos contents, validateEntries config libraries.casefold infos = .ok () →
      extractEntries infos = .ok contents →
      (∀ path ∈ contents.paths, path.StrictlyInside) ∧
      ∃ names, List.Forall₂ (fun info name => safeMemberName info.filename = .ok name) infos names ∧
        (names.map libraries.casefold).Nodup := by
  constructor
  · intro archive archive' verified verified' envelope h h' henvelope henvelope' hunforgeable
      hcollision
    exact coveredAlike h h' henvelope henvelope' hunforgeable hcollision
  · intro infos contents hvalid hextract
    refine ⟨?_, validateEntries_ok hvalid⟩
    intro path hpath
    obtain ⟨hproper, hnil⟩ := (extractEntries_contained hextract).proper path hpath
    exact PosixPath.strictlyInside_of_proper hproper hnil

/-- The two packages agree in what is covered. -/
theorem notes_coveredAlike :
    notesContents.CoveredAlike notesLibraries notesContentsWithReadme := by
  obtain ⟨verified, h, hcontents⟩ := notes_accepted
  obtain ⟨verified', h', hcontents'⟩ := readme_accepted
  have hcovered := (signature_covers notesLibraries notesConfig).1 notesArchive
    notesArchiveWithReadme verified verified' notesEnvelope h h'
  rw [hcontents, hcontents'] at hcovered
  exact hcovered notes_envelope.1 notes_envelope.2 notes_unforgeable notes_collisionFree

/-- A README can be put into a package, and its signature is still good. -/
theorem readme_not_covered :
    ¬ ∀ (libraries : PackageLibraries) config archive archive' verified verified' envelope,
      libraries.verifyAndExtract config archive = .ok verified →
      libraries.verifyAndExtract config archive' = .ok verified' →
      verified.contents.envelope? libraries = some envelope →
      verified'.contents.envelope? libraries = some envelope →
      libraries.Unforgeable envelope →
      libraries.CollisionFree verified.contents verified'.contents →
      ∀ path, path ≠ signaturePath → path ≠ manifestPath → ∀ bytes,
        (path, bytes) ∈ verified.contents.files ↔ (path, bytes) ∈ verified'.contents.files := by
  intro h
  obtain ⟨verified, hverified, hcontents⟩ := notes_accepted
  obtain ⟨verified', hverified', hcontents'⟩ := readme_accepted
  have hsame := h notesLibraries notesConfig _ _ _ _ notesEnvelope hverified hverified'
  rw [hcontents, hcontents'] at hsame
  have hother : ∀ name : String, "README.md" ≠ name → ["README.md".toList] ≠ [name.toList] :=
    fun name hne heq => hne (String.toList_inj.mp (List.cons.inj heq).1)
  have hsignature : ["README.md".toList] ≠ signaturePath := hother _ (by decide)
  have hmanifest : ["README.md".toList] ≠ manifestPath := hother _ (by decide)
  have himage : ["README.md".toList] ≠ imagePath := hother _ (by decide)
  have hreadme := hsame notes_envelope.1 notes_envelope.2 notes_unforgeable notes_collisionFree
    ["README.md".toList] hsignature hmanifest (encodeUtf8 "# Notes".toList)
  have hfile := hreadme.mpr (List.mem_append_right _ List.mem_cons_self)
  rw [notesContents] at hfile
  simp only [List.mem_cons, List.not_mem_nil, Prod.mk.injEq, hsignature, hmanifest, himage,
    false_and, or_false] at hfile

end Plugins
end Matinier
