import Matinier.Plugins.PackageArchive
import Matinier.Plugins.PluginHost

/-!
# Signatures of plugin packages

The publisher of a package signs its manifest, the digest of its image and one digest of all its
assets. Two packages that carry the same signature agree in what was hashed for it.
-/

namespace Matinier
namespace Plugins

open JsonText

abbrev Sha256Digest := {digest : Bytes // digest.length = 32}

inductive SignatureStatus where
  | unsigned
  | verified
  deriving DecidableEq

/-- What a package store reads of a manifest. -/
structure PackageManifest where
  id : String
  name : String
  version : String
  publisher : String
  hostApi : List (Option RangeToken)
  imageDigest : List Char
  permissions : List String
  deriving DecidableEq

structure SignatureEnvelope where
  publisher : String
  publicKey : String
  assetsDigest : List Char
  signature : String
  deriving DecidableEq

/-- What the libraries make of texts and bytes. -/
structure PackageLibraries where
  casefold : List Char → List Char
  sha256 : Bytes → Sha256Digest
  b64decode : String → Option Bytes
  verify : Bytes → Bytes → Bytes → Bool
  decode : Bytes → Option (List Char)
  shortest : FloatLiteral → FloatLiteral
  manifest : JsonValue → Option PackageManifest
  envelope : JsonValue → Option SignatureEnvelope

def hexdigest (bytes : Bytes) : List Char :=
  bytes.flatMap fun b => [hexDigit (b.toNat / 16), hexDigit (b.toNat % 16)]

def unhex : List Char → Bytes
  | high :: low :: rest =>
    UInt8.ofNat (16 * (hexValue high).getD 0 + (hexValue low).getD 0) :: unhex rest
  | _ => []

def fixedWidth (bytes : Bytes) : Sha256Digest :=
  ⟨(bytes ++ List.replicate 32 0).take 32, by simp⟩

def toBytesBig (n : ℕ) : Bytes :=
  [UInt8.ofNat (n / 2 ^ 24), UInt8.ofNat (n / 2 ^ 16), UInt8.ofNat (n / 2 ^ 8), UInt8.ofNat n]

/-- What the signature of a package is made for. -/
def signedMaterial (manifest : JsonValue) (imageDigest packageAssetsDigest : List Char) : Bytes :=
  canonicalJsonBytes manifest ++ encodeUtf8 ['\n'] ++ encodeUtf8 imageDigest ++
    encodeUtf8 ['\n'] ++ encodeUtf8 packageAssetsDigest

namespace PackageLibraries

variable (libraries : PackageLibraries)

def digest (bytes : Bytes) : List Char :=
  "sha256:".toList ++ hexdigest (libraries.sha256 bytes)

def loads (raw : Bytes) : Option JsonValue := do
  let text ← libraries.decode raw
  let value ← JsonText.loads text
  return value.mapFloats libraries.shortest

/-- What an asset adds to the digest of all of them. -/
def assetBlock (asset : List Char × Bytes) : Except PackageError Bytes := do
  let encodedName := encodeUtf8 asset.1
  ensure (encodedName.length < 2 ^ 32) .other
  return toBytesBig encodedName.length ++ encodedName ++ libraries.sha256 asset.2

def AssetBefore (asset asset' : List Char × Bytes) : Prop :=
  String.ofList asset.1 ≤ String.ofList asset'.1

instance : DecidableRel AssetBefore := fun _ _ => inferInstanceAs (Decidable (_ ≤ _))

def assetsMaterial (assets : List (List Char × Bytes)) : Except PackageError Bytes := do
  let blocks ← (assets.insertionSort AssetBefore).mapM libraries.assetBlock
  return blocks.flatten

def assetsDigest (assets : List (List Char × Bytes)) : Except PackageError (List Char) := do
  let material ← libraries.assetsMaterial assets
  return libraries.digest material

def decodePublicKey (value : String) : Except PackageError Bytes := do
  let raw ← require (libraries.b64decode value)
    (.value "publisher public key is not valid base64")
  ensure (raw.length = 32) (.value "Ed25519 public key must be 32 bytes")
  return raw

def publicKeyFingerprint (publicKey : String) : Except PackageError (List Char) := do
  let raw ← libraries.decodePublicKey publicKey
  return libraries.digest raw

def verifySignature (envelope : SignatureEnvelope) (manifest : JsonValue)
    (imageDigest packageAssetsDigest : List Char) : Except PackageError Unit := do
  let publicKey ← libraries.decodePublicKey envelope.publicKey
  let signature ← require (libraries.b64decode envelope.signature)
    (.value "signature is not valid base64")
  ensure (libraries.verify publicKey signature
      (signedMaterial manifest imageDigest packageAssetsDigest) = true)
    (.value "plugin package signature is invalid")

/-- No signature of a publisher is good for two messages. -/
def Unforgeable (envelope : SignatureEnvelope) : Prop :=
  ∀ publicKey signature message message',
    libraries.b64decode envelope.publicKey = some publicKey →
    libraries.b64decode envelope.signature = some signature →
    libraries.verify publicKey signature message = true →
    libraries.verify publicKey signature message' = true → message = message'

end PackageLibraries

theorem byte_ext {b b' : UInt8} (hhigh : b.toNat / 16 = b'.toNat / 16)
    (hlow : b.toNat % 16 = b'.toNat % 16) : b = b' := by
  apply UInt8.toNat_inj.mp
  rw [← Nat.div_add_mod b.toNat 16, ← Nat.div_add_mod b'.toNat 16, hhigh, hlow]

theorem hexDigit_injective {n m : ℕ} (hn : n < 16) (hm : m < 16) (h : hexDigit n = hexDigit m) :
    n = m := by
  have hread := hexValue_hexDigit n hn
  rw [h, hexValue_hexDigit m hm] at hread
  exact (Option.some.inj hread).symm

theorem hexdigest_injective {bytes bytes' : Bytes} (h : hexdigest bytes = hexdigest bytes') :
    bytes = bytes' := by
  induction bytes generalizing bytes' with
  | nil =>
    cases bytes' with
    | nil => rfl
    | cons b rest => simp [hexdigest] at h
  | cons b rest ih =>
    cases bytes' with
    | nil => simp [hexdigest] at h
    | cons b' rest' =>
      simp only [hexdigest, List.flatMap_cons, List.cons_append, List.nil_append,
        List.cons.injEq] at h
      obtain ⟨hhigh, hlow, hrest⟩ := h
      have hb := b.toNat_lt
      have hb' := b'.toNat_lt
      have heq : b = b' := byte_ext
        (hexDigit_injective (by omega) (by omega) hhigh)
        (hexDigit_injective (by omega) (by omega) hlow)
      rw [heq, ih hrest]

theorem newline_notMem_hexdigest (bytes : Bytes) : '\n' ∉ hexdigest bytes := by
  intro h
  obtain ⟨b, _, hb⟩ := List.mem_flatMap.mp h
  have hdigit : ∀ n < 16, hexDigit n ≠ '\n' := by decide
  have hlt := b.toNat_lt
  rcases List.mem_cons.mp hb with heq | hb
  · exact hdigit _ (by omega) heq.symm
  · exact hdigit _ (by omega) (List.mem_singleton.mp hb).symm

theorem append_newline_inj {line line' rest rest' : List Char} (h : '\n' ∉ line)
    (h' : '\n' ∉ line') (heq : line ++ '\n' :: rest = line' ++ '\n' :: rest') :
    line = line' ∧ rest = rest' := by
  have hsplit := congrArg (List.splitOn '\n') heq
  rw [List.splitOn_append_cons_self_of_not_mem h,
    List.splitOn_append_cons_self_of_not_mem h'] at hsplit
  have hline : line = line' := (List.cons.inj hsplit).1
  rw [hline] at heq
  exact ⟨hline, (List.cons.inj (List.append_cancel_left heq)).2⟩

theorem signedMaterial_eq (manifest : JsonValue) (imageDigest packageAssetsDigest : List Char) :
    signedMaterial manifest imageDigest packageAssetsDigest =
      encodeUtf8 (dumps manifest.sortKeys ++ '\n' ::
        (imageDigest ++ '\n' :: packageAssetsDigest)) := by
  simp [signedMaterial, canonicalJsonBytes, encodeUtf8]

/-- What is signed tells the manifest, but for the order of its keys, and the digests. -/
theorem signedMaterial_inj {manifest manifest' : JsonValue}
    {imageDigest imageDigest' assetsDigest assetsDigest' : List Char} (hm : manifest.Unique)
    (hm' : manifest'.Unique) (hi : '\n' ∉ imageDigest) (hi' : '\n' ∉ imageDigest')
    (h : signedMaterial manifest imageDigest assetsDigest =
      signedMaterial manifest' imageDigest' assetsDigest') :
    manifest.Same manifest' ∧ imageDigest = imageDigest' ∧ assetsDigest = assetsDigest' := by
  rw [signedMaterial_eq, signedMaterial_eq] at h
  obtain ⟨hmanifest, hrest⟩ := append_newline_inj (newline_notMem_dumps _)
    (newline_notMem_dumps _) (encodeUtf8_injective h)
  obtain ⟨himage, hassets⟩ := append_newline_inj hi hi' hrest
  exact ⟨dumps_injective (JsonValue.unique_sortKeys hm) (JsonValue.unique_sortKeys hm') hmanifest,
    himage, hassets⟩

theorem toBytesBig_injective {n m : ℕ} (hn : n < 2 ^ 32) (hm : m < 2 ^ 32)
    (h : toBytesBig n = toBytesBig m) : n = m := by
  simp only [toBytesBig, List.cons.injEq, ← UInt8.toNat_inj, UInt8.toNat_ofNat'] at h
  omega

namespace PackageLibraries

variable {libraries : PackageLibraries}

theorem digest_injective {bytes bytes' : Bytes}
    (h : libraries.digest bytes = libraries.digest bytes') :
    libraries.sha256 bytes = libraries.sha256 bytes' :=
  Subtype.ext (hexdigest_injective (List.append_cancel_left h))

theorem newline_notMem_digest (bytes : Bytes) : '\n' ∉ libraries.digest bytes := by
  intro h
  rcases List.mem_append.mp h with h | h
  · simp at h
  · exact newline_notMem_hexdigest _ h

theorem unique_of_loads {raw : Bytes} {v : JsonValue} (h : libraries.loads raw = some v) :
    v.Unique := by
  obtain ⟨text, _, h⟩ := Option.bind_eq_some_iff.mp h
  obtain ⟨value, hvalue, h⟩ := Option.bind_eq_some_iff.mp h
  cases h
  exact JsonValue.unique_mapFloats _ (JsonText.unique_of_loads hvalue)

/-- The blocks of two lists of assets tell their names and the digests of their contents. -/
theorem assetBlocks_inj {assets assets' : List (List Char × Bytes)} {blocks blocks' : List Bytes}
    (h : assets.mapM libraries.assetBlock = .ok blocks)
    (h' : assets'.mapM libraries.assetBlock = .ok blocks')
    (heq : blocks.flatten = blocks'.flatten) :
    List.Forall₂ (fun asset asset' => asset.1 = asset'.1 ∧
      libraries.sha256 asset.2 = libraries.sha256 asset'.2) assets assets' := by
  induction assets generalizing assets' blocks blocks' with
  | nil =>
    cases h
    cases assets' with
    | nil => exact .nil
    | cons asset' rest' =>
      simp only [List.mapM_cons, bind_eq_ok, pure_eq_ok, assetBlock, ensure_eq_ok] at h'
      obtain ⟨_, ⟨_, _, rfl⟩, _, _, rfl⟩ := h'
      simp [toBytesBig] at heq
  | cons asset rest ih =>
    simp only [List.mapM_cons, bind_eq_ok, pure_eq_ok, assetBlock, ensure_eq_ok] at h
    obtain ⟨_, ⟨_, hlength, rfl⟩, blocks, hblocks, rfl⟩ := h
    cases assets' with
    | nil =>
      cases h'
      simp [toBytesBig] at heq
    | cons asset' rest' =>
      simp only [List.mapM_cons, bind_eq_ok, pure_eq_ok, assetBlock, ensure_eq_ok] at h'
      obtain ⟨_, ⟨_, hlength', rfl⟩, blocks', hblocks', rfl⟩ := h'
      simp only [List.flatten_cons, List.append_assoc] at heq
      obtain ⟨hsize, heq⟩ := List.append_inj heq rfl
      have hlengths := toBytesBig_injective hlength hlength' hsize
      obtain ⟨hname, heq⟩ := List.append_inj heq hlengths
      obtain ⟨hdigest, heq⟩ := List.append_inj heq
        ((libraries.sha256 asset.2).2.trans (libraries.sha256 asset'.2).2.symm)
      exact .cons ⟨encodeUtf8_injective hname, Subtype.ext hdigest⟩ (ih hblocks hblocks' heq)

end PackageLibraries

end Plugins
end Matinier
