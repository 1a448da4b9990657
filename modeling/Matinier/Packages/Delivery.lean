import Mathlib.Data.List.Sort
import Mathlib.Data.Prod.Lex
import Mathlib.Data.String.Basic
import Matinier.Assistant.Status
import Matinier.Foundation.JsonText
import Matinier.Foundation.Pages

/-!
# Delivery of packages

A frozen package is delivered to plugins page by page. Its documents are taken in the order of
their identities, those of the kinds and the language that were asked for, and each of their items
becomes an item of its own, with what identifies its document. A page has as many items as are
allowed and as fit its bytes.
-/

namespace Matinier
namespace Packages

open Assistant (Fault)
open JsonText JsonValue

inductive DocumentKind where
  | sourceRaw
  | sourceApproved
  | liveTranslation
  | timelineIndex
  | evidenceIndex
  | sessionMetadata
  | providerMetadata
  | metricsMetadata
  deriving DecidableEq

def DocumentKind.text : DocumentKind → String
  | .sourceRaw => "source_raw"
  | .sourceApproved => "source_approved"
  | .liveTranslation => "live_translation"
  | .timelineIndex => "timeline_index"
  | .evidenceIndex => "evidence_index"
  | .sessionMetadata => "session_metadata"
  | .providerMetadata => "provider_metadata"
  | .metricsMetadata => "metrics_metadata"

/-- A document with its content as it is dumped; the items of a content are objects. -/
structure PackageDocument where
  documentId : String
  documentKind : DocumentKind
  language : Option String
  contentHash : String
  content : List (String × JsonValue)
  objects : ∀ items, lookup "items" content = some (.arr items) →
    ∀ item ∈ items, ∃ entries, item = .obj entries

inductive PackageStatus where
  | building
  | frozen
  | superseded
  | invalid
  deriving DecidableEq

/-- A stored package with its documents. -/
structure PackageRecord where
  contentHash : Option String
  manifest : List (String × JsonValue)
  status : PackageStatus
  documents : List PackageDocument

def documentIdentity (document : PackageDocument) : String ×ₗ String :=
  toLex (document.documentKind.text, document.language.getD "")

def documentOrder (a b : PackageDocument) : Prop := documentIdentity a ≤ documentIdentity b

instance : DecidableRel documentOrder := fun _ _ => inferInstanceAs (Decidable (_ ≤ _))

def load (records : String → Option PackageRecord) (packageId : String) :
    Except Fault PackageRecord := do
  let record ← require (records packageId) (.lookup "Package not found")
  ensure (record.contentHash.isSome = true ∧ record.manifest ≠ [])
    (.value "Package is not frozen")
  pure { record with documents := record.documents.insertionSort documentOrder }

/-- What is asked for: kinds of documents, and a language of translations. -/
structure DeliverySelection where
  documentKinds : List String
  language : Option String

def DeliverySelection.Takes (selection : DeliverySelection) (document : PackageDocument) : Prop :=
  document.documentKind.text ∈ selection.documentKinds ∧
    ¬ (selection.language.isSome = true ∧ document.documentKind = .liveTranslation ∧
      document.language ≠ selection.language)

instance (selection : DeliverySelection) : DecidablePred selection.Takes :=
  fun _ => inferInstanceAs (Decidable (_ ∧ _))

/-- The items of a document, each with what identifies the document. -/
def flattenDocument (document : PackageDocument) : Except Fault (List JsonValue) :=
  let common := [("document_id", .str document.documentId),
    ("document_kind", .str document.documentKind.text),
    ("language", (document.language.map JsonValue.str).getD .null),
    ("document_content_hash", .str document.contentHash)]
  match lookup "items" document.content with
  | some (.arr items) =>
    let context := document.content.filter fun entry => entry.1 ≠ "items"
    let context := if context = [] then [] else [("document_context", .obj context)]
    items.mapM fun item =>
      match item with
      | .obj entries => .ok (.obj (dictionary (common ++ context ++ entries)))
      | _ => .error (.value "Package document item is malformed")
  | _ => .ok [.obj (dictionary (common ++ [("content", .obj document.content)]))]

def flattened (package : PackageRecord) (selection : DeliverySelection) :
    Except Fault (List JsonValue) := do
  let documents := (package.documents.insertionSort documentOrder).filter selection.Takes
  let items ← documents.mapM flattenDocument
  pure items.flatten

/-- The items fit a page. -/
def PageFits (maxPageBytes : ℕ) (items : List JsonValue) : Prop :=
  byteLength (dumps (.arr items)) ≤ maxPageBytes

instance (maxPageBytes : ℕ) (items : List JsonValue) : Decidable (PageFits maxPageBytes items) :=
  inferInstanceAs (Decidable (_ ≤ _))

def oversized : Fault := .value "Package item exceeds delivery byte limit"

/-- Put items on a page as long as they fit; the first one has to. -/
def fillPage (maxPageBytes : ℕ) : List JsonValue → List JsonValue → Except Fault (List JsonValue)
  | page, [] => .ok page
  | page, item :: rest =>
    if PageFits maxPageBytes (page ++ [item]) then fillPage maxPageBytes (page ++ [item]) rest
    else if page = [] then .error oversized
    else .ok page

def pageOf (items : List JsonValue) (maxPageBytes hardLimit afterItem : ℕ) :
    Except Fault (List JsonValue × Option ℕ) :=
  if items.length ≤ afterItem then .ok ([], none)
  else do
    let page ← fillPage maxPageBytes [] ((items.drop afterItem).take hardLimit)
    let next := afterItem + page.length
    pure (page, if items.length ≤ next then none else some next)

def deliveryPage (records : String → Option PackageRecord) (packageId : String)
    (selection : DeliverySelection) (afterItem limit maxPageItems maxPageBytes : ℕ) :
    Except Fault (PackageRecord × List JsonValue × Option ℕ) := do
  ensure (1 ≤ limit ∧ 1 ≤ maxPageItems) (.value "invalid delivery page bounds")
  let package ← load records packageId
  ensure (package.status = .frozen ∨ package.status = .superseded) (.value "Package is not frozen")
  let items ← flattened package selection
  let (page, next) ← pageOf items maxPageBytes (min limit maxPageItems) afterItem
  pure (package, page, next)

section Pages

variable {items : List JsonValue} {maxPageBytes hardLimit afterItem : ℕ}

/-- What is on a page that is filled: items from the front that fit, none only where there are none
or the first does not fit. -/
theorem fillPage_cases (maxPageBytes : ℕ) (rest page : List JsonValue) :
    (∃ taken left, rest = taken ++ left ∧ (taken = [] → rest = [] ∨ page ≠ []) ∧
      (taken ≠ [] → PageFits maxPageBytes (page ++ taken)) ∧
      fillPage maxPageBytes page rest = .ok (page ++ taken)) ∨
    ∃ item left, page = [] ∧ rest = item :: left ∧ ¬ PageFits maxPageBytes [item] ∧
      fillPage maxPageBytes page rest = .error oversized := by
  induction rest generalizing page with
  | nil => exact .inl ⟨[], [], rfl, fun _ => .inl rfl, by simp, by simp [fillPage]⟩
  | cons item rest ih =>
    rw [fillPage]
    split_ifs with hfits hempty
    · obtain ⟨taken, left, rfl, -, htaken, hfill⟩ | ⟨_, _, hnil, -⟩ := ih (page ++ [item])
      · refine .inl ⟨item :: taken, left, rfl, by simp, fun _ => ?_, by simp [hfill]⟩
        by_cases hnone : taken = []
        · simpa [hnone] using hfits
        · simpa using htaken hnone
      · simp at hnil
    · subst hempty
      exact .inr ⟨item, rest, rfl, rfl, by simpa using hfits, rfl⟩
    · exact .inl ⟨[], item :: rest, rfl, fun _ => .inr hempty, by simp, by simp⟩

/-- A page of the items takes what comes next, as many as are allowed and fit. -/
theorem pageOf_spec (hlimit : 1 ≤ hardLimit) :
    PageOf items (PageFits maxPageBytes) hardLimit oversized afterItem
      (pageOf items maxPageBytes hardLimit afterItem) := by
  unfold pageOf
  split_ifs with hpast
  · exact .past hpast
  · have hdrop := (List.take_append_drop hardLimit (items.drop afterItem)).symm
    have hlength : ((items.drop afterItem).take hardLimit).length =
        min hardLimit (items.length - afterItem) := by
      rw [List.length_take, List.length_drop]
    obtain ⟨taken, left, hrest, hnone, hfits, hfill⟩ | ⟨item, left, -, hrest, hlarge, hfill⟩ :=
      fillPage_cases maxPageBytes ((items.drop afterItem).take hardLimit) []
    · rw [hfill, List.nil_append, ok_bind]
      rw [hrest, List.append_assoc] at hdrop
      rw [hrest, List.length_append] at hlength
      have hne : taken ≠ [] := by
        intro hnil
        have hleft := (hnone hnil).resolve_right (fun h => h rfl)
        rw [hrest, hnil, List.nil_append] at hleft
        rw [hnil, hleft, List.length_nil] at hlength
        omega
      have hall : items.length ≤ afterItem + taken.length ↔
          left ++ (items.drop afterItem).drop hardLimit = [] := by
        have htotal := congrArg List.length hdrop
        rw [List.length_append, List.length_drop] at htotal
        rw [← List.length_eq_zero_iff]
        omega
      simp only [hall]
      exact .page hdrop hne (by omega) (hfits hne)
    · rw [hfill]
      rw [hrest] at hdrop
      exact .tooLarge hdrop hlarge

end Pages

theorem flattenDocument_returns (document : PackageDocument) :
    ∃ items, flattenDocument document = .ok items := by
  unfold flattenDocument
  dsimp only
  split
  · rename_i items hitems
    have hobjects := document.objects items hitems
    clear hitems
    induction items with
    | nil => exact ⟨_, rfl⟩
    | cons item rest ih =>
      obtain ⟨entries, rfl⟩ := hobjects item List.mem_cons_self
      obtain ⟨flat, hflat⟩ := ih fun item h => hobjects item (List.mem_cons_of_mem _ h)
      simp only [List.mapM_cons, ok_bind, hflat]
      exact ⟨_, rfl⟩
  · exact ⟨_, rfl⟩

theorem flattened_returns (package : PackageRecord) (selection : DeliverySelection) :
    ∃ items, flattened package selection = .ok items := by
  unfold flattened
  dsimp only
  generalize (package.documents.insertionSort documentOrder).filter selection.Takes = documents
  suffices h : ∃ items, documents.mapM flattenDocument = .ok items by
    obtain ⟨items, h⟩ := h
    exact ⟨_, by rw [h]; rfl⟩
  induction documents with
  | nil => exact ⟨[], rfl⟩
  | cons document rest ih =>
    obtain ⟨first, hfirst⟩ := flattenDocument_returns document
    obtain ⟨later, hlater⟩ := ih
    simp only [List.mapM_cons, hfirst, hlater, ok_bind]
    exact ⟨_, rfl⟩

/-- The pages of a package that can be delivered: what a query with the `n`th limit returns from a
position on, without the package itself. -/
def deliveredPage (records : String → Option PackageRecord) (packageId : String)
    (selection : DeliverySelection) (limits : ℕ → ℕ) (maxPageItems maxPageBytes n afterItem : ℕ) :
    Except Fault (List JsonValue × Option ℕ) :=
  Prod.snd <$> deliveryPage records packageId selection afterItem (limits n) maxPageItems
    maxPageBytes

/-- Whatever limits the queries have, the walk through the pages of a frozen package ends, and what
it delivers are the items that are asked for. -/
theorem delivery_complete (records : String → Option PackageRecord) (packageId : String)
    (selection : DeliverySelection) (limits : ℕ → ℕ) (maxPageItems maxPageBytes : ℕ)
    {package : PackageRecord} (hload : load records packageId = .ok package)
    (hstatus : package.status = .frozen ∨ package.status = .superseded)
    (hlimits : ∀ n, 1 ≤ limits n) (hmost : 1 ≤ maxPageItems) :
    ∃ items, flattened package selection = .ok items ∧
      (∃ pages outcome, Walk (deliveredPage records packageId selection limits maxPageItems
        maxPageBytes) 0 0 pages outcome) ∧
      ∀ pages outcome, Walk (deliveredPage records packageId selection limits maxPageItems
        maxPageBytes) 0 0 pages outcome →
        Delivered items (PageFits maxPageBytes) (fun n => min (limits n) maxPageItems) oversized
          pages outcome := by
  obtain ⟨items, hitems⟩ := flattened_returns package selection
  have hpage : ∀ n after, deliveredPage records packageId selection limits maxPageItems
      maxPageBytes n after =
        pageOf items maxPageBytes (min (limits n) maxPageItems) after := by
    intro n after
    have hbounds : ensure (1 ≤ limits n ∧ 1 ≤ maxPageItems)
        (Fault.value "invalid delivery page bounds") = .ok () :=
      ensure_eq_ok.mpr ⟨hlimits n, hmost⟩
    unfold deliveredPage deliveryPage
    rw [hbounds, ok_bind, hload, ok_bind, ensure_eq_ok (u := ()).mpr hstatus, ok_bind, hitems,
      ok_bind]
    rcases pageOf items maxPageBytes (min (limits n) maxPageItems) after with e | ⟨page, next⟩
    · rfl
    · rfl
  have hspec : ∀ n after, PageOf items (PageFits maxPageBytes) (min (limits n) maxPageItems)
      oversized after (deliveredPage records packageId selection limits maxPageItems maxPageBytes
        n after) := fun n after =>
    hpage n after ▸ pageOf_spec (le_min (hlimits n) hmost)
  exact ⟨items, hitems, walk_ends hspec 0 0, fun _ _ h => h.delivered hspec⟩

def silentSession : List (String × JsonValue) :=
  [("session_id", .str "s1"), ("room_name", .str "room"), ("status", .str "completed"),
    ("source_type", .str "microphone"), ("source_language", .str "en"),
    ("target_languages", .arr []), ("created_at", .str "2026-01-01T00:00:00Z"),
    ("started_at", .null), ("ended_at", .null),
    ("source_ended_at", .null), ("translation_ended_at", .null), ("stop_reason", .null),
    ("failure_code", .null)]

def silentProviders : List (String × JsonValue) :=
  [("asr_provider", .null), ("asr_model", .null), ("translation_provider", .null),
    ("translation_model", .null), ("translation_status", .str "disabled")]

def silentMetrics : List (String × JsonValue) :=
  [("final_result_count", .int 0), ("first_partial_latency_ms", .null),
    ("average_final_latency_ms", .null), ("provider_error_count", .int 0),
    ("sent_audio_chunk_count", .int 0), ("sent_audio_bytes", .int 0)]

def silentManifest (contentHash : String) (documents : JsonValue) : List (String × JsonValue) :=
  [("schema", .str "matinier.transcript-package"), ("schema_version", .str "1.0"),
    ("package_id", .str "p1"), ("package_version", .int 1), ("session_id", .str "s1"),
    ("status", .str "frozen"), ("source_language", .str "en"), ("target_languages", .arr []),
    ("effective_source_document_id", .str "source_raw"), ("source_revision_id", .null),
    ("created_at", .str "2026-01-01T00:00:00Z"), ("content_hash", .str contentHash),
    ("documents", documents), ("session_snapshot", .obj silentSession),
    ("provider_snapshot", .obj silentProviders), ("metrics_snapshot", .obj silentMetrics)]

def lecturePackage : PackageRecord where
  contentHash := some "hash"
  manifest := silentManifest "hash" (.arr [.obj [("document_id", .str "source_raw"),
    ("document_kind", .str "source_raw"), ("language", .str "en"), ("content_hash", .str "c1")]])
  status := .frozen
  documents := [{
    documentId := "source_raw"
    documentKind := .sourceRaw
    language := some "en"
    contentHash := "c1"
    content := [("items", .arr [.obj [("text", .str "one")], .obj [("text", .str "two")]])]
    objects := by
      rintro items ⟨⟩ item hitem
      rcases List.mem_cons.mp hitem with rfl | hitem
      · exact ⟨_, rfl⟩
      · exact ⟨_, List.mem_singleton.mp hitem⟩ }]

theorem delivery_complete_lecture :
    ∃ items, flattened lecturePackage ⟨["source_raw"], none⟩ = .ok items ∧
      (∃ pages outcome, Walk (deliveredPage (fun _ => some lecturePackage) "p1"
        ⟨["source_raw"], none⟩ (fun n => n + 1) 1 1000) 0 0 pages outcome) ∧
      ∀ pages outcome, Walk (deliveredPage (fun _ => some lecturePackage) "p1"
        ⟨["source_raw"], none⟩ (fun n => n + 1) 1 1000) 0 0 pages outcome →
        Delivered items (PageFits 1000) (fun n => min (n + 1) 1) oversized pages outcome :=
  delivery_complete (fun _ => some lecturePackage) "p1" ⟨["source_raw"], none⟩ (fun n => n + 1) 1
    1000 rfl (.inl rfl) (fun n => Nat.le_add_left 1 n) (Nat.le_refl 1)

/-- Where nothing is asked for, the walk is one page, and there is nothing on it. -/
theorem delivery_page_empty :
    ¬ ∀ (records : String → Option PackageRecord) (packageId : String)
      (selection : DeliverySelection) (limits : ℕ → ℕ) (maxPageItems maxPageBytes : ℕ)
      (package : PackageRecord), load records packageId = .ok package →
      package.status = .frozen ∨ package.status = .superseded → (∀ n, 1 ≤ limits n) →
      1 ≤ maxPageItems → ∀ pages outcome, Walk (deliveredPage records packageId selection limits
        maxPageItems maxPageBytes) 0 0 pages outcome →
        ∀ after page, (after, page) ∈ pages → page ≠ [] := by
  intro h
  exact h (fun _ => some lecturePackage) "p1" ⟨[], none⟩ (fun _ => 1) 1 1000 lecturePackage rfl
    (.inl rfl) (fun _ => Nat.le_refl 1) (Nat.le_refl 1) [(0, [])] none (.last rfl) 0 []
    List.mem_cons_self rfl

end Packages
end Matinier
