import Matinier.Artifacts.Repository

/-!
# Approvals at the same time

Requests create and approve revisions and artifacts. A request reads the database without locking
it, one read after the other, and its writes are committed together; in between, other requests
go on. The indexes keep every slot to one approved row and its versions to a numbering from one,
whatever the order. An approval that has read its target while it was open approves it even when
another approval has superseded it since.
-/

namespace Matinier
namespace Artifacts

open Assistant Revisions

structure Tables where
  revisions : List TranscriptRevisionRecord := []
  artifacts : List DerivedArtifactRecord := []

/-- What a client may ask for. -/
inductive Call where
  | createRevision (slot : RevisionSlot)
  | createRevisionVersion (parentId : ℕ)
  | approveRevision (revisionId : ℕ)
  | createGenerated (slot : ArtifactSlot)
  | createHumanVersion (parentId : ℕ)
  | approveArtifact (artifactId : ℕ)
  deriving DecidableEq

/-- A request between two of its accesses to the database. -/
inductive Request where
  | done
  | readingParentRevision (parentId : ℕ)
  | numberingRevision (slot : RevisionSlot)
  | insertingRevision (slot : RevisionSlot) (version : ℕ)
  | readingRevision (revisionId : ℕ)
  | readingCurrent (target : TranscriptRevisionRecord)
  | approvingRevision (target : TranscriptRevisionRecord) (current : List ℕ)
  | readingParentArtifact (parentId : ℕ)
  | numberingArtifact (slot : ArtifactSlot) (createdBy : ArtifactCreator)
  | insertingArtifact (slot : ArtifactSlot) (createdBy : ArtifactCreator) (version : ℕ)
  | readingArtifact (artifactId : ℕ)
  | approvingArtifact (artifact : DerivedArtifactRecord)
  deriving DecidableEq

def Call.request : Call → Request
  | createRevision slot => .numberingRevision slot
  | createRevisionVersion parentId => .readingParentRevision parentId
  | approveRevision revisionId => .readingRevision revisionId
  | createGenerated slot => .numberingArtifact slot .model
  | createHumanVersion parentId => .readingParentArtifact parentId
  | approveArtifact artifactId => .readingArtifact artifactId

/-- Writes that are committed, or rolled back where an index refuses one of them. -/
def Tables.commitRevisions (tables : Tables) (written : Option (List TranscriptRevisionRecord)) :
    Tables :=
  match written with
  | none => tables
  | some revisions => { tables with revisions }

def Tables.commitArtifacts (tables : Tables) (written : Option (List DerivedArtifactRecord)) :
    Tables :=
  match written with
  | none => tables
  | some artifacts => { tables with artifacts }

/-- The next read of a request, or all its writes and their commit. A row that it adds has the
given number. -/
def advance (tables : Tables) (newId : ℕ) : Request → Tables × Request
  | .done => (tables, .done)
  | .readingParentRevision parentId =>
    match Slots.find tables.revisions parentId with
    | none => (tables, .done)
    | some parent => (tables, .numberingRevision parent.slot)
  | .numberingRevision slot =>
    (tables, .insertingRevision slot (Slots.nextVersion tables.revisions slot))
  | .insertingRevision slot version =>
    (tables.commitRevisions (Revisions.create tables.revisions newId slot version), .done)
  | .readingRevision revisionId =>
    match openTarget tables.revisions revisionId with
    | .ok (some target) => (tables, .readingCurrent target)
    | _ => (tables, .done)
  | .readingCurrent target =>
    (tables, .approvingRevision target (currentApproved tables.revisions target))
  | .approvingRevision target current =>
    (tables.commitRevisions (Revisions.approve tables.revisions target current), .done)
  | .readingParentArtifact parentId =>
    match Slots.find tables.artifacts parentId with
    | none => (tables, .done)
    | some parent => (tables, .numberingArtifact parent.slot .human)
  | .numberingArtifact slot createdBy =>
    (tables, .insertingArtifact slot createdBy (Slots.nextVersion tables.artifacts slot))
  | .insertingArtifact slot createdBy version =>
    (tables.commitArtifacts (create tables.artifacts newId slot createdBy version), .done)
  | .readingArtifact artifactId =>
    match openArtifact tables.artifacts artifactId with
    | .ok (some artifact) => (tables, .approvingArtifact artifact)
    | _ => (tables, .done)
  | .approvingArtifact artifact =>
    (tables.commitArtifacts (approve tables.artifacts artifact), .done)

/-- The tables, and the requests by number. -/
structure State where
  tables : Tables := {}
  requests : ℕ → Request := fun _ => .done

/-- A request is made, goes on, or ends before its commit. -/
inductive Step where
  | submit (n : ℕ) (call : Call)
  | advance (n newId : ℕ)
  | abandon (n : ℕ)
  deriving DecidableEq

def step (state : State) : Step → State
  | .submit n call =>
    if state.requests n = .done then
      { state with requests := Function.update state.requests n call.request }
    else state
  | .advance n newId =>
    let (tables, request) := advance state.tables newId (state.requests n)
    { tables, requests := Function.update state.requests n request }
  | .abandon n => { state with requests := Function.update state.requests n .done }

/-- The state after some steps, from empty tables. -/
def after (steps : List Step) : State := steps.foldl step {}

/-- A row of one of the tables. -/
inductive Row where
  | revision (id : ℕ)
  | artifact (id : ℕ)

def Tables.Superseded (tables : Tables) : Row → Prop
  | .revision id => Slots.statusOf tables.revisions id = some .superseded
  | .artifact id => Slots.statusOf tables.artifacts id = some .superseded

def Tables.Approved (tables : Tables) : Row → Prop
  | .revision id => Slots.statusOf tables.revisions id = some .approved
  | .artifact id => Slots.statusOf tables.artifacts id = some .approved

instance (tables : Tables) : DecidablePred tables.Superseded
  | .revision _ => inferInstanceAs (Decidable (_ = _))
  | .artifact _ => inferInstanceAs (Decidable (_ = _))

instance (tables : Tables) : DecidablePred tables.Approved
  | .revision _ => inferInstanceAs (Decidable (_ = _))
  | .artifact _ => inferInstanceAs (Decidable (_ = _))

/-- One approved row for each slot at most, and versions numbered from one. -/
structure Tables.SlotsKept (tables : Tables) : Prop where
  oneRevision : Slots.OneApproved .approved tables.revisions
  oneArtifact : Slots.OneApproved .approved tables.artifacts
  revisionVersions : Slots.Numbered tables.revisions
  artifactVersions : Slots.Numbered tables.artifacts

/-- In every state of the run the slots are kept, and no row is approved that was superseded
before. -/
def NeverResurrected (steps : List Step) : Prop :=
  ∀ past, past <+: steps → (after past).tables.SlotsKept ∧
    ∀ earlier, earlier <+: past → ∀ row,
      (after earlier).tables.Superseded row → ¬ (after past).tables.Approved row

/-- The request is about to approve a row that has been superseded since it read it. For a
revision, it has also read as approved every other revision that is approved now. -/
def Overtaken (tables : Tables) : Request → Prop
  | .approvingRevision target current =>
    Slots.statusOf tables.revisions target.id = some .superseded ∧
      ∀ item ∈ tables.revisions, item.slot = target.slot → item.status = .approved →
        item.id ∈ current
  | .approvingArtifact artifact =>
    Slots.statusOf tables.artifacts artifact.id = some .superseded
  | _ => False

/-- What a request has read still says of the tables: a version that was next has not been passed
over, and a row that was found is there in its slot. -/
def RequestSound (tables : Tables) : Request → Prop
  | .insertingRevision slot version =>
    1 ≤ version ∧ version ≤ (Slots.versionsOf tables.revisions slot).length + 1
  | .readingCurrent target | .approvingRevision target _ =>
    ∃ row, Slots.find tables.revisions target.id = some row ∧ row.slot = target.slot
  | .insertingArtifact slot _ version =>
    1 ≤ version ∧ version ≤ (Slots.versionsOf tables.artifacts slot).length + 1
  | .approvingArtifact artifact =>
    ∃ row, Slots.find tables.artifacts artifact.id = some row ∧ row.slot = artifact.slot
  | _ => True

structure Tables.Sound (tables : Tables) : Prop where
  revisions : Slots.Sound .approved tables.revisions
  artifacts : Slots.Sound .approved tables.artifacts

structure Tables.Grows (tables tables' : Tables) : Prop where
  revisions : Slots.Grows tables.revisions tables'.revisions
  artifacts : Slots.Grows tables.artifacts tables'.artifacts

structure State.Sound (state : State) : Prop where
  tables : state.tables.Sound
  requests : ∀ n, RequestSound state.tables (state.requests n)

section Tables

variable {tables tables' : Tables} {request : Request}

theorem Tables.Grows.refl (tables : Tables) : tables.Grows tables :=
  ⟨Slots.Grows.refl _, Slots.Grows.refl _⟩

theorem RequestSound.mono (hgrows : tables.Grows tables') (h : RequestSound tables request) :
    RequestSound tables' request := by
  have hfound : ∀ {κ σ : Type} [DecidableEq κ] {rows rows' : List (SlotRow κ σ)}
      {target : SlotRow κ σ}, Slots.Grows rows rows' →
      (∃ row, Slots.find rows target.id = some row ∧ row.slot = target.slot) →
      ∃ row, Slots.find rows' target.id = some row ∧ row.slot = target.slot := by
    intro κ σ _ rows rows' target hrows hfound
    obtain ⟨row, hrow, hslot⟩ := hfound
    obtain ⟨row', hrow', hslot'⟩ := hrows.slots _ row hrow
    exact ⟨row', hrow', hslot'.trans hslot⟩
  cases request with
  | insertingRevision slot version =>
    exact ⟨h.1, h.2.trans (Nat.succ_le_succ (hgrows.revisions.versions slot))⟩
  | insertingArtifact slot createdBy version =>
    exact ⟨h.1, h.2.trans (Nat.succ_le_succ (hgrows.artifacts.versions slot))⟩
  | readingCurrent target => exact hfound hgrows.revisions h
  | approvingRevision target current => exact hfound hgrows.revisions h
  | approvingArtifact artifact => exact hfound hgrows.artifacts h
  | _ => trivial

theorem openTarget_found {rows : List TranscriptRevisionRecord} {revisionId : ℕ}
    {target : TranscriptRevisionRecord} (h : openTarget rows revisionId = .ok (some target)) :
    Slots.find rows target.id = some target := by
  simp only [openTarget, bind_eq_ok, require_eq_ok, ensure_eq_ok] at h
  obtain ⟨found, hfound, -, -, h⟩ := h
  split_ifs at h
  · cases h
  · cases h
    rwa [(Slots.mem_of_find hfound).2]

theorem openArtifact_found {rows : List DerivedArtifactRecord} {artifactId : ℕ}
    {artifact : DerivedArtifactRecord} (h : openArtifact rows artifactId = .ok (some artifact)) :
    Slots.find rows artifact.id = some artifact := by
  simp only [openArtifact, bind_eq_ok, require_eq_ok, ensure_eq_ok] at h
  obtain ⟨found, hfound, -, -, h⟩ := h
  split_ifs at h
  · cases h
  · simp only [bind_eq_ok, ensure_eq_ok, pure_eq_ok, Option.some.injEq] at h
    obtain ⟨-, -, rfl⟩ := h
    rwa [(Slots.mem_of_find hfound).2]

theorem approve_eq_some {rows rows' : List DerivedArtifactRecord} {artifact : DerivedArtifactRecord}
    (h : approve rows artifact = some rows') : Slots.approve .approved (Slots.setStatus rows
      (fun item => item.slot = artifact.slot ∧ item.status = .approved ∧ item.id ≠ artifact.id)
      .superseded) artifact.id = some rows' := by
  simp only [approve] at h
  split at h
  · cases h
  · next record hrecord => rwa [(Slots.mem_of_find hrecord).2] at h

/-- A request that keeps the tables sound, and what the other requests have read true. -/
def Keeps (tables : Tables) (result : Tables × Request) : Prop :=
  result.1.Sound ∧ tables.Grows result.1 ∧ RequestSound result.1 result.2

theorem keeps_of_read (htables : tables.Sound) (h : RequestSound tables request) :
    Keeps tables (tables, request) := ⟨htables, Tables.Grows.refl _, h⟩

theorem keeps_of_commitRevisions {written : Option (List TranscriptRevisionRecord)}
    (htables : tables.Sound) (h : ∀ rows, written = some rows →
      Slots.Sound .approved rows ∧ Slots.Grows tables.revisions rows) :
    Keeps tables (tables.commitRevisions written, .done) := by
  cases written with
  | none => exact keeps_of_read htables trivial
  | some rows =>
    obtain ⟨hsound, hgrows⟩ := h rows rfl
    exact ⟨⟨hsound, htables.artifacts⟩, ⟨hgrows, Slots.Grows.refl _⟩, trivial⟩

theorem keeps_of_commitArtifacts {written : Option (List DerivedArtifactRecord)}
    (htables : tables.Sound) (h : ∀ rows, written = some rows →
      Slots.Sound .approved rows ∧ Slots.Grows tables.artifacts rows) :
    Keeps tables (tables.commitArtifacts written, .done) := by
  cases written with
  | none => exact keeps_of_read htables trivial
  | some rows =>
    obtain ⟨hsound, hgrows⟩ := h rows rfl
    exact ⟨⟨htables.revisions, hsound⟩, ⟨Slots.Grows.refl _, hgrows⟩, trivial⟩

theorem next_sound {κ σ : Type} [DecidableEq κ] {rows : List (SlotRow κ σ)}
    (h : Slots.Numbered rows) (slot : κ) : 1 ≤ Slots.nextVersion rows slot ∧
      Slots.nextVersion rows slot ≤ (Slots.versionsOf rows slot).length + 1 := by
  rw [h.nextVersion]
  exact ⟨Nat.le_add_left _ _, le_rfl⟩

theorem advance_keeps (newId : ℕ) (htables : tables.Sound)
    (hrequest : RequestSound tables request) :
    Keeps tables (advance tables newId request) := by
  cases request with
  | done => exact keeps_of_read htables trivial
  | readingParentRevision parentId =>
    simp only [advance]
    split <;> exact keeps_of_read htables trivial
  | numberingRevision slot => exact keeps_of_read htables (next_sound htables.revisions.numbered _)
  | insertingRevision slot version =>
    exact keeps_of_commitRevisions htables fun rows hrows =>
      ⟨htables.revisions.insert hrequest.1 hrequest.2 hrows, Slots.Grows.insert hrows⟩
  | readingRevision revisionId =>
    simp only [advance]
    split
    · next target htarget => exact keeps_of_read htables ⟨target, openTarget_found htarget, rfl⟩
    · exact keeps_of_read htables trivial
  | readingCurrent target => exact keeps_of_read htables hrequest
  | approvingRevision target current =>
    exact keeps_of_commitRevisions htables fun rows hrows =>
      ⟨(htables.revisions.setStatus (by decide) _).approve hrows,
        (Slots.Grows.setStatus _ _ _).trans (Slots.Grows.approve hrows)⟩
  | readingParentArtifact parentId =>
    simp only [advance]
    split <;> exact keeps_of_read htables trivial
  | numberingArtifact slot createdBy =>
    exact keeps_of_read htables (next_sound htables.artifacts.numbered _)
  | insertingArtifact slot createdBy version =>
    exact keeps_of_commitArtifacts htables fun rows hrows =>
      ⟨htables.artifacts.insert hrequest.1 hrequest.2 hrows, Slots.Grows.insert hrows⟩
  | readingArtifact artifactId =>
    simp only [advance]
    split
    · next artifact hartifact =>
      exact keeps_of_read htables ⟨artifact, openArtifact_found hartifact, rfl⟩
    · exact keeps_of_read htables trivial
  | approvingArtifact artifact =>
    exact keeps_of_commitArtifacts htables fun rows hrows =>
      ⟨(htables.artifacts.setStatus (by decide) _).approve (approve_eq_some hrows),
        (Slots.Grows.setStatus _ _ _).trans (Slots.Grows.approve (approve_eq_some hrows))⟩

/-- The indexes take the approval of a superseded revision where it supersedes every approved one
of the slot. -/
theorem approve_superseded_iff {rows : List TranscriptRevisionRecord}
    {target : TranscriptRevisionRecord} {current : List ℕ} (hids : (rows.map SlotRow.id).Nodup)
    (hfound : ∃ row, Slots.find rows target.id = some row ∧ row.slot = target.slot)
    (hsuperseded : Slots.statusOf rows target.id = some .superseded) :
    (∃ rows', Revisions.approve rows target current = some rows') ↔
      ∀ item ∈ rows, item.slot = target.slot → item.status = .approved → item.id ∈ current := by
  obtain ⟨row, hrow, hslot⟩ := hfound
  rw [Slots.statusOf, hrow, Option.map_some, Option.some.injEq] at hsuperseded
  obtain ⟨hmem, hid⟩ := Slots.mem_of_find hrow
  constructor
  · rintro ⟨rows', hwritten⟩ item hitem hitemslot happroved
    by_contra hout
    obtain ⟨hfree, -⟩ := Slots.approve_eq_some hwritten
    apply hfree
    refine ⟨_, Slots.mem_setStatus.mpr ⟨row, hmem, rfl⟩, ?_, item,
      Slots.mem_setStatus.mpr ⟨item, hitem, by simp [hout]⟩, ?_, ?_, happroved⟩
    · split_ifs <;> exact hid
    · intro hsame
      have hsamerow := List.inj_on_of_nodup_map hids hitem hmem (hsame.trans hid.symm)
      rw [hsamerow, hsuperseded] at happroved
      cases happroved
    · rw [hitemslot, ← hslot]
      split_ifs <;> rfl
  · intro hcurrent
    refine ⟨_, if_neg (Slots.not_held_setStatus hids hrow (by decide) ?_)⟩
    intro item hitem _ hitemslot happroved
    exact decide_eq_true (hcurrent item hitem (hitemslot.trans hslot) happroved)

theorem approve_isSome {rows : List DerivedArtifactRecord} {artifact : DerivedArtifactRecord}
    (hids : (rows.map SlotRow.id).Nodup)
    (hfound : ∃ row, Slots.find rows artifact.id = some row ∧ row.slot = artifact.slot) :
    ∃ rows', approve rows artifact = some rows' := by
  obtain ⟨row, hrow, hslot⟩ := hfound
  simp only [approve, Slots.find_setStatus, hrow, Option.map_some]
  have hid : ∀ (p : Bool), (if p then { row with status := .superseded } else row).id =
      artifact.id := by
    intro p
    cases p <;> exact (Slots.mem_of_find hrow).2
  rw [hid]
  refine ⟨_, if_neg (Slots.not_held_setStatus hids hrow (by decide) ?_)⟩
  intro item _ hitemid hitemslot happroved
  exact decide_eq_true ⟨hitemslot.trans hslot, happroved, hitemid⟩

/-- A superseded row stays so, unless a request that has been overtaken approves it. -/
theorem advance_superseded (newId : ℕ) {row : Row} (htables : tables.Sound)
    (h : tables.Superseded row)
    (hfresh : ¬ Overtaken tables request) (hrequest : RequestSound tables request) :
    (advance tables newId request).1.Superseded row := by
  cases request with
  | insertingRevision slot version =>
    simp only [advance]
    cases hwritten : Revisions.create tables.revisions newId slot version with
    | none => exact h
    | some rows =>
      cases row with
      | artifact id => exact h
      | revision id => exact Slots.statusOf_insert hwritten h
  | approvingRevision target current =>
    simp only [advance]
    cases hwritten : Revisions.approve tables.revisions target current with
    | none => exact h
    | some rows =>
      cases row with
      | artifact id => exact h
      | revision id =>
        have hstatus := Slots.statusOf_approve hwritten (Slots.statusOf_setStatus_self h)
        by_cases hid : id = target.id
        · subst hid
          have hcovers := (approve_superseded_iff htables.revisions.ids hrequest h).mp
            ⟨rows, hwritten⟩
          exact absurd ⟨h, hcovers⟩ hfresh
        · rwa [if_neg hid] at hstatus
  | insertingArtifact slot createdBy version =>
    simp only [advance]
    cases hwritten : create tables.artifacts newId slot createdBy version with
    | none => exact h
    | some rows =>
      cases row with
      | revision id => exact h
      | artifact id => exact Slots.statusOf_insert hwritten h
  | approvingArtifact artifact =>
    simp only [advance]
    cases hwritten : approve tables.artifacts artifact with
    | none => exact h
    | some rows =>
      cases row with
      | revision id => exact h
      | artifact id =>
        have hstatus := Slots.statusOf_approve (approve_eq_some hwritten)
          (Slots.statusOf_setStatus_self h)
        by_cases hid : id = artifact.id
        · subst hid
          exact absurd h hfresh
        · rwa [if_neg hid] at hstatus
  | _ =>
    simp only [advance]
    first | exact h | (split <;> exact h)

theorem advance_overtaken (newId : ℕ) (htables : tables.Sound)
    (hrequest : RequestSound tables request)
    (h : Overtaken tables request) :
    ∃ row, tables.Superseded row ∧ (advance tables newId request).1.Approved row := by
  cases request with
  | approvingRevision target current =>
    obtain ⟨hsuperseded, hcovers⟩ := h
    obtain ⟨rows, hwritten⟩ :=
      (approve_superseded_iff htables.revisions.ids hrequest hsuperseded).mpr hcovers
    refine ⟨.revision target.id, hsuperseded, ?_⟩
    have hstatus := Slots.statusOf_approve hwritten (Slots.statusOf_setStatus_self hsuperseded)
    simp only [advance, hwritten]
    rwa [if_pos rfl] at hstatus
  | approvingArtifact artifact =>
    obtain ⟨rows, hwritten⟩ := approve_isSome htables.artifacts.ids hrequest
    refine ⟨.artifact artifact.id, h, ?_⟩
    have hstatus := Slots.statusOf_approve (approve_eq_some hwritten)
      (Slots.statusOf_setStatus_self h)
    simp only [advance, hwritten]
    rwa [if_pos rfl] at hstatus
  | _ => cases h

end Tables

theorem Tables.Superseded.not_approved {tables : Tables} {row : Row} (h : tables.Superseded row) :
    ¬ tables.Approved row := by
  cases row <;> simp only [Tables.Superseded, Tables.Approved] at h ⊢ <;> rw [h] <;> decide

theorem Tables.Sound.slotsKept {tables : Tables} (h : tables.Sound) : tables.SlotsKept where
  oneRevision := h.revisions.one
  oneArtifact := h.artifacts.one
  revisionVersions := h.revisions.numbered
  artifactVersions := h.artifacts.numbered

theorem State.Sound.start : ({} : State).Sound where
  tables := by
    constructor <;> exact ⟨List.nodup_nil, fun _ hrow => absurd hrow List.not_mem_nil, fun _ => rfl⟩
  requests _ := trivial

/-- The requests that are not the one that moved still know what they knew. -/
theorem requests_sound_update {state : State} {tables : Tables} {request : Request} {n : ℕ}
    (h : state.Sound) (hgrows : state.tables.Grows tables)
      (hrequest : RequestSound tables request) :
    ∀ m, RequestSound tables (Function.update state.requests n request m) := by
  intro m
  by_cases hm : m = n
  · subst hm
    rwa [Function.update_self]
  · rw [Function.update_of_ne hm]
    exact (h.requests m).mono hgrows

theorem State.Sound.step {state : State} (h : state.Sound) (taken : Step) :
    (step state taken).Sound := by
  cases taken with
  | submit n call =>
    simp only [Artifacts.step]
    split_ifs
    · refine ⟨h.tables, requests_sound_update h (Tables.Grows.refl _) ?_⟩
      cases call <;> trivial
    · exact h
  | advance n newId =>
    obtain ⟨htables, hgrows, hrequest⟩ := advance_keeps newId h.tables (h.requests n)
    exact ⟨htables, requests_sound_update h hgrows hrequest⟩
  | abandon n =>
    exact ⟨h.tables, requests_sound_update h (Tables.Grows.refl _) trivial⟩

theorem step_superseded {state : State} (h : state.Sound) {taken : Step} {row : Row}
    (hrow : state.tables.Superseded row)
    (hfresh : ∀ n newId, taken = .advance n newId → ¬ Overtaken state.tables (state.requests n)) :
    (step state taken).tables.Superseded row := by
  cases taken with
  | submit n call =>
    simp only [step]
    split_ifs <;> exact hrow
  | advance n newId =>
    exact advance_superseded newId h.tables hrow (hfresh n newId rfl) (h.requests n)
  | abandon n => exact hrow

theorem after_append (past : List Step) (taken : Step) :
    after (past ++ [taken]) = step (after past) taken := by
  rw [after, List.foldl_append]
  rfl

theorem after_sound (steps : List Step) : (after steps).Sound := by
  induction steps using List.reverseRecOn with
  | nil => exact State.Sound.start
  | append_singleton past taken ih =>
    rw [after_append]
    exact ih.step taken

/-- Where no step of a run is one of an overtaken request, a superseded row stays so. -/
theorem superseded_stays {earlier later : List Step} {row : Row}
    (hrow : (after earlier).tables.Superseded row)
    (hfresh : ∀ past n newId, past ++ [.advance n newId] <+: earlier ++ later →
      ¬ Overtaken (after past).tables ((after past).requests n)) :
    (after (earlier ++ later)).tables.Superseded row := by
  induction later using List.reverseRecOn with
  | nil => rwa [List.append_nil]
  | append_singleton middle taken ih =>
    rw [← List.append_assoc, after_append]
    have hmiddle := ih fun past n newId hpast => hfresh past n newId
      (hpast.trans (by rw [← List.append_assoc]; exact List.prefix_append _ _))
    apply step_superseded (after_sound _) hmiddle
    rintro n newId rfl
    exact hfresh _ n newId (by simp)

/-- In every order of the steps of requests, the slots are kept and nothing superseded is approved
again exactly where no approval writes after another one has superseded its target (and, for a
revision, the index would not refuse the write). -/
theorem never_resurrected_iff (steps : List Step) : NeverResurrected steps ↔
    ∀ past n newId, past ++ [.advance n newId] <+: steps →
      ¬ Overtaken (after past).tables ((after past).requests n) := by
  constructor
  · intro h past n newId hprefix hovertaken
    obtain ⟨row, hrow, happroved⟩ := advance_overtaken newId (after_sound past).tables
      ((after_sound past).requests n) hovertaken
    apply (h _ hprefix).2 past (List.prefix_append _ _) row hrow
    rw [after_append]
    exact happroved
  · intro h past hpast
    refine ⟨(after_sound past).tables.slotsKept, ?_⟩
    rintro earlier ⟨later, rfl⟩ row hrow
    exact (superseded_stays hrow fun middle n newId hmiddle =>
      h middle n newId (hmiddle.trans hpast)).not_approved

/-- Two versions of an artifact. One request reads the first to approve it; before it writes, a
second request approves the first version, and a third one the second version. -/
def lateApproval : List Step :=
  [.submit 0 (.createGenerated ⟨1, "clean_script"⟩), .advance 0 0, .advance 0 10,
    .submit 0 (.createGenerated ⟨1, "clean_script"⟩), .advance 0 0, .advance 0 20,
    .submit 1 (.approveArtifact 10), .advance 1 0,
    .submit 2 (.approveArtifact 10), .advance 2 0, .advance 2 0,
    .submit 3 (.approveArtifact 20), .advance 3 0, .advance 3 0,
    .advance 1 0]

theorem late_approval_resurrects : ¬ NeverResurrected lateApproval := by
  intro h
  have hrow : (after (lateApproval.take 14)).tables.Superseded (.artifact 10) := by decide
  have happroved : (after lateApproval).tables.Approved (.artifact 10) := by decide
  exact (h _ (List.prefix_refl _)).2 _ (List.take_prefix _ _) _ hrow happroved

end Artifacts
end Matinier
