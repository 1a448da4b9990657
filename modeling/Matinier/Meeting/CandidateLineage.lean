import Matinier.Foundation.Pointers
import Matinier.Meeting.CandidateSpec

/-!
# The lineage of candidates

A candidate that is merged points to the one it was merged into, and a candidate that is split
to its first part. The invariant says how these pointers, the revisions and the records of how
a candidate was made fit together; each way in which rows are written keeps it.
-/

namespace Matinier
namespace Meeting

open Assistant

/-- The digests of candidates that are made as something else differ. -/
def CandidateConfig.DistinctKinds (cfg : CandidateConfig) : Prop :=
  ∀ kind content evidence kind' content' evidence',
    cfg.digest kind content evidence = cfg.digest kind' content' evidence' → kind = kind'

/-- What each candidate is superseded by. -/
def supersededBy (candidates : Table ActionCandidateRecord) (candidateId : String) :
    Option String :=
  (candidates.get candidateId).bind ActionCandidateRecord.supersededByCandidateId

def IdentifiedAs (cfg : CandidateConfig) (candidateId : String) (kind : CandidateKind) : Prop :=
  ∃ content evidence, candidateId = cfg.digest kind content evidence

/-- What a candidate records of how it was made. A part's candidate is superseded, unless it is
being split: then as many of its parts are made as `made` says. -/
def MadeAs (candidates : Table ActionCandidateRecord) (made : String → ℕ)
    (record : ActionCandidateRecord) : CandidateKind → Prop
  | .actionCandidate =>
    record.derivedFromCandidateId = none ∧ record.derivedFromRevision = none
  | .split parentId index => record.derivedFromCandidateId = some parentId ∧
      ∃ parent, candidates.get parentId = some parent ∧
        record.derivedFromRevision = some parent.currentRevision ∧
        record.sessionId = parent.sessionId ∧
        (parent.contentStatus = .superseded ∨ index < made parentId)

theorem ne_of_absent {candidates : Table ActionCandidateRecord} {id other : String}
    {record : ActionCandidateRecord} (habsent : candidates.get id = none)
    (hstored : candidates.get other = some record) : other ≠ id := by
  rintro rfl
  rw [habsent] at hstored
  cases hstored

/-- A row as the operations leave it. -/
structure RowSound (cfg : CandidateConfig) (made : String → ℕ)
    (candidates : Table ActionCandidateRecord) (record : ActionCandidateRecord) : Prop where
  root : record.lineageRootId = record.id
  revision_pos : 1 ≤ record.currentRevision
  revisions : record.revisions.map CandidateRevision.revision =
    List.range' 1 record.currentRevision
  pointed : record.contentStatus = .superseded ↔ record.supersededByCandidateId ≠ none
  target : ∀ id, record.supersededByCandidateId = some id →
    ∃ survivor, candidates.get id = some survivor ∧ survivor.sessionId = record.sessionId
  origin : ∃ kind, IdentifiedAs cfg record.id kind ∧ MadeAs candidates made record kind

structure Lineage (cfg : CandidateConfig) (made : String → ℕ)
    (candidates : Table ActionCandidateRecord) : Prop where
  rows : ∀ id record, candidates.get id = some record → RowSound cfg made candidates record
  ranked : Ranked (supersededBy candidates)

/-- What other rows rely on in a row. -/
structure StaysFor (made made' : String → ℕ) (old record : ActionCandidateRecord) : Prop where
  session : record.sessionId = old.sessionId
  parent : ∀ index, old.contentStatus = .superseded ∨ index < made old.id →
    record.currentRevision = old.currentRevision ∧
      (record.contentStatus = .superseded ∨ index < made' old.id)

def noneMade : String → ℕ := fun _ => 0

section Lineage

variable {cfg : CandidateConfig} {made made' : String → ℕ}
  {candidates candidates' : Table ActionCandidateRecord} {old record : ActionCandidateRecord}

theorem Lineage.empty : Lineage cfg noneMade .empty := by
  refine ⟨fun id record h => ?_, .of_none fun a => rfl⟩
  simp [Table.get, Table.empty] at h

theorem RowSound.mono (h : RowSound cfg made candidates record)
    (hstays : ∀ id other, candidates.get id = some other →
      ∃ other', candidates'.get id = some other' ∧ StaysFor made made' other other') :
    RowSound cfg made' candidates' record := by
  refine ⟨h.root, h.revision_pos, h.revisions, h.pointed, fun id hid => ?_, ?_⟩
  · obtain ⟨survivor, hsurvivor, hsession⟩ := h.target id hid
    obtain ⟨survivor', hsurvivor', hstay⟩ := hstays id survivor hsurvivor
    exact ⟨survivor', hsurvivor', hstay.session.trans hsession⟩
  · obtain ⟨kind, hkind, hmade⟩ := h.origin
    refine ⟨kind, hkind, ?_⟩
    cases kind with
    | actionCandidate => exact hmade
    | split parentId index =>
      obtain ⟨hderived, parent, hparent, hrevision, hsession, hopen⟩ := hmade
      obtain ⟨parent', hparent', hstay⟩ := hstays parentId parent hparent
      have hid : parent.id = parentId := Table.key_of_get hparent
      rw [← hid] at hopen
      obtain ⟨hsame, hopen'⟩ := hstay.parent index hopen
      rw [hid] at hopen'
      exact ⟨hderived, parent', hparent', by rw [hrevision, hsame],
        hsession.trans hstay.session.symm, hopen'⟩

theorem Lineage.of_writes (h : Lineage cfg made candidates)
    (hwrites : Table.Writes candidates candidates' record)
    (hmade : ∀ id, id ≠ record.id → made id ≤ made' id)
    (hstays : ∀ old, candidates.get record.id = some old → StaysFor made made' old record)
    (hrow : RowSound cfg made' candidates' record)
    (hranked : Ranked (supersededBy candidates')) : Lineage cfg made' candidates' := by
  refine ⟨fun id row hid => ?_, hranked⟩
  rw [hwrites.get] at hid
  split_ifs at hid with hkey
  · cases hid
    exact hrow
  refine (h.rows id row hid).mono fun other old hold => ?_
  by_cases hother : other = record.id
  · rw [hother] at hold ⊢
    exact ⟨record, hwrites.1, hstays old hold⟩
  · refine ⟨old, (hwrites.2 other hother).trans hold, rfl, fun index hopen => ⟨rfl, ?_⟩⟩
    have hid : old.id = other := Table.key_of_get hold
    exact hopen.imp_right fun hlt => lt_of_lt_of_le hlt (hmade _ (hid ▸ hother))

/-- Where the written row points to is all that changes of the pointers. -/
theorem supersededBy_writes (hwrites : Table.Writes candidates candidates' record) :
    supersededBy candidates' record.id = record.supersededByCandidateId ∧
      ∀ id, id ≠ record.id → supersededBy candidates' id = supersededBy candidates id := by
  refine ⟨?_, fun id hid => ?_⟩
  · have hself : candidates'.get record.id = some record := hwrites.1
    simp [supersededBy, hself]
  · have hother : candidates'.get id = candidates.get id := hwrites.2 id hid
    simp [supersededBy, hother]

theorem ranked_writes (h : Ranked (supersededBy candidates))
    (hwrites : Table.Writes candidates candidates' record)
    (hsame : record.supersededByCandidateId = supersededBy candidates record.id) :
    Ranked (supersededBy candidates') := by
  refine h.congr fun id => ?_
  obtain ⟨hself, hothers⟩ := supersededBy_writes hwrites
  by_cases hid : id = record.id
  · rw [hid, hself, hsame]
  · exact hothers id hid

/-- A candidate that is not superseded gets a revision, and perhaps is cancelled with it. -/
theorem Lineage.revised (h : Lineage cfg noneMade candidates)
    (hold : candidates.get old.id = some old) {content : ActionCandidateContent}
    {changeKind : ChangeKind} {changeSummary : Option String} {status : ContentStatus}
    (hwrites : Table.Writes candidates candidates'
      { old.revised content changeKind changeSummary with contentStatus := status })
    (hactive : old.contentStatus ≠ .superseded) (hstatus : status ≠ .superseded) :
    Lineage cfg noneMade candidates' := by
  have hrow := h.rows old.id old hold
  have hnone : old.supersededByCandidateId = none := by
    by_contra hne
    exact hactive (hrow.pointed.mpr hne)
  refine h.of_writes hwrites (fun _ _ => le_rfl) (fun row hget => ?_) ?_
    (ranked_writes h.ranked hwrites ?_)
  · obtain rfl : old = row := Option.some.inj (hold.symm.trans hget)
    exact ⟨rfl, fun index hopen => absurd (hopen.resolve_right (Nat.not_lt_zero _)) hactive⟩
  · obtain ⟨kind, hkind, hmade⟩ := hrow.origin
    refine ⟨hrow.root, Nat.le_succ_of_le hrow.revision_pos, ?_, ?_, fun id hid => ?_, kind, hkind,
      ?_⟩
    · simp [ActionCandidateRecord.revised, hrow.revisions, List.range'_concat, Nat.add_comm]
    · simp [ActionCandidateRecord.revised, hnone, hstatus]
    · simp [ActionCandidateRecord.revised, hnone] at hid
    · cases kind with
      | actionCandidate => exact hmade
      | split parentId index =>
        obtain ⟨hderived, parent, hparent, hrevision, hsession, hopen⟩ := hmade
        have hsuperseded := hopen.resolve_right (Nat.not_lt_zero _)
        have hother : parentId ≠ old.id := by
          rintro rfl
          obtain rfl : old = parent := Option.some.inj (hold.symm.trans hparent)
          exact hactive hsuperseded
        exact ⟨hderived, parent, (hwrites.2 parentId hother).trans hparent, hrevision, hsession,
          Or.inl hsuperseded⟩
  · change old.supersededByCandidateId = supersededBy candidates old.id
    simp [supersededBy, hold]

theorem Lineage.transitioned (h : Lineage cfg made candidates)
    (hold : candidates.get old.id = some old) {target : CandidateExecutionStatus}
    (hwrites : Table.Writes candidates candidates' { old with executionStatus := target }) :
    Lineage cfg made candidates' := by
  have hstays : ∀ id row, candidates.get id = some row →
      ∃ row', candidates'.get id = some row' ∧ StaysFor made made row row' := by
    intro id row hrow
    by_cases hid : id = old.id
    · subst hid
      obtain rfl : old = row := Option.some.inj (hold.symm.trans hrow)
      exact ⟨_, hwrites.1, rfl, fun index hopen => ⟨rfl, hopen⟩⟩
    · exact ⟨row, (hwrites.2 id hid).trans hrow, rfl, fun index hopen => ⟨rfl, hopen⟩⟩
  have hrow := (h.rows old.id old hold).mono hstays
  refine h.of_writes hwrites (fun _ _ => le_rfl) (fun row hget => ?_) ?_
    (ranked_writes h.ranked hwrites ?_)
  · obtain rfl : old = row := Option.some.inj (hold.symm.trans hget)
    exact ⟨rfl, fun index hopen => ⟨rfl, hopen⟩⟩
  · obtain ⟨kind, hkind, hmade⟩ := hrow.origin
    exact ⟨hrow.root, hrow.revision_pos, hrow.revisions, hrow.pointed, hrow.target, kind, hkind,
      by cases kind <;> exact hmade⟩
  · change old.supersededByCandidateId = supersededBy candidates old.id
    simp [supersededBy, hold]

/-- A candidate is superseded by one that is not; what was made of its parts is done. -/
theorem Lineage.superseded (h : Lineage cfg made candidates)
    (hold : candidates.get old.id = some old) {survivor : ActionCandidateRecord}
    (hsurvivor : candidates.get survivor.id = some survivor)
    (hroot : survivor.contentStatus ≠ .superseded) (hne : old.id ≠ survivor.id)
    (hsession : old.sessionId = survivor.sessionId)
    (hmade : ∀ id, id ≠ old.id → made id = 0)
    (hwrites : Table.Writes candidates candidates' { old with
      contentStatus := .superseded, supersededByCandidateId := some survivor.id }) :
    Lineage cfg noneMade candidates' := by
  have hstays : ∀ id row, candidates.get id = some row →
      ∃ row', candidates'.get id = some row' ∧ StaysFor made noneMade row row' := by
    intro id row hrow
    by_cases hid : id = old.id
    · subst hid
      obtain rfl : old = row := Option.some.inj (hold.symm.trans hrow)
      exact ⟨_, hwrites.1, rfl, fun index _ => ⟨rfl, Or.inl rfl⟩⟩
    · refine ⟨row, (hwrites.2 id hid).trans hrow, rfl, fun index hopen => ⟨rfl, ?_⟩⟩
      have hkey : row.id = id := Table.key_of_get hrow
      refine Or.inl (hopen.resolve_right ?_)
      rw [hkey, hmade id hid]
      exact Nat.not_lt_zero _
  have hrow := (h.rows old.id old hold).mono hstays
  refine ⟨fun id row hget => ?_, ?_⟩
  · by_cases hid : id = old.id
    · subst hid
      obtain rfl := Option.some.inj (hwrites.1.symm.trans hget)
      obtain ⟨kind, hkind, hmadeAs⟩ := hrow.origin
      refine ⟨hrow.root, hrow.revision_pos, hrow.revisions, ?_, fun id hid => ?_, kind, hkind,
        by cases kind <;> exact hmadeAs⟩
      · simp
      · obtain rfl : survivor.id = id := Option.some.inj hid
        exact ⟨survivor, (hwrites.2 _ (Ne.symm hne)).trans hsurvivor, hsession.symm⟩
    · have hget' : candidates.get id = some row := (hwrites.2 id hid).symm.trans hget
      exact (h.rows id row hget').mono hstays
  · obtain ⟨hself, hothers⟩ := supersededBy_writes hwrites
    refine h.ranked.link hne ?_ hself hothers
    have hnone : survivor.supersededByCandidateId = none := by
      by_contra hsome
      exact hroot ((h.rows _ survivor hsurvivor).pointed.mpr hsome)
    simp [supersededBy, hsurvivor, hnone]

theorem Lineage.added (h : Lineage cfg made candidates) {kind : CandidateKind}
    {sessionId : SessionId} {id : String} {content : ActionCandidateContent}
    {derivedFrom : Option ActionCandidateRecord} {changeSummary : Option String}
    (habsent : candidates.get id = none) (hkind : IdentifiedAs cfg id kind)
    (hmade : ∀ other, made other ≤ made' other)
    (hmadeAs : ∀ candidates', Table.Writes candidates candidates'
      (newCandidate cfg sessionId id content derivedFrom changeSummary) →
        MadeAs candidates' made' (newCandidate cfg sessionId id content derivedFrom changeSummary)
          kind)
    (hwrites : Table.Writes candidates candidates'
      (newCandidate cfg sessionId id content derivedFrom changeSummary)) :
    Lineage cfg made' candidates' := by
  have hpointer : supersededBy candidates id = none := by simp [supersededBy, habsent]
  refine h.of_writes hwrites (fun other _ => hmade other) (fun row hrow => ?_)
    ⟨rfl, le_rfl, rfl, by simp [newCandidate],
      (fun _ h => by cases h), kind, hkind, hmadeAs _ hwrites⟩
    (ranked_writes h.ranked hwrites hpointer.symm)
  have hnone : candidates.get id = some row := hrow
  rw [habsent] at hnone
  cases hnone

end Lineage

/-- What the operations keep of a candidate: its lineage, its execution and its revisions, and
all of it where it is superseded. -/
structure Kept (old record : ActionCandidateRecord) : Prop where
  root : record.lineageRootId = old.lineageRootId
  execution : record.executionStatus = old.executionStatus
  revisions : old.revisions <+: record.revisions
  frozen : old.contentStatus = .superseded → record = old

theorem Kept.refl (record : ActionCandidateRecord) : Kept record record :=
  ⟨rfl, rfl, List.prefix_rfl, fun _ => rfl⟩

theorem Kept.trans {a b c : ActionCandidateRecord} (h : Kept a b) (h' : Kept b c) : Kept a c := by
  refine ⟨h'.root.trans h.root, h'.execution.trans h.execution, h.revisions.trans h'.revisions,
    fun hfrozen => ?_⟩
  obtain rfl := h.frozen hfrozen
  exact h'.frozen hfrozen

abbrev AllKept (candidates candidates' : Table ActionCandidateRecord) : Prop :=
  Table.Evolves Kept (fun _ => True) candidates candidates'

section Operations

variable {candidates candidates' candidates'' : Table ActionCandidateRecord}
  {old record : ActionCandidateRecord}

theorem AllKept.trans (h : AllKept candidates candidates') (h' : AllKept candidates' candidates'') :
    AllKept candidates candidates'' :=
  Table.Evolves.trans Kept.trans (fun h _ => h) h h'

theorem AllKept.of_writes (hwrites : Table.Writes candidates candidates' record)
    (hold : candidates.get record.id = some old) (hkept : Kept old record) :
    AllKept candidates candidates' := by
  refine Table.Evolves.of_writes Kept.refl hwrites (fun row hrow => ?_) fun _ => trivial
  obtain rfl : old = row := Option.some.inj (hold.symm.trans hrow)
  exact hkept

theorem AllKept.of_added (habsent : candidates.get record.id = none)
    (hwrites : Table.Writes candidates candidates' record) : AllKept candidates candidates' := by
  refine Table.Evolves.of_writes Kept.refl hwrites (fun row hrow => ?_) fun _ => trivial
  have hnone : candidates.get record.id = some row := hrow
  rw [habsent] at hnone
  cases hnone

/-- What is not superseded is kept where it gets a revision, and perhaps another status. -/
theorem Kept.revised (hactive : old.contentStatus ≠ .superseded) (content : ActionCandidateContent)
    (changeKind : ChangeKind) (changeSummary : Option String) (status : ContentStatus) :
    Kept old { old.revised content changeKind changeSummary with contentStatus := status } :=
  ⟨rfl, rfl, List.prefix_append _ _, fun hfrozen => absurd hfrozen hactive⟩

theorem Kept.superseded (hactive : old.contentStatus ≠ .superseded) (survivor : String) :
    Kept old { old with
      contentStatus := .superseded, supersededByCandidateId := some survivor } :=
  ⟨rfl, rfl, List.prefix_rfl, fun hfrozen => absurd hfrozen hactive⟩

theorem Found.not_superseded {policy : CandidateMergePolicy} {candidateId : String}
    {expectedRevision : ℕ} (h : Found policy candidates candidateId expectedRevision record) :
    record.contentStatus ≠ .superseded := by
  rw [h.active]
  nofun

end Operations

end Meeting
end Matinier
