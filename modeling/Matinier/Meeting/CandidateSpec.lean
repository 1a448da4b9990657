import Matinier.Meeting.Candidates

/-!
# What the operations on candidates write

Each operation that succeeds writes one or two rows that passed its checks, and a split adds
rows besides. The lemmas below say which; what follows about candidates is derived from them.

An operation moves no execution, and it leaves a candidate whose execution is under way as it is
unless it cancels it: to revise, merge or split such a candidate is refused, to cancel it is not.
-/

namespace Matinier
namespace Meeting

open Assistant

section Rows

variable {candidates candidates' : Table ActionCandidateRecord} {old record : ActionCandidateRecord}

theorem candidate_replaces (h : record.id = old.id) : Table.Replaces record old :=
  ⟨h.symm, Or.inl rfl⟩

theorem candidate_set (hold : candidates.get record.id = some old) :
    Table.Writes candidates (candidates.set record) record :=
  .of_set hold (candidate_replaces (Table.key_of_get hold).symm)

/-- A candidate that its own session may write, at the revision expected of it. -/
structure Found (policy : CandidateMergePolicy) (candidates : Table ActionCandidateRecord)
    (candidateId : String) (expectedRevision : ℕ) (record : ActionCandidateRecord) : Prop where
  stored : candidates.get candidateId = some record
  session : record.sessionId = policy.sessionId
  revision : record.currentRevision = expectedRevision
  active : record.contentStatus = .active

theorem Found.id {policy : CandidateMergePolicy} {candidateId : String} {expectedRevision : ℕ}
    (h : Found policy candidates candidateId expectedRevision record) : record.id = candidateId :=
  Table.key_of_get h.stored

theorem Found.get {policy : CandidateMergePolicy} {candidateId : String} {expectedRevision : ℕ}
    (h : Found policy candidates candidateId expectedRevision record) :
    candidates.get record.id = some record := by
  rw [h.id]
  exact h.stored

end Rows

section Repository

variable {candidates candidates' : Table ActionCandidateRecord}

/-- A revision is appended to the candidate that is at the revision expected. -/
theorem appendCandidateRevision_ok {candidateId : String} {expectedRevision : ℕ}
    {content : ActionCandidateContent} {changeKind : ChangeKind} {changeSummary : Option String}
    (h : appendCandidateRevision candidates candidateId expectedRevision content changeKind
      changeSummary = .ok candidates') :
    ∃ record, candidates.get candidateId = some record ∧
      record.currentRevision = expectedRevision ∧
      Table.Writes candidates candidates' (record.revised content changeKind changeSummary) := by
  simp only [appendCandidateRevision, bind_eq_ok, ensure_eq_ok, require_eq_ok, pure_eq_ok] at h
  obtain ⟨_, -, record, hrecord, _, hrevision, _, -, rfl⟩ := h
  have hid : record.id = candidateId := Table.key_of_get hrecord
  refine ⟨record, hrecord, hrevision, candidate_set (?_ : _ = some record)⟩
  rw [← hid] at hrecord
  exact hrecord

theorem supersedeCandidate_ok {candidateId supersededBy : String}
    (h : supersedeCandidate candidates candidateId supersededBy = .ok candidates') :
    candidateId ≠ supersededBy ∧ ∃ record survivor,
      candidates.get candidateId = some record ∧ candidates.get supersededBy = some survivor ∧
      record.sessionId = survivor.sessionId ∧
      Table.Writes candidates candidates'
        { record with
          contentStatus := .superseded
          supersededByCandidateId := some supersededBy } := by
  simp only [supersedeCandidate, bind_eq_ok, ensure_eq_ok, require_eq_ok, pure_eq_ok] at h
  obtain ⟨_, hne, record, hrecord, survivor, hsurvivor, _, hsession, rfl⟩ := h
  have hid : record.id = candidateId := Table.key_of_get hrecord
  refine ⟨hne, record, survivor, hrecord, hsurvivor, hsession,
    candidate_set (?_ : _ = some record)⟩
  rw [← hid] at hrecord
  exact hrecord

/-- The execution status of a candidate moves on, and nothing else of it. -/
theorem transitionCandidateExecution_ok {candidateId : String} {target : CandidateExecutionStatus}
    (h : transitionCandidateExecution candidates candidateId target = .ok candidates') :
    ∃ record, candidates.get candidateId = some record ∧
      (record.executionStatus = target ∨ executionAllows record.executionStatus target = true) ∧
      Table.Writes candidates candidates' { record with executionStatus := target } := by
  simp only [transitionCandidateExecution, bind_eq_ok, require_eq_ok] at h
  obtain ⟨record, hrecord, h⟩ := h
  have hid : record.id = candidateId := Table.key_of_get hrecord
  have hget : candidates.get record.id = some record := by
    rw [hid]
    exact hrecord
  split_ifs at h with hsame
  · cases h
    subst hsame
    exact ⟨record, hrecord, Or.inl rfl, .refl hget⟩
  · simp only [bind_eq_ok, ensure_eq_ok, pure_eq_ok] at h
    obtain ⟨_, hallowed, rfl⟩ := h
    exact ⟨record, hrecord, Or.inr hallowed, candidate_set hget⟩

end Repository

namespace CandidateMergePolicy

variable {policy : CandidateMergePolicy} {candidates candidates' : Table ActionCandidateRecord}

@[simp] theorem getRecord_eq_ok {candidateId : String} {record : ActionCandidateRecord} :
    policy.getRecord candidates candidateId = .ok record ↔
      candidates.get candidateId = some record ∧ record.sessionId = policy.sessionId := by
  simp only [getRecord, bind_eq_ok, require_eq_ok, ensure_eq_ok, pure_eq_ok]
  constructor
  · rintro ⟨_, hrecord, _, hsession, rfl⟩
    exact ⟨hrecord, hsession⟩
  · rintro ⟨hrecord, hsession⟩
    exact ⟨record, hrecord, (), hsession, rfl⟩

@[simp] theorem currentContent_eq_ok {record : ActionCandidateRecord}
    {content : ActionCandidateContent} : currentContent record = .ok content ↔
      ∃ revision, record.current? = some revision ∧ revision.content = content := by
  simp [currentContent]

/-- A creation finds the candidate of its identifier, or adds one. -/
inductive Created (policy : CandidateMergePolicy) (kind : CandidateKind)
    (derivedFrom : Option ActionCandidateRecord) (operation : CreateCandidateOperation)
    (candidates candidates' : Table ActionCandidateRecord) (record : ActionCandidateRecord) : Prop
  | found (unchanged : candidates' = candidates) (stored : candidates.get record.id = some record)
      (session : record.sessionId = policy.sessionId)
  | added (content : ActionCandidateContent) (absent : candidates.get record.id = none)
      (new : record = newCandidate policy.cfg policy.sessionId record.id content derivedFrom
        operation.changeSummary) (writes : Table.Writes candidates candidates' record)

theorem create_ok {kind : CandidateKind} {derivedFrom : Option ActionCandidateRecord}
    {operation : CreateCandidateOperation} {record : ActionCandidateRecord}
    (h : policy.create candidates kind derivedFrom operation = .ok (record, candidates')) :
    record.id = stableCandidateId policy.cfg kind operation.content
        operation.content.sourceSegmentIds ∧
      Created policy kind derivedFrom operation candidates candidates' record := by
  simp only [create, bind_eq_ok] at h
  obtain ⟨content, -, h⟩ := h
  split at h
  · rename_i existing hexisting
    simp only [bind_eq_ok, ensure_eq_ok, pure_eq_ok, Prod.mk.injEq] at h
    obtain ⟨_, hsession, rfl, rfl⟩ := h
    have hid : existing.id = _ := Table.key_of_get hexisting
    refine ⟨hid, .found rfl ?_ hsession⟩
    rw [hid]
    exact hexisting
  · rename_i hnone
    simp only [bind_eq_ok, require_eq_ok, pure_eq_ok, Prod.mk.injEq] at h
    obtain ⟨_, hinsert, rfl, rfl⟩ := h
    exact ⟨rfl, .added content hnone rfl (.of_insert hinsert)⟩

theorem revise_ok {operation : ReviseCandidateOperation}
    (h : policy.revise candidates operation = .ok candidates') :
    ∃ record content,
      Found policy candidates operation.candidateId operation.expectedRevision record ∧
      record.executionStatus ≠ .executing ∧
      Table.Writes candidates candidates'
        (record.revised content .revise operation.changeSummary) := by
  simp only [revise, bind_eq_ok, getRecord_eq_ok, ensure_eq_ok] at h
  obtain ⟨record, ⟨hstored, hsession⟩, _, hrevision, _, hactive, _, hidle, content, -, happend⟩ := h
  have hfound : Found policy candidates operation.candidateId operation.expectedRevision record :=
    ⟨hstored, hsession, hrevision, hactive⟩
  obtain ⟨row, hrow, -, hwrites⟩ := appendCandidateRevision_ok happend
  obtain rfl : record = row := Option.some.inj (hfound.get.symm.trans hrow)
  exact ⟨record, content, hfound, hidle, hwrites⟩

/-- What a merge does to two candidates of which no execution was requested. -/
structure Merged (policy : CandidateMergePolicy) (operation : MergeCandidatesOperation)
    (candidates candidates' : Table ActionCandidateRecord)
    (survivor duplicate : ActionCandidateRecord) : Prop where
  named : survivor.id = operation.first ∧ duplicate.id = operation.second ∨
    survivor.id = operation.second ∧ duplicate.id = operation.first
  survivor_found : Found policy candidates survivor.id survivor.currentRevision survivor
  duplicate_found : Found policy candidates duplicate.id duplicate.currentRevision duplicate
  survivor_idle : survivor.executionStatus = .notRequested
  duplicate_idle : duplicate.executionStatus = .notRequested
  writes : ∃ merged middle, Table.Writes candidates middle
      (survivor.revised merged .merge operation.changeSummary) ∧
    Table.Writes middle candidates' { duplicate with
      contentStatus := .superseded, supersededByCandidateId := some survivor.id }

theorem Merged.distinct {operation : MergeCandidatesOperation}
    {survivor duplicate : ActionCandidateRecord}
    (h : Merged policy operation candidates candidates' survivor duplicate) :
    duplicate.id ≠ survivor.id := by
  rcases h.named with ⟨hsurvivor, hduplicate⟩ | ⟨hsurvivor, hduplicate⟩
  · rw [hsurvivor, hduplicate]
    exact operation.distinct.symm
  · rw [hsurvivor, hduplicate]
    exact operation.distinct

theorem checkMergeable_ok {record : ActionCandidateRecord} {expectedRevision : ℕ} {u : Unit}
    (h : checkMergeable record expectedRevision = .ok u) :
    record.currentRevision = expectedRevision ∧ record.contentStatus = .active ∧
      record.executionStatus = .notRequested := by
  simp only [checkMergeable, bind_eq_ok, ensure_eq_ok] at h
  obtain ⟨_, hrevision, hfree⟩ := h
  exact ⟨hrevision, hfree⟩

theorem ordered_cases (first second : ActionCandidateRecord) :
    ordered first second = (first, second) ∨ ordered first second = (second, first) := by
  unfold ordered
  split_ifs
  · exact Or.inl rfl
  · exact Or.inr rfl

theorem merge_ok {operation : MergeCandidatesOperation}
    (h : policy.merge candidates operation = .ok candidates') :
    ∃ survivor duplicate, Merged policy operation candidates candidates' survivor duplicate := by
  simp only [merge, bind_eq_ok, getRecord_eq_ok, ensure_eq_ok] at h
  obtain ⟨_, -, first, ⟨hfirst, hfirstSession⟩, second,
    ⟨hsecond, hsecondSession⟩, _, hfirstCheck, _,
    hsecondCheck, _, -, _, -, safe, -, _, -, _, -, _, -, merged, -, middle, happend, hsupersede⟩ :=
      h
  obtain ⟨-, hfirstActive, hfirstIdle⟩ := checkMergeable_ok hfirstCheck
  obtain ⟨-, hsecondActive, hsecondIdle⟩ := checkMergeable_ok hsecondCheck
  have hfirstId : first.id = operation.first := Table.key_of_get hfirst
  have hsecondId : second.id = operation.second := Table.key_of_get hsecond
  rw [← hfirstId] at hfirst
  rw [← hsecondId] at hsecond
  -- Both are found; which of them survives is left to their order.
  have hboth : ∀ survivor duplicate : ActionCandidateRecord,
      ordered first second = (survivor, duplicate) →
        Found policy candidates survivor.id survivor.currentRevision survivor ∧
        Found policy candidates duplicate.id duplicate.currentRevision duplicate ∧
        survivor.executionStatus = .notRequested ∧ duplicate.executionStatus = .notRequested ∧
        (survivor.id = operation.first ∧ duplicate.id = operation.second ∨
          survivor.id = operation.second ∧ duplicate.id = operation.first) := by
    intro survivor duplicate horder
    have hfirstFound : Found policy candidates first.id first.currentRevision first :=
      ⟨hfirst, hfirstSession, rfl, hfirstActive⟩
    have hsecondFound : Found policy candidates second.id second.currentRevision second :=
      ⟨hsecond, hsecondSession, rfl, hsecondActive⟩
    rcases ordered_cases first second with hcase | hcase
    · obtain ⟨rfl, rfl⟩ := Prod.mk.inj (hcase.symm.trans horder)
      exact ⟨hfirstFound, hsecondFound, hfirstIdle, hsecondIdle, Or.inl ⟨hfirstId, hsecondId⟩⟩
    · obtain ⟨rfl, rfl⟩ := Prod.mk.inj (hcase.symm.trans horder)
      exact ⟨hsecondFound, hfirstFound, hsecondIdle, hfirstIdle, Or.inr ⟨hsecondId, hfirstId⟩⟩
  generalize ordered first second = pair at happend hsupersede hboth
  obtain ⟨survivor, duplicate⟩ := pair
  obtain ⟨hsurvivor, hduplicate, hsurvivorIdle, hduplicateIdle, hnamed⟩ := hboth _ _ rfl
  obtain ⟨row, hrow, -, hrevised⟩ := appendCandidateRevision_ok happend
  obtain rfl : survivor = row := Option.some.inj (hsurvivor.stored.symm.trans hrow)
  obtain ⟨hne, loser, _, hloser, -, -, hsuperseded⟩ := supersedeCandidate_ok hsupersede
  have hkept : middle.get duplicate.id = candidates.get duplicate.id := hrevised.2 _ hne
  rw [hkept] at hloser
  obtain rfl : duplicate = loser := Option.some.inj (hduplicate.stored.symm.trans hloser)
  exact ⟨survivor, duplicate, hnamed, hsurvivor, hduplicate, hsurvivorIdle, hduplicateIdle,
    merged, middle, hrevised, hsuperseded⟩

theorem cancel_ok {operation : CancelCandidateOperation}
    (h : policy.cancel candidates operation = .ok candidates') :
    ∃ record content,
      Found policy candidates operation.candidateId operation.expectedRevision record ∧
      (∃ revision, record.current? = some revision ∧ revision.content = content) ∧
      Table.Writes candidates candidates'
        { record.revised content .cancel (some operation.reason) with
          contentStatus := .cancelled } := by
  simp only [cancel, bind_eq_ok, getRecord_eq_ok, ensure_eq_ok, currentContent_eq_ok,
    require_eq_ok, pure_eq_ok] at h
  obtain ⟨_, -, record, ⟨hstored, hsession⟩, _, hrevision, _, hactive, content, hcontent, revised,
    happend, current, hcurrent, rfl⟩ := h
  have hfound : Found policy candidates operation.candidateId operation.expectedRevision record :=
    ⟨hstored, hsession, hrevision, hactive⟩
  obtain ⟨row, hrow, -, hwrites⟩ := appendCandidateRevision_ok happend
  obtain rfl : record = row := Option.some.inj (hfound.get.symm.trans hrow)
  obtain rfl : record.revised content .cancel (some operation.reason) = current :=
    Option.some.inj (hwrites.1.symm.trans hcurrent)
  exact ⟨record, content, hfound, hcontent, hwrites.trans (candidate_set hcurrent) rfl⟩

/-- What a split does to a candidate of which no execution was requested. -/
structure Split (policy : CandidateMergePolicy) (operation : SplitCandidateOperation)
    (candidates candidates' : Table ActionCandidateRecord) (parent first : ActionCandidateRecord)
    (rest : List ActionCandidateRecord) (created : Table ActionCandidateRecord) : Prop where
  found : Found policy candidates operation.candidateId operation.expectedRevision parent
  idle : parent.executionStatus = .notRequested
  children : policy.splitChildren parent operation.changeSummary operation.summary_brief 0
    operation.parts candidates = .ok (first :: rest, created)
  distinct : parent.id ≠ first.id
  writes : ∃ record survivor, created.get parent.id = some record ∧
    created.get first.id = some survivor ∧ record.sessionId = survivor.sessionId ∧
    Table.Writes created candidates'
      { record with contentStatus := .superseded, supersededByCandidateId := some first.id }

theorem split_ok {operation : SplitCandidateOperation}
    (h : policy.split candidates operation = .ok candidates') :
    ∃ parent first rest created,
      Split policy operation candidates candidates' parent first rest created := by
  simp only [split, bind_eq_ok, getRecord_eq_ok, ensure_eq_ok, require_eq_ok] at h
  obtain ⟨_, -, parent, ⟨hstored, hsession⟩, _, hrevision, _, ⟨hactive, hidle⟩, ⟨children, created⟩,
    hchildren, first, hfirst, hsupersede⟩ := h
  obtain ⟨rest, rfl⟩ := List.head?_eq_some_iff.mp hfirst
  obtain ⟨hne, record, survivor, hrecord, hsurvivor, hsame, hwrites⟩ :=
    supersedeCandidate_ok hsupersede
  exact ⟨parent, first, rest, created, ⟨hstored, hsession, hrevision, hactive⟩, hidle, hchildren,
    hne, record, survivor, hrecord, hsurvivor, hsame, hwrites⟩

end CandidateMergePolicy

def Fresh (record : ActionCandidateRecord) : Prop := record.executionStatus = .notRequested

/-- What operations that cancel the candidates of a list leave of one. -/
structure Undisturbed (cancelled : List String) (old record : ActionCandidateRecord) : Prop where
  id : record.id = old.id
  root : record.lineageRootId = old.lineageRootId
  execution : record.executionStatus = old.executionStatus
  frozen : old.executionStatus = .executing → old.id ∉ cancelled → record = old

variable {cancelled : List String} {old record : ActionCandidateRecord}
  {candidates candidates' : Table ActionCandidateRecord}

theorem Undisturbed.refl (record : ActionCandidateRecord) : Undisturbed cancelled record record :=
  ⟨rfl, rfl, rfl, fun _ _ => rfl⟩

theorem Undisturbed.trans {a b c : ActionCandidateRecord} (h : Undisturbed cancelled a b)
    (h' : Undisturbed cancelled b c) : Undisturbed cancelled a c := by
  refine ⟨h'.id.trans h.id, h'.root.trans h.root, h'.execution.trans h.execution,
    fun hexecuting hnot => ?_⟩
  obtain rfl := h.frozen hexecuting hnot
  exact h'.frozen hexecuting hnot

theorem Undisturbed.mono {cancelled' : List String} (h : Undisturbed cancelled old record)
    (hsub : cancelled ⊆ cancelled') : Undisturbed cancelled' old record :=
  ⟨h.id, h.root, h.execution, fun hexecuting hnot =>
    h.frozen hexecuting fun hin => hnot (hsub hin)⟩

/-- From one table to the next no execution moves. -/
abbrev AllUndisturbed (cancelled : List String)
    (candidates candidates' : Table ActionCandidateRecord) : Prop :=
  Table.Evolves (Undisturbed cancelled) Fresh candidates candidates'

theorem AllUndisturbed.refl (candidates : Table ActionCandidateRecord) :
    AllUndisturbed cancelled candidates candidates :=
  Table.Evolves.refl Undisturbed.refl candidates

theorem AllUndisturbed.trans {candidates'' : Table ActionCandidateRecord}
    (h : AllUndisturbed cancelled candidates candidates')
    (h' : AllUndisturbed cancelled candidates' candidates'') :
    AllUndisturbed cancelled candidates candidates'' :=
  Table.Evolves.trans Undisturbed.trans
    (fun hfresh hkept => hkept.execution.trans hfresh) h h'

/-- One candidate is written, whose execution is not under way or which is cancelled. -/
theorem AllUndisturbed.of_writes (hwrites : Table.Writes candidates candidates' record)
    (hold : candidates.get record.id = some old) (hkept : Undisturbed cancelled old record) :
    AllUndisturbed cancelled candidates candidates' := by
  refine Table.Evolves.of_writes Undisturbed.refl hwrites (fun row hrow => ?_) fun hnone => ?_
  · obtain rfl : old = row := Option.some.inj (hold.symm.trans hrow)
    exact hkept
  · have habsent : candidates.get record.id = none := hnone
    rw [hold] at habsent
    cases habsent

theorem Undisturbed.of_idle (hid : record.id = old.id)
    (hroot : record.lineageRootId = old.lineageRootId)
    (hexecution : record.executionStatus = old.executionStatus)
    (hidle : old.executionStatus ≠ .executing) : Undisturbed cancelled old record :=
  ⟨hid, hroot, hexecution, fun hexecuting => absurd hexecuting hidle⟩

/-- The candidates that an operation cancels. -/
def CandidateOperation.cancels : CandidateOperation → List String
  | .cancel operation => [operation.candidateId]
  | _ => []

namespace CandidateMergePolicy

variable {policy : CandidateMergePolicy}

theorem create_undisturbed {kind : CandidateKind} {derivedFrom : Option ActionCandidateRecord}
    {operation : CreateCandidateOperation}
    (h : policy.create candidates kind derivedFrom operation = .ok (record, candidates')) :
    AllUndisturbed cancelled candidates candidates' := by
  cases (create_ok h).2 with
  | found unchanged _ _ =>
    rw [unchanged]
    exact .refl candidates
  | added content absent new writes =>
    refine Table.Evolves.of_writes Undisturbed.refl writes (fun row hrow => ?_) fun _ => ?_
    · have hnone : candidates.get record.id = some row := hrow
      rw [absent] at hnone
      cases hnone
    · rw [new]
      rfl

theorem splitChildren_undisturbed {parent : ActionCandidateRecord} {changeSummary : Option String}
    {summary_brief : Brief changeSummary} {parts : List CandidateContentProposal} {index : ℕ}
    {children : List ActionCandidateRecord}
    (h : policy.splitChildren parent changeSummary summary_brief index parts candidates =
      .ok (children, candidates')) : AllUndisturbed cancelled candidates candidates' := by
  induction parts generalizing index candidates children with
  | nil =>
    simp only [splitChildren, pure_eq_ok, Prod.mk.injEq] at h
    obtain ⟨-, rfl⟩ := h
    exact .refl candidates
  | cons content rest ih =>
    simp only [splitChildren, bind_eq_ok, pure_eq_ok, Prod.mk.injEq] at h
    obtain ⟨⟨child, middle⟩, hcreate, ⟨later, created⟩, hlater, -, rfl⟩ := h
    exact (create_undisturbed hcreate).trans (ih hlater)

/-- One operation moves no execution, and disturbs none but of a candidate that it cancels. -/
theorem applyOperation_undisturbed {operation : CandidateOperation}
    (h : policy.applyOperation candidates operation = .ok candidates') :
    AllUndisturbed operation.cancels candidates candidates' := by
  cases operation with
  | create operation =>
    simp only [applyOperation, map_eq_ok, Prod.exists] at h
    obtain ⟨record, created, hcreate, rfl⟩ := h
    exact create_undisturbed hcreate
  | revise operation =>
    obtain ⟨record, content, hfound, hidle, hwrites⟩ := revise_ok h
    exact .of_writes hwrites hfound.get (.of_idle rfl rfl rfl hidle)
  | merge operation =>
    obtain ⟨survivor, duplicate, hmerged⟩ := merge_ok h
    obtain ⟨merged, middle, hrevised, hsuperseded⟩ := hmerged.writes
    have hduplicate : middle.get duplicate.id = some duplicate :=
      (hrevised.2 _ hmerged.distinct).trans hmerged.duplicate_found.stored
    refine (AllUndisturbed.of_writes hrevised hmerged.survivor_found.stored ?_).trans
      (.of_writes hsuperseded hduplicate ?_)
    · exact .of_idle rfl rfl rfl (by simp [hmerged.survivor_idle])
    · exact .of_idle rfl rfl rfl (by simp [hmerged.duplicate_idle])
  | split operation =>
    obtain ⟨parent, first, rest, created, hsplit⟩ := split_ok h
    obtain ⟨row, survivor, hrow, -, -, hwrites⟩ := hsplit.writes
    have hcreated : AllUndisturbed [] candidates created :=
      splitChildren_undisturbed hsplit.children
    obtain ⟨later, hlater, hkept⟩ := hcreated.kept _ parent hsplit.found.get
    obtain rfl : later = row := Option.some.inj (hlater.symm.trans hrow)
    have hid : later.id = parent.id := Table.key_of_get hlater
    rw [← hid] at hlater
    refine hcreated.trans (.of_writes hwrites hlater (.of_idle rfl rfl rfl ?_))
    rw [hkept.execution, hsplit.idle]
    simp
  | cancel operation =>
    obtain ⟨record, content, hfound, -, hwrites⟩ := cancel_ok h
    refine .of_writes hwrites hfound.get ⟨rfl, rfl, rfl, fun _ hnot => ?_⟩
    exact absurd (List.mem_singleton.mpr hfound.id) hnot

theorem applyOperations_undisturbed {operations : List CandidateOperation}
    (h : policy.applyOperations candidates operations = .ok candidates') :
    AllUndisturbed (operations.flatMap CandidateOperation.cancels) candidates candidates' := by
  refine foldlM_invariant
    (I := fun later => AllUndisturbed (operations.flatMap CandidateOperation.cancels) candidates
      later) (fun middle operation later hop hbefore hstep => ?_) (.refl candidates) h
  refine hbefore.trans (Table.Evolves.mono (fun hkept => hkept.mono ?_) id
    (applyOperation_undisturbed hstep))
  exact fun id hid => List.mem_flatMap.mpr ⟨operation, hop, hid⟩

end CandidateMergePolicy

end Meeting
end Matinier
