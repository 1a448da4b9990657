import Matinier.Foundation.Machine
import Matinier.Meeting.CandidateLineage

/-!
# The graph of candidates

In every run of the operations, by whatever sessions and with whatever transitions of executions
in between, the pointers of superseded candidates lead to one that is not superseded, a
superseded candidate stays as it is, and every candidate keeps its lineage.
-/

namespace Matinier
namespace Meeting

open Assistant

/-- What happens to candidates: a batch of operations is applied to those of a session, or the
execution status of one moves. -/
inductive CandidateAction where
  | delta (sessionId : SessionId) (evidence : List ProjectionSegment)
      (operations : List CandidateOperation)
  | execution (candidateId : String) (target : CandidateExecutionStatus)

/-- A transaction that fails leaves the candidates as they are. -/
def nextCandidates (cfg : CandidateConfig) (candidates : Table ActionCandidateRecord) :
    CandidateAction → Table ActionCandidateRecord
  | .delta sessionId evidence operations =>
    let policy : CandidateMergePolicy := { cfg, sessionId, evidence }
    (policy.applyOperations candidates operations).toOption.getD candidates
  | .execution candidateId target =>
    (transitionCandidateExecution candidates candidateId target).toOption.getD candidates

def CandidateSteps (cfg : CandidateConfig) (candidates : Table ActionCandidateRecord)
    (action : CandidateAction) (candidates' : Table ActionCandidateRecord) : Prop :=
  nextCandidates cfg candidates action = candidates'

section Operations

variable {candidates candidates' : Table ActionCandidateRecord} {record : ActionCandidateRecord}

namespace CandidateMergePolicy

variable {policy : CandidateMergePolicy}

theorem Created.kept {kind : CandidateKind} {derivedFrom : Option ActionCandidateRecord}
    {operation : CreateCandidateOperation}
    (h : Created policy kind derivedFrom operation candidates candidates' record) :
    AllKept candidates candidates' := by
  cases h with
  | found unchanged _ _ =>
    rw [unchanged]
    exact .refl Kept.refl candidates
  | added _ absent _ writes => exact .of_added absent writes

theorem Created.lineage {operation : CreateCandidateOperation}
    (h : Created policy .actionCandidate none operation candidates candidates' record)
    (hid : record.id = stableCandidateId policy.cfg .actionCandidate operation.content
      operation.content.sourceSegmentIds) (hlineage : Lineage policy.cfg noneMade candidates) :
    Lineage policy.cfg noneMade candidates' := by
  cases h with
  | found unchanged _ _ =>
    rw [unchanged]
    exact hlineage
  | added content absent new writes =>
    rw [new] at writes
    exact hlineage.added absent ⟨_, _, hid⟩ (fun _ => le_rfl) (fun _ _ => ⟨rfl, rfl⟩) writes

/-- The parts of `parent` made so far, while it is being split. -/
def madeOf (parentId : String) (count : ℕ) : String → ℕ :=
  Function.update noneMade parentId count

/-- A part of an active candidate, of which no part of this number is made, is added. -/
theorem Created.part {parent : ActionCandidateRecord} {index : ℕ}
    {operation : CreateCandidateOperation} (hkinds : policy.cfg.DistinctKinds)
    (h : Created policy (.split parent.id index) (some parent) operation candidates candidates'
      record)
    (hid : record.id = stableCandidateId policy.cfg (.split parent.id index) operation.content
      operation.content.sourceSegmentIds)
    (hlineage : Lineage policy.cfg (madeOf parent.id index) candidates)
    (hparent : candidates.get parent.id = some parent)
    (hactive : parent.contentStatus ≠ .superseded)
      (hsession : parent.sessionId = policy.sessionId) :
    candidates.get record.id = none ∧ Table.Writes candidates candidates' record ∧
      (∃ content, record = newCandidate policy.cfg policy.sessionId record.id content (some parent)
        operation.changeSummary) ∧
      Lineage policy.cfg (madeOf parent.id (index + 1)) candidates' := by
  cases h with
  | found _ stored _ =>
    -- A stored part of an active candidate is one of those made before, which have other numbers.
    exfalso
    obtain ⟨kind, ⟨content, evidence, hkind⟩, hmade⟩ := (hlineage.rows _ record stored).origin
    obtain rfl : CandidateKind.split parent.id index = kind :=
      hkinds _ _ _ _ _ _ (hid.symm.trans hkind)
    obtain ⟨-, row, hrow, -, -, hopen⟩ := hmade
    obtain rfl : parent = row := Option.some.inj (hparent.symm.trans hrow)
    have hlt := hopen.resolve_left hactive
    simp [madeOf] at hlt
  | added content absent new writes =>
    refine ⟨absent, writes, ⟨content, new⟩, ?_⟩
    have hne : parent.id ≠ record.id := ne_of_absent absent hparent
    rw [new] at writes
    refine hlineage.added absent ⟨_, _, hid⟩ (fun other => ?_) (fun later hlater => ?_) writes
    · by_cases hother : other = parent.id
      · subst hother
        simp [madeOf]
      · simp [madeOf, hother]
    · exact ⟨rfl, parent, (hlater.2 _ hne).trans hparent, rfl, hsession.symm,
        Or.inr (by simp [madeOf])⟩

/-- A part of a split candidate, by its number and its content. -/
structure PartOf (policy : CandidateMergePolicy) (parent : ActionCandidateRecord) (index : ℕ)
    (content : CandidateContentProposal) (child : ActionCandidateRecord) : Prop where
  id : child.id = stableCandidateId policy.cfg (.split parent.id index) content
    content.sourceSegmentIds
  active : child.contentStatus = .active
  root : child.lineageRootId = child.id
  session : child.sessionId = policy.sessionId
  derivedFrom : child.derivedFromCandidateId = some parent.id
  derivedRevision : child.derivedFromRevision = some parent.currentRevision

/-- Every part of an active candidate is added, each under an identifier of its own. -/
theorem splitChildren_ok {parent : ActionCandidateRecord} {changeSummary : Option String}
    {summary_brief : Brief changeSummary} {parts : List CandidateContentProposal} {index : ℕ}
    {children : List ActionCandidateRecord} (hkinds : policy.cfg.DistinctKinds)
    (hactive : parent.contentStatus ≠ .superseded) (hsession : parent.sessionId = policy.sessionId)
    (hlineage : Lineage policy.cfg (madeOf parent.id index) candidates)
    (hparent : candidates.get parent.id = some parent)
    (h : policy.splitChildren parent changeSummary summary_brief index parts candidates =
      .ok (children, candidates')) :
    Lineage policy.cfg (madeOf parent.id (index + parts.length)) candidates' ∧
      AllKept candidates candidates' ∧
      (∀ id row, candidates.get id = some row → candidates'.get id = some row) ∧
      ∀ i content, parts[i]? = some content → ∃ child, children[i]? = some child ∧
        candidates.get child.id = none ∧ candidates'.get child.id = some child ∧
        PartOf policy parent (index + i) content child := by
  induction parts generalizing index candidates children with
  | nil =>
    simp only [splitChildren, pure_eq_ok, Prod.mk.injEq] at h
    obtain ⟨rfl, rfl⟩ := h
    exact ⟨hlineage, .refl Kept.refl candidates, fun _ _ hrow => hrow, by simp⟩
  | cons content rest ih =>
    simp only [splitChildren, bind_eq_ok, pure_eq_ok, Prod.mk.injEq] at h
    obtain ⟨⟨child, middle⟩, hcreate, ⟨later, created⟩, hlater, rfl, rfl⟩ := h
    obtain ⟨hid, hcreated⟩ := create_ok hcreate
    obtain ⟨habsent, hwrites, ⟨stored, hnew⟩, hmiddle⟩ :=
      hcreated.part hkinds hid hlineage hparent hactive hsession
    have hne : parent.id ≠ child.id := ne_of_absent habsent hparent
    obtain ⟨hdone, hkept, hframe, hparts⟩ :=
      ih hmiddle ((hwrites.2 _ hne).trans hparent) hlater
    refine ⟨?_, (AllKept.of_added habsent hwrites).trans hkept, fun id row hrow => ?_,
      fun i part hpart => ?_⟩
    · rw [List.length_cons, Nat.add_comm rest.length, ← Nat.add_assoc]
      exact hdone
    · exact hframe id row ((hwrites.2 id (ne_of_absent habsent hrow)).trans hrow)
    · cases i with
      | zero =>
        obtain rfl : content = part := by simpa using hpart
        refine ⟨child, rfl, habsent, hframe _ _ hwrites.1, hid, ?_, ?_, ?_, ?_,
          ?_⟩ <;> rw [hnew] <;>
          rfl
      | succ i =>
        obtain ⟨other, hother, hnone, hstored, hpartOf⟩ := hparts i part (by simpa using hpart)
        refine ⟨other, by simpa using hother, ?_, hstored, ?_⟩
        · exact (hwrites.2 _ (ne_of_absent hnone hwrites.1).symm).symm.trans hnone
        · rw [Nat.add_comm i 1, ← Nat.add_assoc]
          exact hpartOf

/-- A split supersedes its candidate by the first of its parts, and adds the parts. -/
theorem Split.kept {operation : SplitCandidateOperation} {parent first : ActionCandidateRecord}
    {rest : List ActionCandidateRecord} {created : Table ActionCandidateRecord}
    (h : Split policy operation candidates candidates' parent first rest created)
    (hkinds : policy.cfg.DistinctKinds) (hlineage : Lineage policy.cfg noneMade candidates) :
    Lineage policy.cfg noneMade candidates' ∧ AllKept candidates candidates' ∧
      candidates'.get parent.id = some { parent with
        contentStatus := .superseded, supersededByCandidateId := some first.id } ∧
      ∀ i content, operation.parts[i]? = some content →
        ∃ child, (first :: rest)[i]? = some child ∧ candidates.get child.id = none ∧
          candidates'.get child.id = some child ∧ PartOf policy parent i content child := by
  have hactive := h.found.not_superseded
  have hparent := h.found.get
  have hopen : Lineage policy.cfg (madeOf parent.id 0) candidates := by
    have hnone : madeOf parent.id 0 = noneMade := Function.update_eq_self parent.id noneMade
    rw [hnone]
    exact hlineage
  obtain ⟨hcreated, hkept, hframe, hparts⟩ :=
    splitChildren_ok hkinds hactive h.found.session hopen hparent h.children
  obtain ⟨record, survivor, hrecord, hsurvivor, hsame, hwrites⟩ := h.writes
  have hstill : created.get parent.id = some parent := hframe _ _ hparent
  obtain rfl : parent = record := Option.some.inj (hstill.symm.trans hrecord)
  obtain ⟨content, hcontent⟩ : ∃ content, operation.parts[0]? = some content :=
    ⟨_, List.getElem?_eq_getElem (Nat.lt_of_lt_of_le Nat.two_pos operation.parts_two)⟩
  obtain ⟨child, hchild, -, hstored, hpartOf⟩ := hparts 0 content hcontent
  obtain rfl : first = child := by simpa using hchild
  obtain rfl : first = survivor := Option.some.inj (hstored.symm.trans hsurvivor)
  refine ⟨hcreated.superseded hstill hsurvivor ?_ h.distinct hsame (fun id hid => ?_) hwrites,
    hkept.trans (.of_writes hwrites hstill (Kept.superseded hactive first.id)), hwrites.1,
    fun i content hi => ?_⟩
  · rw [hpartOf.active]
    nofun
  · exact Function.update_of_ne hid _ _
  · obtain ⟨child, hchild, habsent, hstored, hpart⟩ := hparts i content hi
    rw [Nat.zero_add] at hpart
    exact ⟨child, hchild, habsent, (hwrites.2 _ (ne_of_absent habsent hparent).symm).trans hstored,
      hpart⟩

/-- A merge revises the candidate that survives and supersedes the other one by it. -/
theorem Merged.kept {operation : MergeCandidatesOperation}
    {survivor duplicate : ActionCandidateRecord}
    (h : Merged policy operation candidates candidates' survivor duplicate)
    (hlineage : Lineage policy.cfg noneMade candidates) :
    Lineage policy.cfg noneMade candidates' ∧ AllKept candidates candidates' := by
  obtain ⟨merged, middle, hrevised, hsuperseded⟩ := h.writes
  have hsurvivor := h.survivor_found.not_superseded
  have hduplicate : middle.get duplicate.id = some duplicate :=
    (hrevised.2 _ h.distinct).trans h.duplicate_found.stored
  have hmiddle : Lineage policy.cfg noneMade middle :=
    hlineage.revised h.survivor_found.stored hrevised hsurvivor hsurvivor
  refine ⟨hmiddle.superseded hduplicate hrevised.1 hsurvivor h.distinct ?_ (fun _ _ => rfl)
    hsuperseded, ?_⟩
  · exact h.duplicate_found.session.trans h.survivor_found.session.symm
  · refine (AllKept.of_writes hrevised h.survivor_found.stored ?_).trans
      (.of_writes hsuperseded hduplicate (Kept.superseded h.duplicate_found.not_superseded _))
    exact Kept.revised hsurvivor merged .merge operation.changeSummary _

/-- One operation keeps the graph of candidates, and every candidate in it. -/
theorem applyOperation_kept {operation : CandidateOperation} (hkinds : policy.cfg.DistinctKinds)
    (hlineage : Lineage policy.cfg noneMade candidates)
    (h : policy.applyOperation candidates operation = .ok candidates') :
    Lineage policy.cfg noneMade candidates' ∧ AllKept candidates candidates' := by
  cases operation with
  | create operation =>
    simp only [applyOperation, map_eq_ok, Prod.exists] at h
    obtain ⟨record, created, hcreate, rfl⟩ := h
    obtain ⟨hid, hcreated⟩ := create_ok hcreate
    exact ⟨hcreated.lineage hid hlineage, hcreated.kept⟩
  | revise operation =>
    obtain ⟨record, content, hfound, -, hwrites⟩ := revise_ok h
    have hactive := hfound.not_superseded
    exact ⟨hlineage.revised hfound.get hwrites hactive hactive,
      .of_writes hwrites hfound.get (Kept.revised hactive content .revise _ _)⟩
  | merge operation =>
    obtain ⟨survivor, duplicate, hmerged⟩ := merge_ok h
    exact hmerged.kept hlineage
  | split operation =>
    obtain ⟨parent, first, rest, created, hsplit⟩ := split_ok h
    obtain ⟨hlineage', hkept, -⟩ := hsplit.kept hkinds hlineage
    exact ⟨hlineage', hkept⟩
  | cancel operation =>
    obtain ⟨record, content, hfound, -, hwrites⟩ := cancel_ok h
    have hactive := hfound.not_superseded
    exact ⟨hlineage.revised hfound.get hwrites hactive (fun h => by cases h),
      .of_writes hwrites hfound.get (Kept.revised hactive content .cancel _ .cancelled)⟩

theorem applyOperations_kept {operations : List CandidateOperation}
    (hkinds : policy.cfg.DistinctKinds) (hlineage : Lineage policy.cfg noneMade candidates)
    (h : policy.applyOperations candidates operations = .ok candidates') :
    Lineage policy.cfg noneMade candidates' ∧ AllKept candidates candidates' :=
  foldlM_invariant (I := fun later => Lineage policy.cfg noneMade later ∧ AllKept candidates later)
    (fun _ _ _ _ hbefore hstep =>
      have hafter := applyOperation_kept hkinds hbefore.1 hstep
      ⟨hafter.1, hbefore.2.trans hafter.2⟩)
    ⟨hlineage, .refl Kept.refl candidates⟩ h

end CandidateMergePolicy

end Operations

def CandidateAction.IsDelta : CandidateAction → Prop
  | .delta .. => True
  | .execution .. => False

/-- What every step keeps of a candidate; where it is superseded, all but its execution. -/
structure Descends (old record : ActionCandidateRecord) : Prop where
  root : record.lineageRootId = old.lineageRootId
  revisions : old.revisions <+: record.revisions
  frozen : old.contentStatus = .superseded →
    record = { old with executionStatus := record.executionStatus }

theorem Descends.refl (record : ActionCandidateRecord) : Descends record record :=
  ⟨rfl, List.prefix_rfl, fun _ => rfl⟩

theorem Descends.trans {a b c : ActionCandidateRecord} (h : Descends a b) (h' : Descends b c) :
    Descends a c := by
  refine ⟨h'.root.trans h.root, h.revisions.trans h'.revisions, fun hfrozen => ?_⟩
  have hb := h.frozen hfrozen
  have hfrozen' : b.contentStatus = .superseded := by
    rw [hb]
    exact hfrozen
  rw [h'.frozen hfrozen', hb]

theorem Kept.descends {old record : ActionCandidateRecord} (h : Kept old record) :
    Descends old record := by
  refine ⟨h.root, h.revisions, fun hfrozen => ?_⟩
  rw [h.frozen hfrozen]

section Run

variable {cfg : CandidateConfig} {candidates candidates' : Table ActionCandidateRecord}
  {action : CandidateAction} {actions : List CandidateAction}

theorem CandidateSteps.kept (hkinds : cfg.DistinctKinds)
    (hlineage : Lineage cfg noneMade candidates)
    (h : CandidateSteps cfg candidates action candidates') :
    Lineage cfg noneMade candidates' ∧
      Table.Evolves Descends (fun _ => True) candidates candidates' ∧
      (action.IsDelta → AllKept candidates candidates') := by
  subst h
  cases action with
  | delta sessionId evidence operations =>
    let policy : CandidateMergePolicy := { cfg, sessionId, evidence }
    cases happly : policy.applyOperations candidates operations with
    | error fault =>
      have hsame : nextCandidates cfg candidates (.delta sessionId evidence operations) =
          candidates := by
        simp [nextCandidates, policy, happly, Except.toOption]
      rw [hsame]
      exact ⟨hlineage, .refl Descends.refl candidates, fun _ => .refl Kept.refl candidates⟩
    | ok changed =>
      have hchanged : nextCandidates cfg candidates (.delta sessionId evidence operations) =
          changed := by
        simp [nextCandidates, policy, happly, Except.toOption]
      rw [hchanged]
      obtain ⟨hlineage', hkept⟩ := policy.applyOperations_kept hkinds hlineage happly
      exact ⟨hlineage', hkept.mono Kept.descends id, fun _ => hkept⟩
  | execution candidateId target =>
    cases hmove : transitionCandidateExecution candidates candidateId target with
    | error fault =>
      have hsame : nextCandidates cfg candidates (.execution candidateId target) = candidates := by
        simp [nextCandidates, hmove, Except.toOption]
      rw [hsame]
      exact ⟨hlineage, .refl Descends.refl candidates, fun h => by cases h⟩
    | ok changed =>
      have hchanged : nextCandidates cfg candidates (.execution candidateId target) = changed := by
        simp [nextCandidates, hmove, Except.toOption]
      rw [hchanged]
      obtain ⟨record, hrecord, -, hwrites⟩ := transitionCandidateExecution_ok hmove
      have hid : record.id = candidateId := Table.key_of_get hrecord
      rw [← hid] at hrecord
      refine ⟨hlineage.transitioned hrecord hwrites, ?_, fun h => by cases h⟩
      refine Table.Evolves.of_writes Descends.refl hwrites (fun row hrow => ?_) fun _ => trivial
      obtain rfl : record = row := Option.some.inj (hrecord.symm.trans hrow)
      exact ⟨rfl, List.prefix_rfl, fun _ => rfl⟩

theorem run_lineage (hkinds : cfg.DistinctKinds)
    (hrun : Run (CandidateSteps cfg) .empty actions candidates) :
    Lineage cfg noneMade candidates :=
  hrun.invariant (fun _ _ _ hbefore hstep => (hstep.kept hkinds hbefore).1) .empty

theorem run_descends (hkinds : cfg.DistinctKinds) (hlineage : Lineage cfg noneMade candidates)
    (hrun : Run (CandidateSteps cfg) candidates actions candidates') :
    Table.Evolves Descends (fun _ => True) candidates candidates' :=
  hrun.relation (fun s => .refl Descends.refl s)
    (fun h h' => Table.Evolves.trans Descends.trans (fun h _ => h) h h')
    (fun _ _ _ hbefore hstep => (hstep.kept hkinds hbefore).1)
    (fun _ _ _ hbefore hstep => (hstep.kept hkinds hbefore).2.1) hlineage

theorem run_kept (hkinds : cfg.DistinctKinds) (hlineage : Lineage cfg noneMade candidates)
    (hrun : Run (Under (fun _ action => action.IsDelta) (CandidateSteps cfg)) candidates actions
      candidates') : AllKept candidates candidates' :=
  hrun.relation (fun s => .refl Kept.refl s) AllKept.trans
    (fun _ _ _ hbefore hstep => (hstep.2.kept hkinds hbefore).1)
    (fun _ _ _ hbefore hstep => (hstep.2.kept hkinds hbefore).2.2 hstep.1) hlineage

/-- The pointers of a candidate lead to one of its session that is not superseded. -/
theorem Lineage.leadsTo {made : String → ℕ} (h : Lineage cfg made candidates) {id : String}
    {record : ActionCandidateRecord} (hrecord : candidates.get id = some record) :
    ∃ root survivor, LeadsTo (supersededBy candidates) id root ∧
      (∀ other, LeadsTo (supersededBy candidates) id other → other = root) ∧
      candidates.get root = some survivor ∧ survivor.sessionId = record.sessionId ∧
      survivor.contentStatus ≠ .superseded := by
  obtain ⟨root, hpath, hroot⟩ := h.ranked.leadsTo id
  have hstored : ∃ survivor, candidates.get root = some survivor ∧
      survivor.sessionId = record.sessionId := by
    clear hroot
    induction hpath with
    | refl => exact ⟨record, hrecord, rfl⟩
    | @tail middle next _ hpoints ih =>
      obtain ⟨row, hrow, hsession⟩ := ih
      have hnext : row.supersededByCandidateId = some next := by
        simpa [Points, supersededBy, hrow] using hpoints
      obtain ⟨survivor, hsurvivor, hsame⟩ := (h.rows middle row hrow).target next hnext
      exact ⟨survivor, hsurvivor, hsame.trans hsession⟩
  obtain ⟨survivor, hsurvivor, hsession⟩ := hstored
  refine ⟨root, survivor, ⟨hpath, hroot⟩, fun other hother => hother.unique ⟨hpath, hroot⟩,
    hsurvivor, hsession, fun hsuperseded => ?_⟩
  have hpointer : survivor.supersededByCandidateId = none := by
    simpa [supersededBy, hsurvivor] using hroot
  exact (h.rows root survivor hsurvivor).pointed.mp hsuperseded hpointer

open CandidateMergePolicy

/-- In every run the revisions of a candidate have no gap; the pointers of the superseded lead to a
candidate that is not; lineages are kept, and what is superseded stays as it is; a merge keeps the
root of the survivor, and the parts of a split record what they were split from. -/
theorem candidate_graph (hkinds : cfg.DistinctKinds)
    (hrun : Run (CandidateSteps cfg) .empty actions candidates) :
    (∀ id record, candidates.get id = some record →
      record.revisions.map CandidateRevision.revision = List.range' 1 record.currentRevision) ∧
    (∀ id, ¬ Relation.TransGen (Points (supersededBy candidates)) id id) ∧
    (∀ id record, candidates.get id = some record → record.contentStatus = .superseded →
      ∃ root survivor, LeadsTo (supersededBy candidates) id root ∧
        (∀ other, LeadsTo (supersededBy candidates) id other → other = root) ∧
        candidates.get root = some survivor ∧ survivor.sessionId = record.sessionId ∧
        survivor.contentStatus ≠ .superseded) ∧
    (∀ later candidates', Run (CandidateSteps cfg) candidates later candidates' →
      ∀ id record, candidates.get id = some record →
        ∃ record', candidates'.get id = some record' ∧ Descends record record') ∧
    (∀ later candidates',
      Run (Under (fun _ action => action.IsDelta) (CandidateSteps cfg)) candidates
        later candidates' →
        ∀ id record, candidates.get id = some record → record.contentStatus = .superseded →
          candidates'.get id = some record) ∧
    (∀ policy operation candidates', policy.cfg = cfg →
      policy.merge candidates operation = .ok candidates' →
        ∃ survivor duplicate merged,
          Merged policy operation candidates candidates' survivor duplicate ∧
          candidates'.get survivor.id =
            some (survivor.revised merged .merge operation.changeSummary) ∧
          candidates'.get duplicate.id = some { duplicate with
            contentStatus := .superseded, supersededByCandidateId := some survivor.id }) ∧
    (∀ policy operation candidates', policy.cfg = cfg →
      policy.split candidates operation = .ok candidates' →
        ∃ parent first,
          Found policy candidates operation.candidateId operation.expectedRevision parent ∧
          candidates'.get parent.id = some { parent with
            contentStatus := .superseded, supersededByCandidateId := some first } ∧
          ∀ i content, operation.parts[i]? = some content →
            ∃ child, candidates.get child.id = none ∧ candidates'.get child.id = some child ∧
              PartOf policy parent i content child) := by
  have hlineage := run_lineage hkinds hrun
  refine ⟨fun id record hrecord => (hlineage.rows id record hrecord).revisions,
    hlineage.ranked.acyclic, fun id record hrecord _ => hlineage.leadsTo hrecord,
    fun later candidates' hlater => (run_descends hkinds hlineage hlater).kept,
    fun later candidates' hlater id record hrecord hfrozen => ?_,
    fun policy operation candidates' hcfg hmerge => ?_,
    fun policy operation candidates' hcfg hsplit => ?_⟩
  · obtain ⟨record', hrecord', hkept⟩ := (run_kept hkinds hlineage hlater).kept id record hrecord
    rw [← hkept.frozen hfrozen]
    exact hrecord'
  · obtain ⟨survivor, duplicate, hmerged⟩ := merge_ok hmerge
    obtain ⟨merged, middle, hrevised, hsuperseded⟩ := hmerged.writes
    exact ⟨survivor, duplicate, merged, hmerged,
      (hsuperseded.2 _ hmerged.distinct.symm).trans hrevised.1, hsuperseded.1⟩
  · subst hcfg
    obtain ⟨parent, first, rest, created, hparts⟩ := split_ok hsplit
    obtain ⟨-, -, hparent, hchildren⟩ := hparts.kept hkinds hlineage
    refine ⟨parent, first.id, hparts.found, hparent, fun i content hcontent => ?_⟩
    obtain ⟨child, -, habsent, hstored, hpart⟩ := hchildren i content hcontent
    exact ⟨child, habsent, hstored, hpart⟩

end Run

def plainDigest (kind : CandidateKind) (content : NormalizedContent) (_ : List SegmentId) :
    String :=
  String.ofList (match kind with
    | .actionCandidate => 'c' :: (content.title.value.getD "").toList
    | .split parentId index => List.replicate index 'p' ++ 's' :: parentId.toList)

def plainCandidates : CandidateConfig where
  digest := plainDigest
  normalizedText := id
  createdAt := fun _ => 0

theorem plainCandidates_distinctKinds : plainCandidates.DistinctKinds := by
  have hsplit : ∀ (i j : ℕ) (l l' : List Char),
      List.replicate i 'p' ++ 's' :: l = List.replicate j 'p' ++ 's' :: l' → i = j ∧ l = l' := by
    intro i
    induction i with
    | zero => intro j l l' h; cases j <;> simp_all [List.replicate_succ]
    | succ i ih =>
      intro j l l' h
      cases j with
      | zero => simp [List.replicate_succ] at h
      | succ j =>
        obtain ⟨rfl, rfl⟩ := ih j l l' (by simpa [List.replicate_succ] using h)
        exact ⟨rfl, rfl⟩
  intro kind content evidence kind' content' evidence' h
  have hlist := String.ofList_injective h
  cases kind with
  | actionCandidate =>
    cases kind' with
    | actionCandidate => rfl
    | split parentId index => cases index <;> simp [List.replicate_succ] at hlist
  | split parentId index =>
    cases kind' with
    | actionCandidate => cases index <;> simp [List.replicate_succ] at hlist
    | split parentId' index' =>
      obtain ⟨rfl, hparent⟩ := hsplit _ _ _ _ hlist
      rw [String.toList_injective hparent]

def spokenProposal (title : String) : CandidateContentProposal where
  title :=
    { value := some title
      resolution := .known
      sourceSegmentIds := [1]
      known_value := fun _ => rfl }
  deliverable := { resolution := .missing, sourceSegmentIds := [1] }
  assignee := { resolution := .missing, sourceSegmentIds := [1] }
  dueAt := { resolution := .missing, sourceSegmentIds := [1] }
  priority := { resolution := .missing, sourceSegmentIds := [1] }

def reportCaption : SegmentRecord where
  sessionId := 1
  segmentId := 1
  trackId := "mic"
  revision := 1
  language := "en"
  rawText := "send the report and the slides"
  displayText := "Send the report and the slides."

def splitTrace : List CandidateAction :=
  [.delta 1 [⟨reportCaption, by decide⟩] [.create { content := spokenProposal "send" }],
    .delta 1 [⟨reportCaption, by decide⟩] [.split
      { candidateId := "csend"
        expectedRevision := 1
        parts := [spokenProposal "report", spokenProposal "slides"]
        sourceSegmentIds := [1] }]]

def splitCandidates : Table ActionCandidateRecord :=
  splitTrace.foldl (nextCandidates plainCandidates) .empty

theorem splitCandidates_run :
    Run (CandidateSteps plainCandidates) .empty splitTrace splitCandidates :=
  .more rfl (.more rfl (.done _))

def sendCandidate : ActionCandidateRecord := (splitCandidates.get "csend").get (by decide)

theorem splitCandidates_leads : sendCandidate.contentStatus = .superseded ∧
    ∃ root survivor, LeadsTo (supersededBy splitCandidates) "csend" root ∧
      (∀ other, LeadsTo (supersededBy splitCandidates) "csend" other → other = root) ∧
      splitCandidates.get root = some survivor ∧ survivor.sessionId = sendCandidate.sessionId ∧
      survivor.contentStatus ≠ .superseded := by
  have hsuperseded : sendCandidate.contentStatus = .superseded := by decide
  exact ⟨hsuperseded, (candidate_graph plainCandidates_distinctKinds splitCandidates_run).2.2.1
    "csend" sendCandidate (Option.some_get _).symm hsuperseded⟩

end Meeting
end Matinier
