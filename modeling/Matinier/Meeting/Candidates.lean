import Matinier.Meeting.Projector

/-!
# The operations on candidates

A batch of operations is applied to the candidates of a session, each operation checked against
the revision and the status of the candidates it names. What a creation makes is identified by
its content and the captions it cites; repeated, it finds the candidate it made. Merging two
candidates keeps the older one; splitting one creates its parts as candidates of their own.
-/

namespace Matinier
namespace Meeting

open Assistant

/-- What a candidate is made as: by itself, or as a part of another one. -/
inductive CandidateKind where
  | actionCandidate
  | split (parentId : String) (index : ℕ)
  deriving DecidableEq, Repr

/-- A proposed field in a form in which case and blanks do not count. -/
structure NormalizedValue (α : Type) where
  value : Option α
  resolution : Resolution
  sourceSegmentIds : List SegmentId
  confidence : Option ℚ
  explanation : Option String

structure NormalizedContent where
  title : NormalizedValue String
  deliverable : NormalizedValue String
  assignee : NormalizedValue String
  dueAt : NormalizedValue DueDate
  priority : NormalizedValue TaskPriority
  blockingConflictSegmentIds : List SegmentId

/-- The digest that identifies a candidate, the form of a text in which case and blanks do not
count, and when each candidate is created, which it is once. -/
structure CandidateConfig where
  digest : CandidateKind → NormalizedContent → List SegmentId → String
  normalizedText : String → String
  createdAt : String → Instant

/-- A proposed field, its value and its explanation normalized. -/
def GroundedValueProposal.normalized {α : Type} (cfg : CandidateConfig) (normalizedValue : α → α)
    (proposal : GroundedValueProposal α) : NormalizedValue α where
  value := proposal.value.map normalizedValue
  resolution := proposal.resolution
  sourceSegmentIds := proposal.sourceSegmentIds
  confidence := proposal.confidence
  explanation := proposal.explanation.map cfg.normalizedText

def CandidateContentProposal.normalized (cfg : CandidateConfig)
    (proposal : CandidateContentProposal) : NormalizedContent where
  title := proposal.title.normalized cfg cfg.normalizedText
  deliverable := proposal.deliverable.normalized cfg cfg.normalizedText
  assignee := proposal.assignee.normalized cfg cfg.normalizedText
  dueAt := proposal.dueAt.normalized cfg id
  priority := proposal.priority.normalized cfg id
  blockingConflictSegmentIds := proposal.blockingConflictSegmentIds

def stableCandidateId (cfg : CandidateConfig) (kind : CandidateKind)
    (content : CandidateContentProposal) (evidenceIds : List SegmentId) : String :=
  cfg.digest kind (content.normalized cfg) (evidenceIds.dedup.insertionSort (· ≤ ·))

/-- The caption that is evidence under an identifier. -/
def evidenceBy (evidence : List ProjectionSegment) (segmentId : SegmentId) :
    Option ProjectionSegment :=
  evidence.find? fun segment => segment.segmentId = segmentId

/-- The messages of captions among the evidence. -/
def messagesOf (evidence : List ProjectionSegment) (sources : List SegmentId) :
    List CaptionEvidenceMessage :=
  (sources.filterMap (evidenceBy evidence)).map CaptionEvidenceMessage.mk

def messageIdsOf (evidence : List ProjectionSegment) (sources : List SegmentId) :
    List MessageId :=
  (messagesOf evidence sources).map CaptionEvidenceMessage.messageId

def grounded {α β : Type} (evidence : List ProjectionSegment) (proposal : GroundedValueProposal α)
    (value : Option β) (resolution : Resolution) : Except Fault (GroundedValue β) :=
  let ids := messageIdsOf evidence proposal.sourceSegmentIds
  if known_value : resolution = .known → value.isSome = true then
    if cites : ids ≠ [] then
      if evidence_nodup : ids.Nodup then
        .ok
          { value
            origin := .meetingInferred
            resolution
            evidenceMessageIds := ids
            confidence := proposal.confidence
            explanation := proposal.explanation
            known_value
            grounded := fun _ => cites
            evidence_nodup
            confidence_range := proposal.confidence_range
            explanation_brief := proposal.explanation_brief }
      else .error (.value "evidence message IDs must be unique")
    else .error (.value "non-default grounded values require evidence")
  else .error (.value "known grounded values require a value")

/-- Somebody who was named in the meeting and is not known further. -/
def spokenAssignee (spokenText : String) : Except Fault AssigneeValue :=
  if h : 1 ≤ spokenText.length ∧ spokenText.length ≤ 255 then
    .ok
      { spokenText
        linearUserId := none
        isPlaceholder := true
        spoken_length := h
        user_length := nofun
        placeholder_unknown := fun _ => rfl }
  else .error (.value "spoken_text has from 1 to 255 characters")

def makeContent (title deliverable : GroundedValue String) (assignee : GroundedValue AssigneeValue)
    (dueAt : GroundedValue DueDate) (priority : GroundedValue TaskPriority)
    (evidenceMessages : List CaptionEvidenceMessage)
    (blockingConflictMessageIds : List MessageId) : Except Fault ActionCandidateContent :=
  let available := evidenceMessages.map CaptionEvidenceMessage.messageId
  let cited := blockingConflictMessageIds ++ title.evidenceMessageIds ++
    deliverable.evidenceMessageIds ++ assignee.evidenceMessageIds ++ dueAt.evidenceMessageIds ++
    priority.evidenceMessageIds
  if messages_nodup : available.Nodup then
    if cited_available : ∀ id ∈ cited, id ∈ available then
      .ok
        { title
          deliverable
          assignee
          dueAt
          priority
          evidenceMessages
          blockingConflictMessageIds
          messages_nodup
          cited_available }
    else .error (.value "candidate fields reference missing evidence messages")
  else .error (.value "evidence message IDs must be unique")

/-- A value that a meeting names is not known yet for whom it stands. -/
def assigneeResolution (proposal : GroundedValueProposal String) : Resolution :=
  if proposal.value.isSome = true ∧ proposal.resolution = .known then .ambiguous
  else proposal.resolution

def materializeCandidateContent (proposal : CandidateContentProposal)
    (evidence : List ProjectionSegment) : Except Fault ActionCandidateContent := do
  ensure (∀ s ∈ proposal.sourceSegmentIds, (evidenceBy evidence s).isSome = true)
    (.value "candidate references unavailable Segment evidence")
  let assignee ← proposal.assignee.value.mapM spokenAssignee
  makeContent
    (← grounded evidence proposal.title proposal.title.value proposal.title.resolution)
    (← grounded evidence proposal.deliverable proposal.deliverable.value
      proposal.deliverable.resolution)
    (← grounded evidence proposal.assignee assignee (assigneeResolution proposal.assignee))
    (← grounded evidence proposal.dueAt proposal.dueAt.value proposal.dueAt.resolution)
    (← grounded evidence proposal.priority proposal.priority.value proposal.priority.resolution)
    (messagesOf evidence proposal.sourceSegmentIds)
    (messageIdsOf evidence proposal.blockingConflictSegmentIds)

/-- A field whose value is there and settled. -/
def GroundedValue.Known {α : Type} (grounded : GroundedValue α) : Prop :=
  grounded.resolution = .known ∧ grounded.value.isSome = true

instance {α : Type} (grounded : GroundedValue α) : Decidable grounded.Known :=
  inferInstanceAs (Decidable (_ ∧ _))

def readiness (content : ActionCandidateContent) : ActionReadiness :=
  if content.title.Known ∧ content.deliverable.Known then .recordable else .detected

namespace ActionCandidateRecord

variable (record : ActionCandidateRecord)

def current? : Option CandidateRevision :=
  record.revisions.find? fun revision => revision.revision = record.currentRevision

def Before (other : ActionCandidateRecord) : Prop :=
  record.createdAt < other.createdAt ∨ record.createdAt = other.createdAt ∧ record.id ≤ other.id

instance (other : ActionCandidateRecord) : Decidable (record.Before other) :=
  inferInstanceAs (Decidable (_ ∨ _))

end ActionCandidateRecord

def logicalKey (cfg : CandidateConfig) (content : ActionCandidateContent) : String × String :=
  (cfg.normalizedText (content.title.value.getD ""),
    cfg.normalizedText (content.deliverable.value.getD ""))

def AssigneesCompatible (cfg : CandidateConfig) : Option AssigneeValue → Option AssigneeValue → Prop
  | some left, some right =>
    match left.linearUserId, right.linearUserId with
    | some leftUser, some rightUser => leftUser = rightUser
    | _, _ => cfg.normalizedText left.spokenText = cfg.normalizedText right.spokenText
  | _, _ => True

instance (cfg : CandidateConfig) (left right : Option AssigneeValue) :
    Decidable (AssigneesCompatible cfg left right) := by
  unfold AssigneesCompatible
  split
  · split <;> infer_instance
  · infer_instance

namespace ActionCandidateContent

variable (content other : ActionCandidateContent)

def resolutions : List Resolution :=
  [content.title.resolution, content.deliverable.resolution, content.assignee.resolution,
    content.dueAt.resolution, content.priority.resolution]

/-- The contents are of the same thing, and nothing of them is disputed. -/
def Alike (cfg : CandidateConfig) : Prop :=
  (logicalKey cfg content).1 ≠ "" ∧ (logicalKey cfg content).2 ≠ "" ∧
    logicalKey cfg content = logicalKey cfg other ∧
    Resolution.conflicting ∉ content.resolutions ++ other.resolutions ∧
    content.blockingConflictMessageIds = [] ∧ other.blockingConflictMessageIds = [] ∧
    AssigneesCompatible cfg content.assignee.value other.assignee.value

instance (cfg : CandidateConfig) : Decidable (content.Alike other cfg) :=
  inferInstanceAs (Decidable (_ ∧ _))

end ActionCandidateContent

def sameDueDate : Option DueDate → Option DueDate → Except Fault Bool
  | some left, some right => do
    let leftInstant ← require left.utcInstant (.value "date value out of range")
    let rightInstant ← require right.utcInstant (.value "date value out of range")
    return leftInstant = rightInstant
  | _, _ => return true

def samePriority : Option TaskPriority → Option TaskPriority → Bool
  | some left, some right => left = right
  | _, _ => true

def safeMerge (cfg : CandidateConfig) (left right : ActionCandidateContent) :
    Except Fault Bool := do
  if left.Alike right cfg then
    let sameDue ← sameDueDate left.dueAt.value right.dueAt.value
    return sameDue && samePriority left.priority.value right.priority.value
  else return false

def Resolution.rank : Resolution → ℤ
  | .missing => 0
  | .ambiguous => 1
  | .known => 2
  | .conflicting => -1

/-- The first text, where it says anything, else the second. -/
def orText : Option String → Option String → Option String
  | some "", other => other
  | none, other => other
  | some text, _ => some text

theorem nodup_eraseDups {ι : Type} [DecidableEq ι] (l : List ι) : l.eraseDups.Nodup := by
  induction h : l.length using Nat.strong_induction_on generalizing l with
  | _ n ih =>
    cases l with
    | nil => simp
    | cons x rest =>
      rw [List.eraseDups_cons, List.nodup_cons]
      refine ⟨by simp [List.mem_eraseDups], ih _ ?_ _ rfl⟩
      rw [← h, List.length_cons]
      exact Nat.lt_succ_of_le (List.length_filter_le _ _)

/-- Of two fields, the one whose resolution says more, then the other. -/
def preferred {α : Type} (left right : GroundedValue α) : GroundedValue α × GroundedValue α :=
  if left.resolution.rank < right.resolution.rank then (right, left) else (left, right)

theorem preferred_cases {α : Type} (left right : GroundedValue α) :
    preferred left right = (left, right) ∨ preferred left right = (right, left) := by
  unfold preferred
  split_ifs
  · exact Or.inr rfl
  · exact Or.inl rfl

def mergeGrounded {α : Type} (left right : GroundedValue α) : GroundedValue α where
  value := (preferred left right).1.value
  origin := (preferred left right).1.origin
  resolution := (preferred left right).1.resolution
  evidenceMessageIds := (left.evidenceMessageIds ++ right.evidenceMessageIds).eraseDups
  confidence := Option.merge max left.confidence right.confidence
  explanation :=
    orText (preferred left right).1.explanation (preferred left right).2.explanation
  known_value := (preferred left right).1.known_value
  grounded := by
    intro horigin
    obtain ⟨id, hid⟩ := List.exists_mem_of_ne_nil _ ((preferred left right).1.grounded horigin)
    apply List.ne_nil_of_mem (a := id)
    rw [List.mem_eraseDups, List.mem_append]
    rcases preferred_cases left right with h | h
    · exact Or.inl (by simpa [h] using hid)
    · exact Or.inr (by simpa [h] using hid)
  evidence_nodup := nodup_eraseDups _
  confidence_range := by
    have hleft := left.confidence_range
    have hright := right.confidence_range
    cases hl : left.confidence <;> cases hr : right.confidence <;>
      simp_all [Confidence, Option.merge]
  explanation_brief := by
    have hfirst := (preferred left right).1.explanation_brief
    have hsecond := (preferred left right).2.explanation_brief
    unfold orText
    split
    · exact hsecond
    · exact hsecond
    · rename_i text _ heq
      rw [heq] at hfirst
      exact hfirst

/-- Messages and others; where one is among both, the other stands in its place. -/
def mergeMessages (messages others : List CaptionEvidenceMessage) : List CaptionEvidenceMessage :=
  messages.map (fun message =>
    (others.find? fun other => other.messageId = message.messageId).getD message) ++
  others.filter fun other => other.messageId ∉ messages.map CaptionEvidenceMessage.messageId

def mergeContent (survivor duplicate : ActionCandidateContent) :
    Except Fault ActionCandidateContent :=
  makeContent (mergeGrounded survivor.title duplicate.title)
    (mergeGrounded survivor.deliverable duplicate.deliverable)
    (mergeGrounded survivor.assignee duplicate.assignee)
    (mergeGrounded survivor.dueAt duplicate.dueAt)
    (mergeGrounded survivor.priority duplicate.priority)
    (mergeMessages survivor.evidenceMessages duplicate.evidenceMessages)
    (survivor.blockingConflictMessageIds ++ duplicate.blockingConflictMessageIds).eraseDups

/-- A new candidate with its first revision. -/
def newCandidate (cfg : CandidateConfig) (sessionId : SessionId) (candidateId : String)
    (content : ActionCandidateContent) (derivedFrom : Option ActionCandidateRecord)
    (changeSummary : Option String) : ActionCandidateRecord where
  id := candidateId
  sessionId := sessionId
  -- A part of a split candidate starts a lineage of its own.
  lineageRootId := candidateId
  currentRevision := 1
  contentStatus := .active
  executionStatus := .notRequested
  supersededByCandidateId := none
  derivedFromCandidateId := derivedFrom.map ActionCandidateRecord.id
  derivedFromRevision := derivedFrom.map ActionCandidateRecord.currentRevision
  createdAt := cfg.createdAt candidateId
  revisions :=
    [{ revision := 1
       readiness := readiness content
       content
       changeKind := .create
       parentRevision := none
       changeSummary }]

def ActionCandidateRecord.revised (record : ActionCandidateRecord)
    (content : ActionCandidateContent) (changeKind : ChangeKind) (changeSummary : Option String) :
    ActionCandidateRecord :=
  { record with
    currentRevision := record.currentRevision + 1
    revisions := record.revisions ++
      [{ revision := record.currentRevision + 1
         readiness := readiness content
         content
         changeKind
         parentRevision := some record.currentRevision
         changeSummary }] }

section Repository

variable (candidates : Table ActionCandidateRecord)

def appendCandidateRevision (candidateId : String) (expectedRevision : ℕ)
    (content : ActionCandidateContent) (changeKind : ChangeKind) (changeSummary : Option String) :
    Except Fault (Table ActionCandidateRecord) := do
  ensure (1 ≤ expectedRevision) (.value "expected_revision must be positive")
  let conflict := .stateConflict "Action Candidate no longer has the expected revision"
  let record ← require (candidates.get candidateId) conflict
  ensure (record.currentRevision = expectedRevision) conflict
  ensure (expectedRevision + 1 ∉ record.revisions.map CandidateRevision.revision) .integrity
  return candidates.set (record.revised content changeKind changeSummary)

def supersedeCandidate (candidateId supersededBy : String) :
    Except Fault (Table ActionCandidateRecord) := do
  ensure (candidateId ≠ supersededBy) (.value "a candidate cannot supersede itself")
  let record ← require (candidates.get candidateId) (.lookup "Action Candidate not found")
  let survivor ← require (candidates.get supersededBy) (.lookup "Action Candidate not found")
  ensure (record.sessionId = survivor.sessionId)
    (.value "candidates from different Sessions cannot be merged")
  return candidates.set
    { record with contentStatus := .superseded, supersededByCandidateId := some supersededBy }

/-- Whether a candidate may go from one execution status to another. -/
def executionAllows : CandidateExecutionStatus → CandidateExecutionStatus → Bool
  | .notRequested, .handedOff | .notRequested, .executing => true
  | .handedOff, .executing | .handedOff, .failed => true
  | .executing, .executed | .executing, .failed => true
  | _, _ => false

def transitionCandidateExecution (candidateId : String) (target : CandidateExecutionStatus) :
    Except Fault (Table ActionCandidateRecord) := do
  let record ← require (candidates.get candidateId) (.lookup "Action Candidate not found")
  if record.executionStatus = target then return candidates
  else do
    ensure (executionAllows record.executionStatus target = true)
      (.value "invalid candidate execution transition")
    return candidates.set { record with executionStatus := target }

end Repository

/-- The operations change the candidates of one session, on the evidence of a batch. -/
structure CandidateMergePolicy where
  cfg : CandidateConfig
  sessionId : SessionId
  evidence : List ProjectionSegment

namespace CandidateMergePolicy

variable (policy : CandidateMergePolicy) (candidates : Table ActionCandidateRecord)

def getRecord (candidateId : String) : Except Fault ActionCandidateRecord := do
  let record ← require (candidates.get candidateId) (.lookup "Action Candidate not found")
  ensure (record.sessionId = policy.sessionId)
    (.value "Action Candidate belongs to another Session")
  return record

def currentContent (record : ActionCandidateRecord) : Except Fault ActionCandidateContent := do
  let revision ← require record.current? (.lookup "Action Candidate revision not found")
  return revision.content

/-- The captions are among the evidence. -/
def Available (sources : List SegmentId) : Prop :=
  ∀ s ∈ sources, (evidenceBy policy.evidence s).isSome = true

instance (sources : List SegmentId) : Decidable (policy.Available sources) :=
  inferInstanceAs (Decidable (∀ s ∈ sources, _))

/-- The candidate a creation makes, or made before. -/
def create (kind : CandidateKind) (derivedFrom : Option ActionCandidateRecord)
    (operation : CreateCandidateOperation) :
    Except Fault (ActionCandidateRecord × Table ActionCandidateRecord) := do
  let content ← materializeCandidateContent operation.content policy.evidence
  let candidateId := stableCandidateId policy.cfg kind operation.content
    operation.content.sourceSegmentIds
  match candidates.get candidateId with
  | some existing =>
    ensure (existing.sessionId = policy.sessionId)
      (.value "stable Candidate ID belongs to another Session")
    return (existing, candidates)
  | none =>
    let record := newCandidate policy.cfg policy.sessionId candidateId content derivedFrom
      operation.changeSummary
    return (record, ← require (candidates.insert record) .integrity)

def revise (operation : ReviseCandidateOperation) : Except Fault (Table ActionCandidateRecord) := do
  let record ← policy.getRecord candidates operation.candidateId
  ensure (record.currentRevision = operation.expectedRevision)
    (.value "candidate revision changed before revise")
  ensure (record.contentStatus = .active) (.value "only active candidates can be revised")
  ensure (record.executionStatus ≠ .executing) (.value "an executing candidate cannot be revised")
  let content ← materializeCandidateContent operation.content policy.evidence
  appendCandidateRevision candidates record.id operation.expectedRevision content .revise
    operation.changeSummary

/-- The candidate is at the revision that a merge expects, and may be merged. -/
def checkMergeable (record : ActionCandidateRecord) (expectedRevision : ℕ) : Except Fault Unit := do
  ensure (record.currentRevision = expectedRevision)
    (.value "candidate revision changed before merge")
  ensure (record.contentStatus = .active ∧ record.executionStatus = .notRequested)
    (.value "only active, unrequested candidates can be merged")

def ordered (first second : ActionCandidateRecord) :
    ActionCandidateRecord × ActionCandidateRecord :=
  if first.Before second then (first, second) else (second, first)

def merge (operation : MergeCandidatesOperation) : Except Fault (Table ActionCandidateRecord) := do
  ensure (policy.Available operation.sourceSegmentIds)
    (.value "merge references unavailable evidence")
  let first ← policy.getRecord candidates operation.first
  let second ← policy.getRecord candidates operation.second
  checkMergeable first operation.firstRevision
  checkMergeable second operation.secondRevision
  let safe ← safeMerge policy.cfg (← currentContent first) (← currentContent second)
  ensure (safe = true) (.value "candidate merge is not a safe logical duplicate")
  let (survivor, duplicate) := ordered first second
  let merged ← mergeContent (← currentContent survivor) (← currentContent duplicate)
  let revised ← appendCandidateRevision candidates survivor.id survivor.currentRevision merged
    .merge operation.changeSummary
  supersedeCandidate revised duplicate.id survivor.id

/-- The parts of a candidate, each of its own kind. -/
def splitChildren (parent : ActionCandidateRecord) (changeSummary : Option String)
    (summary_brief : Brief changeSummary) :
    ℕ → List CandidateContentProposal → Table ActionCandidateRecord →
      Except Fault (List ActionCandidateRecord × Table ActionCandidateRecord)
  | _, [], candidates => return ([], candidates)
  | index, content :: rest, candidates => do
    let (child, candidates) ← policy.create candidates (.split parent.id index) (some parent)
      { content, changeSummary, summary_brief }
    let (children, candidates) ←
      splitChildren parent changeSummary summary_brief (index + 1) rest candidates
    return (child :: children, candidates)

def split (operation : SplitCandidateOperation) : Except Fault (Table ActionCandidateRecord) := do
  ensure (policy.Available operation.sourceSegmentIds)
    (.value "split references unavailable evidence")
  let parent ← policy.getRecord candidates operation.candidateId
  ensure (parent.currentRevision = operation.expectedRevision)
    (.value "candidate revision changed before split")
  ensure (parent.contentStatus = .active ∧ parent.executionStatus = .notRequested)
    (.value "only active, unrequested candidates can be split")
  let (children, created) ← policy.splitChildren parent operation.changeSummary
    operation.summary_brief 0 operation.parts candidates
  let first ← require children.head? (.lookup "tuple index out of range")
  supersedeCandidate created parent.id first.id

def cancel (operation : CancelCandidateOperation) : Except Fault (Table ActionCandidateRecord) := do
  ensure (policy.Available operation.sourceSegmentIds)
    (.value "cancel references unavailable evidence")
  let record ← policy.getRecord candidates operation.candidateId
  ensure (record.currentRevision = operation.expectedRevision)
    (.value "candidate revision changed before cancel")
  ensure (record.contentStatus = .active) (.value "only active candidates can be cancelled")
  let content ← currentContent record
  let revised ← appendCandidateRevision candidates record.id record.currentRevision content .cancel
    (some operation.reason)
  let current ← require (revised.get record.id) (.lookup "Action Candidate not found")
  return revised.set { current with contentStatus := .cancelled }

def applyOperation : CandidateOperation → Except Fault (Table ActionCandidateRecord)
  | .create operation => Prod.snd <$> policy.create candidates .actionCandidate none operation
  | .revise operation => policy.revise candidates operation
  | .merge operation => policy.merge candidates operation
  | .split operation => policy.split candidates operation
  | .cancel operation => policy.cancel candidates operation

def applyOperations (operations : List CandidateOperation) :
    Except Fault (Table ActionCandidateRecord) :=
  operations.foldlM (fun candidates operation => policy.applyOperation candidates operation)
    candidates

end CandidateMergePolicy

end Meeting
end Matinier
