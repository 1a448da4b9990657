import Matinier.Assistant.Plugin.Records
import Matinier.Foundation.Blanks
import Mathlib.Algebra.Order.Ring.Rat

/-!
# Captions and the content of candidates

A caption of a meeting is a segment of what was said. It may be revised until it is final, and
a final caption may be revised again. The projection reads captions as snapshots.

An action candidate is something that somebody in a meeting might have to do. A model proposes
its content; each field of a proposal cites captions. The content that is stored cites them as
evidence messages. A candidate has revisions, of which one is current, and a candidate that is
merged into another or split is superseded by a candidate.
-/

namespace Matinier
namespace Meeting

open Assistant

inductive CaptionStatus where
  | draft
  | final
  deriving DecidableEq, Repr

structure SegmentRecord where
  sessionId : SessionId
  segmentId : SegmentId
  trackId : String
  revision : ℕ
  language : String
  rawText : String
  displayText : String
  audioStartMs : Option ℤ := none
  audioEndMs : Option ℤ := none
  confidence : Option ℚ := none
  status : CaptionStatus := .final
  receivedAtMs : ℤ := 0
  finalizedAt : Instant := 0
  updatedAt : Instant := 0

/-- What a caption has to be so that it can be projected. -/
def SegmentRecord.Projectable (record : SegmentRecord) : Prop :=
  1 ≤ record.revision ∧
    (1 ≤ record.trackId.length ∧ record.trackId.length ≤ 255) ∧
    (1 ≤ record.language.length ∧ record.language.length ≤ 32) ∧
    1 ≤ record.rawText.length ∧ 1 ≤ record.displayText.length ∧
    (∀ start ∈ record.audioStartMs, 0 ≤ start) ∧ (∀ stop ∈ record.audioEndMs, 0 ≤ stop) ∧
    (∀ confidence ∈ record.confidence, 0 ≤ confidence ∧ confidence ≤ 1) ∧
    0 ≤ record.receivedAtMs ∧
    ∀ start ∈ record.audioStartMs, ∀ stop ∈ record.audioEndMs, start ≤ stop

instance (record : SegmentRecord) : Decidable record.Projectable :=
  inferInstanceAs (Decidable (_ ∧ _))

structure ProjectionSegment where
  record : SegmentRecord
  valid : record.Projectable

namespace ProjectionSegment

variable (segment : ProjectionSegment)

def segmentId : SegmentId := segment.record.segmentId

def revision : ℕ := segment.record.revision

end ProjectionSegment

/-- The snapshot of a caption, where it can be projected. -/
def snapshot (record : SegmentRecord) : Option ProjectionSegment :=
  if h : record.Projectable then some ⟨record, h⟩ else none

inductive Resolution where
  | known
  | missing
  | ambiguous
  | conflicting
  deriving DecidableEq, Repr

inductive TaskPriority where
  | low
  | normal
  | high
  | urgent
  deriving DecidableEq, Repr

inductive Origin where
  | meetingExplicit
  | meetingInferred
  | userSupplied
  | externalResolved
  | serverDefault
  deriving DecidableEq, Repr

inductive ActionReadiness where
  | detected
  | recordable
  | executable
  | fullySpecified
  deriving DecidableEq, Repr

inductive ContentStatus where
  | active
  | dismissed
  | superseded
  | cancelled
  deriving DecidableEq, Repr

inductive CandidateExecutionStatus where
  | notRequested
  | handedOff
  | executing
  | executed
  | failed
  deriving DecidableEq, Repr

inductive ChangeKind where
  | create
  | revise
  | merge
  | split
  | correction
  | cancel
  deriving DecidableEq, Repr

/-- A date and a time of day as a clock shows it, in microseconds from the first day of year 1,
and how far the clock is ahead of UTC, where that is known. -/
structure DueDate where
  clock : ℤ
  utcOffset : Option ℤ := none
  deriving DecidableEq, Repr

/-- The end of the year 9999, as a number of microseconds. -/
def endOfTime : ℤ := 3652059 * 86400 * 1000000

/-- The instant of a date, where its year in UTC can be written; a date without an offset is one
in UTC. -/
def DueDate.utcInstant (date : DueDate) : Option ℤ :=
  match date.utcOffset with
  | none => some date.clock
  | some ahead =>
    let instant := date.clock - ahead
    if 0 ≤ instant ∧ instant < endOfTime then some instant else none

/-- The captions are cited at least once and each once only. -/
def Evidence (sources : List SegmentId) : Prop := sources ≠ [] ∧ sources.Nodup

instance (sources : List SegmentId) : Decidable (Evidence sources) :=
  inferInstanceAs (Decidable (_ ∧ _))

def Confidence (confidence : Option ℚ) : Prop := ∀ c ∈ confidence, 0 ≤ c ∧ c ≤ 1

instance (confidence : Option ℚ) : Decidable (Confidence confidence) :=
  inferInstanceAs (Decidable (∀ c ∈ confidence, _))

/-- A note of at most a thousand characters. -/
def Brief (note : Option String) : Prop := ∀ text ∈ note, text.length ≤ 1000

instance (note : Option String) : Decidable (Brief note) :=
  inferInstanceAs (Decidable (∀ text ∈ note, _))

structure GroundedValueProposal (α : Type) where
  value : Option α := none
  resolution : Resolution
  sourceSegmentIds : List SegmentId
  confidence : Option ℚ := none
  explanation : Option String := none
  known_value : resolution = .known → value.isSome = true := by decide
  evidence : Evidence sourceSegmentIds := by decide
  confidence_range : Confidence confidence := by decide
  explanation_brief : Brief explanation := by decide

/-- The content of a candidate as a model proposes it. -/
structure CandidateContentProposal where
  title : GroundedValueProposal String
  deliverable : GroundedValueProposal String
  assignee : GroundedValueProposal String
  dueAt : GroundedValueProposal DueDate
  priority : GroundedValueProposal TaskPriority
  blockingConflictSegmentIds : List SegmentId := []
  conflicts_nodup : blockingConflictSegmentIds.Nodup := by decide

namespace CandidateContentProposal

variable (proposal : CandidateContentProposal)

/-- The captions that the fields cite, each where it is cited first. -/
def sourceSegmentIds : List SegmentId :=
  (proposal.title.sourceSegmentIds ++ proposal.deliverable.sourceSegmentIds ++
    proposal.assignee.sourceSegmentIds ++ proposal.dueAt.sourceSegmentIds ++
    proposal.priority.sourceSegmentIds ++ proposal.blockingConflictSegmentIds).eraseDups

end CandidateContentProposal

structure CreateCandidateOperation where
  content : CandidateContentProposal
  changeSummary : Option String := none
  summary_brief : Brief changeSummary := by decide

/-- A candidate that an operation names. -/
def CandidateName (candidateId : String) : Prop :=
  1 ≤ candidateId.length ∧ candidateId.length ≤ 36

instance (candidateId : String) : Decidable (CandidateName candidateId) :=
  inferInstanceAs (Decidable (_ ∧ _))

structure ReviseCandidateOperation where
  candidateId : String
  expectedRevision : ℕ
  content : CandidateContentProposal
  changeSummary : Option String := none
  id_name : CandidateName candidateId := by decide
  revision_pos : 1 ≤ expectedRevision := by decide
  summary_brief : Brief changeSummary := by decide

structure MergeCandidatesOperation where
  first : String
  second : String
  firstRevision : ℕ
  secondRevision : ℕ
  sourceSegmentIds : List SegmentId
  changeSummary : Option String := none
  distinct : first ≠ second := by decide
  revisions_pos : 1 ≤ firstRevision ∧ 1 ≤ secondRevision := by decide
  evidence : Evidence sourceSegmentIds := by decide
  summary_brief : Brief changeSummary := by decide

structure SplitCandidateOperation where
  candidateId : String
  expectedRevision : ℕ
  parts : List CandidateContentProposal
  sourceSegmentIds : List SegmentId
  changeSummary : Option String := none
  id_name : CandidateName candidateId := by decide
  revision_pos : 1 ≤ expectedRevision := by decide
  parts_two : 2 ≤ parts.length := by decide
  sources_ne : sourceSegmentIds ≠ [] := by decide
  summary_brief : Brief changeSummary := by decide

structure CancelCandidateOperation where
  candidateId : String
  expectedRevision : ℕ
  sourceSegmentIds : List SegmentId
  reason : String
  id_name : CandidateName candidateId := by decide
  revision_pos : 1 ≤ expectedRevision := by decide
  sources_ne : sourceSegmentIds ≠ [] := by decide
  reason_brief : 1 ≤ reason.length ∧ reason.length ≤ 1000 := by decide

inductive CandidateOperation where
  | create (operation : CreateCandidateOperation)
  | revise (operation : ReviseCandidateOperation)
  | merge (operation : MergeCandidatesOperation)
  | split (operation : SplitCandidateOperation)
  | cancel (operation : CancelCandidateOperation)

/-- The captions an operation cites. -/
def CandidateOperation.cited : CandidateOperation → List SegmentId
  | .create operation => operation.content.sourceSegmentIds
  | .revise operation => operation.content.sourceSegmentIds
  | .merge operation => operation.sourceSegmentIds
  | .split operation => operation.sourceSegmentIds ++
      operation.parts.flatMap CandidateContentProposal.sourceSegmentIds
  | .cancel operation => operation.sourceSegmentIds

/-- The candidates an operation changes; a creation changes none that exist. -/
def CandidateOperation.touched : CandidateOperation → List String
  | .create _ => []
  | .merge operation => [operation.first, operation.second]
  | .revise operation => [operation.candidateId]
  | .split operation => [operation.candidateId]
  | .cancel operation => [operation.candidateId]

/-- What the identifier of an evidence message is a digest of. -/
structure MessageId where
  sessionId : SessionId
  segmentId : SegmentId
  revision : ℕ
  deriving DecidableEq, Repr

structure CaptionEvidenceMessage where
  segment : ProjectionSegment

namespace CaptionEvidenceMessage

variable (message : CaptionEvidenceMessage)

def sessionId : SessionId := message.segment.record.sessionId

def segmentId : SegmentId := message.segment.segmentId

def segmentRevision : ℕ := message.segment.revision

def messageId : MessageId := ⟨message.sessionId, message.segmentId, message.segmentRevision⟩

end CaptionEvidenceMessage

structure GroundedValue (α : Type) where
  value : Option α
  origin : Origin
  resolution : Resolution
  evidenceMessageIds : List MessageId
  confidence : Option ℚ
  explanation : Option String
  known_value : resolution = .known → value.isSome = true
  grounded : origin ≠ .serverDefault → evidenceMessageIds ≠ []
  evidence_nodup : evidenceMessageIds.Nodup
  confidence_range : Confidence confidence
  explanation_brief : Brief explanation

/-- Somebody who was named, and who that is once it is known. -/
structure AssigneeValue where
  spokenText : String
  linearUserId : Option String
  isPlaceholder : Bool
  spoken_length : 1 ≤ spokenText.length ∧ spokenText.length ≤ 255
  user_length : ∀ user ∈ linearUserId, user.length ≤ 255
  placeholder_unknown : isPlaceholder = true → linearUserId = none

/-- The content of a candidate. Whatever it cites is among its evidence messages. -/
structure ActionCandidateContent where
  title : GroundedValue String
  deliverable : GroundedValue String
  assignee : GroundedValue AssigneeValue
  dueAt : GroundedValue DueDate
  priority : GroundedValue TaskPriority
  evidenceMessages : List CaptionEvidenceMessage
  blockingConflictMessageIds : List MessageId
  messages_nodup : (evidenceMessages.map CaptionEvidenceMessage.messageId).Nodup
  cited_available : ∀ id ∈ blockingConflictMessageIds ++ title.evidenceMessageIds ++
    deliverable.evidenceMessageIds ++ assignee.evidenceMessageIds ++ dueAt.evidenceMessageIds ++
    priority.evidenceMessageIds, id ∈ evidenceMessages.map CaptionEvidenceMessage.messageId

structure CandidateRevision where
  revision : ℕ
  readiness : ActionReadiness
  content : ActionCandidateContent
  changeKind : ChangeKind
  parentRevision : Option ℕ
  changeSummary : Option String

structure ActionCandidateRecord where
  id : String
  sessionId : SessionId
  lineageRootId : String
  currentRevision : ℕ
  contentStatus : ContentStatus
  executionStatus : CandidateExecutionStatus
  supersededByCandidateId : Option String
  derivedFromCandidateId : Option String
  derivedFromRevision : Option ℕ
  createdAt : Instant
  revisions : List CandidateRevision

structure ActionCandidate where
  candidateId : String
  lineageRootId : String
  sessionId : SessionId
  currentRevision : ℕ
  readiness : ActionReadiness
  contentStatus : ContentStatus
  executionStatus : CandidateExecutionStatus
  content : ActionCandidateContent
  sourceSegmentIds : List SegmentId
  evidenceRevisionsCurrent : Bool
  derivedFromCandidateId : Option String
  derivedFromRevision : Option ℕ
  supersededByCandidateId : Option String
  revision_pos : 1 ≤ currentRevision
  sources_ne : sourceSegmentIds ≠ []
  derived_pos : ∀ revision ∈ derivedFromRevision, 1 ≤ revision

end Meeting
end Matinier
