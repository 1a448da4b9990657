import Matinier.Assistant.Records
import Matinier.Foundation.Slots

/-!
# Transcript revisions and artifacts

The revisions of a session's transcript in one language are numbered, and one at most is the
approved one. An approval reads the revision, then which others are approved, and only then
writes: the database is not locked before that.

What is derived from a package has an identity, the versions of an identity are numbered, and
one at most is the approved one. An approval reads the artifact, and in its writes supersedes
whichever other version is approved by then.
-/

namespace Matinier
namespace Revisions

open Assistant

inductive RevisionStatus where
  | saved
  | approved
  | superseded
  deriving DecidableEq

structure RevisionSlot where
  sessionId : SessionId
  language : String
  deriving DecidableEq

abbrev TranscriptRevisionRecord := SlotRow RevisionSlot RevisionStatus

/-- Add a revision under the version that was read before. -/
def create (rows : List TranscriptRevisionRecord) (id : ℕ) (slot : RevisionSlot) (version : ℕ) :
    Option (List TranscriptRevisionRecord) :=
  Slots.insert .approved rows { id, slot, version, status := .saved }

/-- The first read of an approval: nothing where the revision is approved already. -/
def openTarget (rows : List TranscriptRevisionRecord) (revisionId : ℕ) :
    Except Fault (Option TranscriptRevisionRecord) := do
  let target ← require (Slots.find rows revisionId) (.lookup s!"Revision not found: {revisionId}")
  ensure (target.status ≠ .superseded) (.value "a superseded revision cannot be approved")
  if target.status = .approved then return none else return some target

def currentApproved (rows : List TranscriptRevisionRecord) (target : TranscriptRevisionRecord) :
    List ℕ :=
  (rows.filter fun item =>
    item.slot = target.slot ∧ item.status = .approved ∧ item.id ≠ target.id).map SlotRow.id

/-- The writes of an approval: the revisions it read are superseded, and the target approved. -/
def approve (rows : List TranscriptRevisionRecord) (target : TranscriptRevisionRecord)
    (current : List ℕ) : Option (List TranscriptRevisionRecord) :=
  Slots.approve .approved (Slots.setStatus rows (fun item => item.id ∈ current) .superseded)
    target.id

end Revisions

namespace Artifacts

open Assistant

inductive ArtifactStatus where
  | generated
  | reviewed
  | approved
  | superseded
  | failed
  deriving DecidableEq

inductive ArtifactCreator where
  | model
  | human
  deriving DecidableEq

def ArtifactStatus.name : ArtifactStatus → String
  | generated => "generated"
  | reviewed => "reviewed"
  | approved => "approved"
  | superseded => "superseded"
  | failed => "failed"

/-- The status in which a version is added. -/
def ArtifactCreator.initialStatus : ArtifactCreator → ArtifactStatus
  | model => .generated
  | human => .reviewed

structure ArtifactSlot where
  packageId : ℕ
  identityKey : String
  deriving DecidableEq

abbrev DerivedArtifactRecord := SlotRow ArtifactSlot ArtifactStatus

def create (rows : List DerivedArtifactRecord) (id : ℕ) (slot : ArtifactSlot)
    (createdBy : ArtifactCreator) (version : ℕ) : Option (List DerivedArtifactRecord) :=
  Slots.insert .approved rows { id, slot, version, status := createdBy.initialStatus }

/-- The read of an approval: nothing where the artifact is approved already. -/
def openArtifact (rows : List DerivedArtifactRecord) (artifactId : ℕ) :
    Except Fault (Option DerivedArtifactRecord) := do
  let artifact ← require (Slots.find rows artifactId) (.lookup s!"artifact not found: {artifactId}")
  ensure (artifact.status ≠ .superseded) (.value "A superseded Artifact cannot be approved")
  if artifact.status = .approved then return none
  else
    ensure (artifact.status = .generated ∨ artifact.status = .reviewed)
      (.value s!"An Artifact with status {artifact.status.name} cannot be approved")
    return some artifact

/-- The writes of an approval. The artifact is read again, but not its status. -/
def approve (rows : List DerivedArtifactRecord) (artifact : DerivedArtifactRecord) :
    Option (List DerivedArtifactRecord) :=
  let cleared := Slots.setStatus rows
    (fun item => item.slot = artifact.slot ∧ item.status = .approved ∧ item.id ≠ artifact.id)
    .superseded
  match Slots.find cleared artifact.id with
  | none => none
  | some record => Slots.approve .approved cleared record.id

end Artifacts
end Matinier
