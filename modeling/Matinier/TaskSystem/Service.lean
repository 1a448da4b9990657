import Matinier.Foundation.Program
import Matinier.Meeting.Candidates

/-!
# The task workflow

A candidate becomes a task of an external tracker. The workflow loads the candidate at the
revision it was asked for, looks for the task under the key of the candidate's lineage and for
similar ones, and creates one where there is none. Between its transactions it asks the tracker,
and anything may happen to the candidate. The candidate is marked while its task is created and
when there is one.

The adapter of `task.create` is a program: it checks the call against the candidate, runs the
workflow and turns its outcome, or what it needs, into a result. Reconciling looks for the task
under the key of the candidate and changes nothing.
-/

namespace Matinier
namespace TaskSystem

open Assistant Meeting

inductive TaskStatus where
  | active
  | completed
  | cancelled
  deriving DecidableEq, Repr

inductive TaskDisposition where
  | sameAction
  | duplicate
  | related
  | distinct
  | ambiguous
  deriving DecidableEq, Repr

structure ExternalTask where
  externalId : String
  identifier : String
  url : String
  title : String
  assigneeRef : Option String := none
  dueAt : Option DueDate := none
  status : TaskStatus := .active
  teamId : String
  actionKey : Option String := none
  deriving DecidableEq

structure ResolvedIdentity where
  spokenText : String
  externalUserId : Option String
  known : Bool
  deriving DecidableEq

structure PersonMention where
  spokenText : String
  actorId : String
  explicitExternalUserId : Option String
  email : Option String

structure TaskDecisionContext where
  evidenceConfirmsSingleDeliverable : Bool := false
  conflictAgentAgrees : Bool := false
  researchAgentAgrees : Bool := false

structure TaskDraft where
  title : String
  description : String
  assigneeRef : Option String
  dueAt : Option DueDate
  priority : Option TaskPriority
  sourceEvidenceIds : List MessageId
  relatedTaskRefs : List String := []

structure TaskServiceOutcome where
  disposition : TaskDisposition
  actionKey : String
  task : ExternalTask
  created : Bool := false
  partiallyKnown : Bool := false
  unresolvedIdentity : Option ResolvedIdentity := none
  relatedTaskRefs : List String := []

/-- What the tracker is asked, and who a mention stands for. -/
inductive TaskQuestion where
  | searchKey (actionKey : String)
  | searchTitle (title : String)
  | get (taskRef : String)
  | create (draft : TaskDraft) (actionKey : String)
  | reconcileCreate (actionKey : String)
  | resolve (mention : PersonMention)

inductive TaskAnswer where
  | tasks (tasks : List ExternalTask)
  | task (task : ExternalTask)
  | created (task : ExternalTask) (created : Bool)
  | identity (identity : ResolvedIdentity)

/-- Input is needed before the workflow can go on, or something was raised. -/
inductive TaskFault where
  | needsInput (code question : String)
  | raised (fault : Fault)

structure TaskDb where
  candidates : Table ActionCandidateRecord := .empty
  /-- What the subagents that have run for an execution agree on. -/
  context : ExecutionId → TaskDecisionContext := fun _ => {}

/-- The candidate a transaction marks as it finds it, and the revision its workflow runs for. -/
structure Mark where
  found : ActionCandidateRecord
  expectedRevision : ℕ

inductive TaskNote where
  | asked (question : TaskQuestion)
  | read
  | markedExecuting (mark : Mark)
  /-- The mark is the first of its workflow where the task was there before. -/
  | markedExecuted (mark : Mark) (first : Bool)

abbrev taskInterface : Interface where
  State := TaskDb
  Fault := TaskFault
  Note := TaskNote
  Answer := TaskAnswer
  Task := Empty
  Value := Empty

abbrev TaskProgram := Program taskInterface

/-- The team whose tracker is used, the key of a lineage there, and what texts have in common. -/
structure TaskConfig where
  teamId : String
  actionKey : String → String → String
  normalizedText : String → String
  tokens : String → List String
  messageText : MessageId → String

/-- A candidate as a workflow loads it. -/
structure CandidateSnapshot where
  candidateId : String
  lineageRootId : String
  revision : ℕ
  readiness : ActionReadiness
  contentStatus : ContentStatus
  content : ActionCandidateContent

structure PreparedCandidate where
  candidate : CandidateSnapshot
  draft : TaskDraft
  actionKey : String
  unresolvedIdentity : Option ResolvedIdentity

def transaction {β : Type} (note : β → TaskNote) (tx : TaskDb → Except Fault (β × TaskDb)) :
    TaskProgram β :=
  .transact (S := taskInterface) note fun db => (tx db).mapError .raised

def reading {β : Type} (read : TaskDb → Except Fault β) : TaskProgram β :=
  transaction (fun _ => .read) fun db => do return (← read db, db)

def checked {β : Type} (x : Except Fault β) : TaskProgram β := .ofExcept (x.mapError .raised)

def needsInput {β : Type} (code question : String) : TaskProgram β :=
  .throw (.needsInput code question)

def unlessInput (condition : Prop) [Decidable condition] (code question : String) :
    TaskProgram Unit :=
  if condition then pure () else needsInput code question

def malformed : TaskFault := .raised (.typeError "unexpected answer")

def askTasks (question : TaskQuestion) : TaskProgram (List ExternalTask) :=
  .inquire (S := taskInterface) (.asked question) fun
    | .tasks tasks => .ok tasks
    | _ => .error malformed

def askTask (taskRef : String) : TaskProgram ExternalTask :=
  .inquire (S := taskInterface) (.asked (.get taskRef)) fun
    | .task task => .ok task
    | _ => .error malformed

def askCreate (draft : TaskDraft) (actionKey : String) : TaskProgram (ExternalTask × Bool) :=
  .inquire (S := taskInterface) (.asked (.create draft actionKey)) fun
    | .created task created => .ok (task, created)
    | _ => .error malformed

def askIdentity (mention : PersonMention) : TaskProgram ResolvedIdentity :=
  .inquire (S := taskInterface) (.asked (.resolve mention)) fun
    | .identity identity => .ok identity
    | _ => .error malformed

/-- There is more in the text than blanks. -/
def hasText (text : String) : Bool := text.toList.any fun c => !isSpace c

def deriveTaskCreateKey (cfg : TaskConfig) (lineageRootId : String) : Except Fault String := do
  ensure (hasText cfg.teamId = true ∧ hasText lineageRootId = true)
    (.value "team and Candidate lineage root are required")
  return cfg.actionKey cfg.teamId lineageRootId

/-- Load a candidate, at the revision expected of it where one is. -/
def loadCandidate (candidateId : String) (expectedRevision : Option ℕ) (db : TaskDb) :
    Except Fault CandidateSnapshot := do
  let record ← require (db.candidates.get candidateId) (.lookup "Action Candidate not found")
  ensure (∀ expected ∈ expectedRevision, record.currentRevision = expected)
    (.value "Action Candidate revision changed")
  let revision ← require record.current? (.lookup "No row was found when one was required")
  return {
    candidateId := record.id
    lineageRootId := record.lineageRootId
    revision := revision.revision
    readiness := revision.readiness
    contentStatus := record.contentStatus
    content := revision.content }

def actionKeyForCandidate (cfg : TaskConfig) (candidateId : String) (expectedRevision : ℕ) :
    TaskProgram String := do
  let candidate ← reading (loadCandidate candidateId (some expectedRevision))
  checked (deriveTaskCreateKey cfg candidate.lineageRootId)

/-- A candidate of which nobody has begun to create the task. -/
def ActionCandidateRecord.Waiting (record : ActionCandidateRecord) : Prop :=
  record.executionStatus = .notRequested ∨ record.executionStatus = .handedOff

instance (record : ActionCandidateRecord) : Decidable (ActionCandidateRecord.Waiting record) :=
  inferInstanceAs (Decidable (_ ∨ _))

/-- The candidate waits no longer. -/
def startExecuting (candidateId : String) (candidates : Table ActionCandidateRecord) :
    Except Fault (ActionCandidateRecord × Table ActionCandidateRecord) := do
  let record ← require (candidates.get candidateId) (.lookup "Action Candidate not found")
  if ActionCandidateRecord.Waiting record then
    return (record, ← transitionCandidateExecution candidates candidateId .executing)
  else return (record, candidates)

def markCandidateExecuting (candidateId : String) (expectedRevision : ℕ) : TaskProgram Mark :=
  transaction .markedExecuting fun db => do
    let (found, candidates) ← startExecuting candidateId db.candidates
    return (⟨found, expectedRevision⟩, { db with candidates })

/-- The candidate waits no longer, and is executed where it was executing. -/
def finishExecuting (candidateId : String) (candidates : Table ActionCandidateRecord) :
    Except Fault (ActionCandidateRecord × Table ActionCandidateRecord) := do
  let (found, candidates) ← startExecuting candidateId candidates
  let record ← require (candidates.get candidateId) (.lookup "Action Candidate not found")
  if record.executionStatus = .executing then
    return (found, ← transitionCandidateExecution candidates candidateId .executed)
  else return (found, candidates)

def markCandidateExecuted (candidateId : String) (expectedRevision : ℕ) (first : Bool) :
    TaskProgram Mark :=
  transaction (fun mark => .markedExecuted mark first) fun db => do
    let (found, candidates) ← finishExecuting candidateId db.candidates
    return (⟨found, expectedRevision⟩, { db with candidates })

def makeDraft (draft : TaskDraft) : Except Fault TaskDraft := do
  let title := joinedWords draft.title
  ensure (1 ≤ draft.title.length ∧ draft.title.length ≤ 500 ∧ title ≠ "")
    (.value "task title must not be blank")
  ensure (draft.description.length ≤ 20000) (.value "description has at most 20000 characters")
  ensure (∀ ref ∈ draft.assigneeRef, ref.length ≤ 255)
    (.value "assignee_ref has at most 255 characters")
  ensure (1 ≤ draft.sourceEvidenceIds.length ∧ draft.sourceEvidenceIds.length ≤ 64 ∧
    draft.sourceEvidenceIds.Nodup) (.value "task references must be unique")
  return { draft with title }

/-- The messages that any field of a content cites, each where it is cited first. -/
def citedMessages (content : ActionCandidateContent) : List MessageId :=
  (content.title.evidenceMessageIds ++ content.deliverable.evidenceMessageIds ++
    content.assignee.evidenceMessageIds ++ content.dueAt.evidenceMessageIds ++
    content.priority.evidenceMessageIds).eraseDups

/-- What stands in the description of a task besides its deliverable. -/
def descriptionText (cfg : TaskConfig) (deliverable : String) (evidenceIds : List MessageId)
    (actionKey : String) (unresolved : Option ResolvedIdentity) : String :=
  "\n".intercalate ([deliverable, "",
    "Meeting evidence: " ++ ", ".intercalate (evidenceIds.map cfg.messageText),
    "matinier-action-key: " ++ actionKey] ++
    match unresolved with
    | none => []
    | some identity => ["", "Unresolved meeting assignee: " ++ identity.spokenText,
        "matinier-identity-status: unresolved"])

/-- Whom the tracker knows the assignee as, or who is not known there. -/
def resolveAssignee (assignee : GroundedValue AssigneeValue) (actorId : String)
    (responsibleSubjectRequired : Bool) :
    TaskProgram (Option String × Option ResolvedIdentity) :=
  match assignee.value with
  | some value => do
    let resolved ← askIdentity
      { spokenText := value.spokenText
        actorId
        explicitExternalUserId := value.linearUserId
        email := if '@' ∈ value.spokenText.toList then some value.spokenText else none }
    if resolved.known = true then return (resolved.externalUserId, none)
    else return (none, some resolved)
  | none => do
    unlessInput (responsibleSubjectRequired = false) "candidate_assignee_missing"
      "Please identify the responsible subject in the meeting text."
    return (none, none)

def prepareCandidate (cfg : TaskConfig) (candidateId : String) (expectedRevision : ℕ)
    (actorId : String) (responsibleSubjectRequired : Bool) : TaskProgram PreparedCandidate := do
  let candidate ← reading (loadCandidate candidateId (some expectedRevision))
  let content := candidate.content
  unlessInput (candidate.readiness ≠ .detected) "candidate_not_recordable"
    "Please confirm the meeting action before creating a task."
  unlessInput (candidate.contentStatus = .active) "candidate_not_active"
    "This meeting action is no longer active."
  unlessInput (content.blockingConflictMessageIds = []) "candidate_has_blocking_conflict"
    "Resolve the conflicting meeting evidence before creating a task."
  unlessInput (content.title.Known ∧ content.deliverable.Known) "candidate_core_fields_unresolved"
    "Please confirm the task title and deliverable."
  unlessInput (content.dueAt.resolution ≠ .ambiguous ∧ content.dueAt.resolution ≠ .conflicting)
    "candidate_due_unresolved" "Please confirm the requested due date."
  let (assigneeRef, unresolved) ←
    resolveAssignee content.assignee actorId responsibleSubjectRequired
  let evidenceIds := citedMessages content
  checked (ensure (evidenceIds ≠ [] ∧ ∀ id ∈ evidenceIds,
    id ∈ content.evidenceMessages.map CaptionEvidenceMessage.messageId)
      (.value "Candidate evidence is incomplete"))
  let actionKey ← checked (deriveTaskCreateKey cfg candidate.lineageRootId)
  let draft ← checked (makeDraft
    { title := content.title.value.getD ""
      description := descriptionText cfg (content.deliverable.value.getD "") evidenceIds actionKey
        unresolved
      assigneeRef
      dueAt := if content.dueAt.resolution = .known then content.dueAt.value else none
      priority := if content.priority.resolution = .known then content.priority.value else none
      sourceEvidenceIds := evidenceIds })
  return { candidate, draft, actionKey, unresolvedIdentity := unresolved }

/-- The day of a date, on its own clock. -/
def DueDate.day (date : DueDate) : ℤ := date.clock / (86400 * 1000000)

/-- Two values are the same where there are two. -/
def Compatible {α : Type} (same : α → α → Prop) (left right : Option α) : Prop :=
  ∀ a ∈ left, ∀ b ∈ right, same a b

instance {α : Type} (same : α → α → Prop) [DecidableRel same] (left right : Option α) :
    Decidable (Compatible same left right) :=
  inferInstanceAs (Decidable (∀ a ∈ left, ∀ b ∈ right, same a b))

def AssigneeCompatible (draft : TaskDraft) (task : ExternalTask) : Prop :=
  Compatible (· = ·) draft.assigneeRef task.assigneeRef

instance (draft : TaskDraft) (task : ExternalTask) : Decidable (AssigneeCompatible draft task) :=
  inferInstanceAs (Decidable (Compatible _ _ _))

def DueCompatible (draft : TaskDraft) (task : ExternalTask) : Prop :=
  Compatible (fun a b => DueDate.day a = DueDate.day b) draft.dueAt task.dueAt

instance (draft : TaskDraft) (task : ExternalTask) : Decidable (DueCompatible draft task) :=
  inferInstanceAs (Decidable (Compatible _ _ _))

/-- The task is the one that the draft is for, and everybody agrees that it is. -/
def Duplicates (cfg : TaskConfig) (draft : TaskDraft) (context : TaskDecisionContext)
    (task : ExternalTask) : Prop :=
  task.status = .active ∧ task.teamId = cfg.teamId ∧
    cfg.normalizedText task.title = cfg.normalizedText draft.title ∧
    AssigneeCompatible draft task ∧ DueCompatible draft task ∧
    context.evidenceConfirmsSingleDeliverable = true ∧ context.conflictAgentAgrees = true ∧
    context.researchAgentAgrees = true

instance (cfg : TaskConfig) (draft : TaskDraft) (context : TaskDecisionContext)
    (task : ExternalTask) : Decidable (Duplicates cfg draft context task) :=
  inferInstanceAs (Decidable (_ ∧ _))

def Overlaps (cfg : TaskConfig) (draft : TaskDraft) (task : ExternalTask) : Prop :=
  ∃ token ∈ cfg.tokens draft.title, token ∈ cfg.tokens task.title

instance (cfg : TaskConfig) (draft : TaskDraft) (task : ExternalTask) :
    Decidable (Overlaps cfg draft task) :=
  inferInstanceAs (Decidable (∃ token ∈ cfg.tokens draft.title, _))

/-- What the tasks with a similar title are to the draft, and those that are related so far. -/
def classify (cfg : TaskConfig) (draft : TaskDraft) (context : TaskDecisionContext) :
    List ExternalTask → List String → TaskDisposition × Option ExternalTask × List String
  | [], [] => (.distinct, none, [])
  | [], related => (.related, none, related.eraseDups)
  | task :: rest, related =>
    if Duplicates cfg draft context task then (.duplicate, some task, [])
    else if Overlaps cfg draft task ∧ ¬ (AssigneeCompatible draft task ∧ DueCompatible draft task)
    then (.ambiguous, none, [])
    else if Overlaps cfg draft task then
      classify cfg draft context rest (related ++ [task.externalId])
    else classify cfg draft context rest related

/-- The task that was created is the one that was drafted. -/
def verifyReadBack (draft : TaskDraft) (task : ExternalTask) : Except Fault Unit :=
  ensure (task.title = draft.title ∧ task.assigneeRef = draft.assigneeRef ∧
    task.dueAt.map DueDate.day = draft.dueAt.map DueDate.day)
    (.runtime "created task did not match its verified read-back")

structure ExecuteCandidate where
  candidateId : String
  expectedRevision : ℕ
  actorId : String
  context : TaskDecisionContext
  responsibleSubjectRequired : Bool := false

/-- Create the task that was drafted, while its candidate is executing. -/
def createTask (request : ExecuteCandidate) (prepared : PreparedCandidate)
    (disposition : TaskDisposition) (related : List String) : TaskProgram TaskServiceOutcome := do
  let draft := { prepared.draft with relatedTaskRefs := related }
  let _ ← markCandidateExecuting request.candidateId request.expectedRevision
  let (made, created) ← askCreate draft prepared.actionKey
  let task ← askTask made.externalId
  checked (verifyReadBack draft task)
  let _ ← markCandidateExecuted request.candidateId request.expectedRevision false
  return {
    disposition
    actionKey := prepared.actionKey
    task
    created
    partiallyKnown := prepared.unresolvedIdentity.isSome
    unresolvedIdentity := prepared.unresolvedIdentity
    relatedTaskRefs := related }

/-- Take a task that there is for the candidate's. -/
def reuseTask (request : ExecuteCandidate) (prepared : PreparedCandidate)
    (disposition : TaskDisposition) (found : ExternalTask) : TaskProgram TaskServiceOutcome := do
  let task ← askTask found.externalId
  let _ ← markCandidateExecuted request.candidateId request.expectedRevision true
  return {
    disposition
    actionKey := prepared.actionKey
    task
    partiallyKnown := prepared.unresolvedIdentity.isSome
    unresolvedIdentity := prepared.unresolvedIdentity }

/-- Create the task that was drafted, or take one that is the same. -/
def createOrReuse (request : ExecuteCandidate) (prepared : PreparedCandidate) :
    TaskDisposition × Option ExternalTask × List String → TaskProgram TaskServiceOutcome
  | (.ambiguous, _) => needsInput "task_deduplication_ambiguous"
      "Choose whether to reuse the related task or create a new one."
  | (disposition, some reused, _) => reuseTask request prepared disposition reused
  | (disposition, none, related) => createTask request prepared disposition related

def executeCandidate (cfg : TaskConfig) (request : ExecuteCandidate) :
    TaskProgram TaskServiceOutcome := do
  let prepared ← prepareCandidate cfg request.candidateId request.expectedRevision request.actorId
    request.responsibleSubjectRequired
  let exact ← askTasks (.searchKey prepared.actionKey)
  match exact with
  | [found] => reuseTask request prepared .sameAction found
  | _ :: _ :: _ =>
    needsInput "duplicate_external_side_effect"
      "Multiple external tasks share this action key; inspect them before continuing."
  | [] => do
    let similar ← askTasks (.searchTitle prepared.draft.title)
    createOrReuse request prepared (classify cfg prepared.draft request.context similar [])

/-- What the tracker has under the key of a candidate. -/
inductive Reconciliation where
  | none
  | single (task : ExternalTask)
  | multiple (tasks : List ExternalTask)

def reconcileCandidate (cfg : TaskConfig) (candidateId : String) (expectedRevision : ℕ) :
    TaskProgram Reconciliation := do
  let candidate ← reading (loadCandidate candidateId (some expectedRevision))
  let actionKey ← checked (deriveTaskCreateKey cfg candidate.lineageRootId)
  let found ← askTasks (.reconcileCreate actionKey)
  match found.filter fun task => task.actionKey = some actionKey with
  | [] => return .none
  | [task] =>
    if candidate.content.title.value.map cfg.normalizedText = some (cfg.normalizedText task.title)
    then return .single task
    else return .none
  | tasks => return .multiple tasks

structure TaskCreateInput where
  candidateId : String
  candidateRevision : ℕ
  responsibleSubjectRequired : Bool := false

/-- The workflow, and how the arguments of a call are validated and its output is dumped. -/
structure TaskToolConfig extends TaskConfig where
  createInput : Json → Option TaskCreateInput
  createOutput : TaskServiceOutcome → Json

/-- What stands for a task outside. -/
def taskReference (task : ExternalTask) (actionKey : String) : Json := .obj
  [ ("task_ref", .str task.externalId)
  , ("identifier", .str task.identifier)
  , ("url", .str task.url)
  , ("action_key", .str actionKey) ]

theorem effects_neZero : NeZero 2 := inferInstance

attribute [local instance] effects_neZero

/-- A refusal of a call that had no effect. -/
def refused (errorCode errorMessage : String) : ToolResult :=
  .failure errorCode errorMessage none (some 0)

def createdResult (cfg : TaskToolConfig) (outcome : TaskServiceOutcome) : ToolResult :=
  .success (cfg.createOutput outcome) (some (taskReference outcome.task outcome.actionKey))
    (some (if outcome.created = true then 1 else 0))

/-- Where the workflow needs input, the call is refused for it. -/
def refuseForInput : TaskFault → TaskProgram ToolResult
  | .needsInput code question => .pure (refused code question)
  | .raised fault => .throw (.raised fault)

def readInput (cfg : TaskToolConfig) (arguments : Json) : TaskProgram TaskCreateInput :=
  checked (require (cfg.createInput arguments) (.value "tool arguments are invalid"))

def runWorkflow (cfg : TaskToolConfig) (context : ToolExecutionContext)
    (request : TaskCreateInput) (actorId : String) : TaskProgram ToolResult := do
  let trusted ← reading fun db => .ok (db.context context.executionId)
  let workflow : TaskProgram ToolResult := do
    let outcome ← executeCandidate cfg.toTaskConfig
      { candidateId := request.candidateId
        expectedRevision := request.candidateRevision
        actorId
        context := trusted
        responsibleSubjectRequired := request.responsibleSubjectRequired }
    return createdResult cfg outcome
  workflow.catchFault refuseForInput

def executeCreate (cfg : TaskToolConfig) (context : ToolExecutionContext) :
    TaskProgram ToolResult := do
  let request ← readInput cfg context.arguments
  if context.candidateId ≠ some request.candidateId then
    return refused "candidate_context_mismatch"
      "The task Candidate does not match the authorized action."
  else
    let expectedKey ←
      actionKeyForCandidate cfg.toTaskConfig request.candidateId request.candidateRevision
    if context.logicalActionKey ≠ some expectedKey then
      return refused "task_action_key_mismatch"
        "The task action key does not match the Candidate lineage."
    else
      match context.grant with
      | none =>
        return refused "task_grant_missing"
          "The task creation authorization is unavailable."
      | some grant => runWorkflow cfg context request grant.record.actorId

def foundKey (cfg : TaskToolConfig) (request : TaskCreateInput) (task : ExternalTask) :
    TaskProgram String :=
  match task.actionKey with
  | some key => pure key
  | none => actionKeyForCandidate cfg.toTaskConfig request.candidateId request.candidateRevision

/-- The only task under the key of the candidate is the one that was created. -/
def reconciledResult (cfg : TaskToolConfig) (request : TaskCreateInput) (found : ExternalTask) :
    TaskProgram ToolResult := do
  let task ← askTask found.externalId
  let actionKey ← foundKey cfg request task
  return createdResult cfg { disposition := .sameAction, actionKey, task, created := true }

def reconcileCreate (cfg : TaskToolConfig) (context : ToolExecutionContext) :
    TaskProgram ToolResult := do
  let request ← readInput cfg context.arguments
  let result ← reconcileCandidate cfg.toTaskConfig request.candidateId request.candidateRevision
  match result with
  | .none =>
    return .unknownOutcome "task_create_not_found"
      "No task with the exact action key was found yet." context.externalReference
  | .multiple _ =>
    return .unknownOutcome "duplicate_external_side_effect"
      "Multiple tasks share the exact action key." context.externalReference
  | .single found => reconciledResult cfg request found

def adapterProgram (cfg : TaskToolConfig) (flight : Flight) : TaskProgram ToolResult :=
  match flight.phase with
  | .execute => executeCreate cfg flight.context
  | .reconcile => reconcileCreate cfg flight.context

end TaskSystem
end Matinier
