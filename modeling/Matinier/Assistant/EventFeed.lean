import Mathlib.Data.List.Sort
import Matinier.Foundation.Log
import Matinier.Foundation.Program
import Matinier.Foundation.Blanks
import Matinier.Assistant.Api

/-!
# The event feed of a session

A client first asks for the state of its session and then polls the feed after the
cursor it was given. Every read of the two handlers sees the latest committed state,
and transactions that append events commit between the reads.
-/

namespace Matinier
namespace Assistant

structure StoredEvent where
  sessionId : SessionId
  event : EventRecord
  deriving DecidableEq

/-- The committed tables and the numbered events. -/
structure Committed where
  db : Db
  feed : Log StoredEvent

structure NeedsInputSummary where
  question : String
  choices : List String
  evidenceRefs : List String
  errorCode : Option String

structure ExecutionSummary where
  record : ExecutionRecord
  needsInput : Option NeedsInputSummary
  pendingApproval : Option ApprovalRecord
  externalEffects : ExternalEffects

structure AssistantSessionState where
  activeExecutions : List ExecutionSummary
  recentTerminalExecutions : List ExecutionSummary
  snapshotCursor : ℕ

structure AssistantEventsPage where
  events : List (Entry StoredEvent)
  nextCursor : ℕ
  hasMore : Bool

def ofSession (session : SessionId) (e : StoredEvent) : Bool := e.sessionId = session

namespace Committed

variable (c : Committed)

/-- The events a transaction that ends in the given tables appends to the feed. -/
def appended (db : Db) : List StoredEvent :=
  (db.events.drop c.db.events.length).filterMap fun e =>
    (db.getExecution e.executionId).map fun x => ⟨x.sessionId, e⟩

/-- Commit a transaction: it leaves the events that are there and may append some. -/
def commit (db : Db) : Option Committed :=
  if c.db.events <+: db.events then some ⟨db, c.feed.appendAll (c.appended db)⟩ else none

def listExecutions (session : SessionId) : List ExecutionRecord :=
  (c.db.executions.select fun e => e.sessionId = session).insertionSort fun a b =>
    b.createdAt < a.createdAt ∨ b.createdAt = a.createdAt ∧ b.id ≤ a.id

def listLatestActionApprovals (executionIds : List ExecutionId) :
    ExecutionId → Option ApprovalRecord :=
  fun id => (c.db.approvals.select fun a => a.executionId ∈ executionIds ∧
    a.executionId = id).getLast?

def currentEventCursor : ℕ := c.feed.top

def hasSessionEventsAfter (session : SessionId) (cursor : ℕ) : Bool :=
  c.feed.after (ofSession session) cursor ≠ []

def listSessionEvents (session : SessionId) (after limit : ℕ) : List (Entry StoredEvent) :=
  (c.feed.after (ofSession session) after).take (max 1 (min limit 100))

end Committed

def needsInput (record : ExecutionRecord) : Option NeedsInputSummary :=
  if record.status = .needsInput then
    let result := record.result.getD {}
    some
      { question := (result.question.filter notBlank).getD "This action needs more information."
        choices := (result.choices.getD []).filter notBlank
        evidenceRefs := (result.evidenceRefs.getD []).filter notBlank
        errorCode := result.errorCode }
  else none

/-- An approval that was not found with the others is looked for once more. -/
def approvalOf (record : ExecutionRecord) :
    Option ApprovalRecord → Reader Committed (Option ApprovalRecord)
  | some approval => pure (some approval)
  | none => Reader.select fun c => c.listLatestActionApprovals [record.id] record.id

def executionSummary (approval : Option ApprovalRecord) (record : ExecutionRecord) :
    Reader Committed ExecutionSummary := do
  let approval ← approvalOf record approval
  let externalEffects ← Reader.select fun c => externalEffects c.db record.id
  return { record, needsInput := needsInput record, pendingApproval := approval, externalEffects }

def latestApprovals (records : List ExecutionRecord) :
    Reader Committed (ExecutionId → Option ApprovalRecord) :=
  match records with
  | [] => pure fun _ => none
  | _ :: _ => Reader.select fun c => c.listLatestActionApprovals (records.map ExecutionRecord.id)

/-- The executions of a session as they are read one after another, and at last the cursor. -/
def getAssistantState (session : SessionId) : Reader Committed AssistantSessionState := do
  let records ← Reader.select fun c => c.listExecutions session
  let approvals ← latestApprovals records
  let summaries ← Reader.collect (fun record => executionSummary (approvals record.id) record)
    records
  let terminal := fun s : ExecutionSummary =>
    isTerminalExecutionStatus s.record.profile s.record.status
  let snapshotCursor ← Reader.select Committed.currentEventCursor
  return {
    activeExecutions := summaries.filter fun s => !terminal s
    recentTerminalExecutions := (summaries.filter terminal).take 20
    snapshotCursor }

/-- A request for the events after a cursor: its page is to be read, or whether more events
follow it, or the cursor behind the last page, or it has its answer. -/
inductive EventsPoll where
  | listing (limit : ℕ)
  | checking (records : List (Entry StoredEvent))
  | closing (records : List (Entry StoredEvent))
  | answered (page : AssistantEventsPage)

/-- One read of the request for the events after a cursor. -/
def listAssistantEvents (session : SessionId) (after : ℕ) (c : Committed) :
    EventsPoll → Option EventsPoll
  | .listing limit => some (.checking (c.listSessionEvents session after (min limit 100)))
  | .checking records =>
    let pageCursor := Log.pageEnd after records
    if c.hasSessionEventsAfter session pageCursor then
      some (.answered { events := records, nextCursor := pageCursor, hasMore := true })
    else some (.closing records)
  | .closing records =>
    some (.answered {
      events := records
      nextCursor := max (Log.pageEnd after records) c.currentEventCursor
      hasMore := false })
  | .answered _ => none

/-- What a client that has its snapshot holds; `seen` are the states the snapshot was read at. -/
structure FeedClient where
  snapshot : AssistantSessionState
  seen : List Committed
  cursor : ℕ
  received : List (Entry StoredEvent) := []
  poll : Option EventsPoll := none

inductive ClientPhase where
  | fresh
  | reading (rest : Reader Committed AssistantSessionState) (seen : List Committed)
  | following (client : FeedClient)

structure FeedWorld where
  committed : Committed
  client : ClientPhase := .fresh

inductive FeedStep where
  | commit (db : Db)
  | start
  | read
  | follow
  | poll (limit : ℕ)
  | receive

def ClientPhase.next (session : SessionId) (c : Committed) :
    ClientPhase → FeedStep → Option ClientPhase
  | .fresh, .start => some (.reading (getAssistantState session) [])
  | .reading (.read next) seen, .read => some (.reading (next c) (c :: seen))
  | .reading (.pure state) seen, .follow =>
    some (.following { snapshot := state, seen, cursor := state.snapshotCursor })
  | .following client, .poll limit =>
    if client.poll.isNone ∧ 1 ≤ limit then
      some (.following { client with poll := some (.listing limit) })
    else none
  | .following client, .read => do
    let poll ← client.poll
    let poll ← listAssistantEvents session client.cursor c poll
    return .following { client with poll := some poll }
  | .following client, .receive =>
    match client.poll with
    | some (.answered page) =>
      some (.following { client with
        cursor := page.nextCursor
        received := client.received ++ page.events
        poll := none })
    | _ => none
  | _, _ => none

/-- A transaction commits, or the client takes a step. -/
def FeedWorld.next (session : SessionId) (w : FeedWorld) : FeedStep → Option FeedWorld
  | .commit db => (w.committed.commit db).map fun committed => { w with committed }
  | a => (w.client.next session w.committed a).map fun client => { w with client }

end Assistant
end Matinier
