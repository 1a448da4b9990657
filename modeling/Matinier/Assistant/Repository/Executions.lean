import Matinier.Assistant.Database
import Matinier.Foundation.Blanks

/-!
# Executions in the repository

The operations that write execution rows and what hangs on them: steps,
observations and events. A transition is a compare-and-set on the version and
the status that the caller read, and appends one event.
-/

namespace Matinier
namespace Assistant

structure TransitionRequest where
  expectedVersion : ℕ
  targetStatus : ExecutionStatus
  eventType : String := "execution.status_changed"
  result : Option ExecutionResult := none
  snapshotId : Option SnapshotId := none
  grantId : Option GrantId := none
  errorCode : Option String := none
  errorMessage : Option String := none
  changedAt : Instant

/-- The row a transition writes over `row`, where the caller had read `record`. -/
def ExecutionRecord.moved (row record : ExecutionRecord) (request : TransitionRequest)
    (next : { s // Declared row.profile s }) : ExecutionRecord :=
  { row with
    status := next.val
    stateVersion := request.expectedVersion + 1
    result := request.result.or record.result
    snapshotId := request.snapshotId.or row.snapshotId
    grantId := request.grantId.or row.grantId
    errorCode := request.errorCode
    errorMessage := request.errorMessage
    startedAt :=
      if record.startedAt.isNone ∧ next.val ≠ .received ∧ next.val ≠ .queued then
        some request.changedAt
      else row.startedAt
    completedAt :=
      if isTerminalExecutionStatus row.profile next.val then some request.changedAt else none
    statusDeclared := next.property }

def transitionEvent (row : ExecutionRecord) (request : TransitionRequest) : EventRecord where
  executionId := row.id
  stateVersion := row.stateVersion
  eventType := request.eventType
  phase := row.status
  status := row.status

namespace Db

/-- A transition of a record the caller has read, perhaps in an older state of the database. -/
def transitionExecutionFrom (db : Db) (record : ExecutionRecord) (request : TransitionRequest) :
    Except Fault (ExecutionRecord × Db) := do
  ensure (record.stateVersion = request.expectedVersion)
    (.stateConflict
      s!"Execution {record.id} no longer has version {request.expectedVersion}")
  let next ← transitionExecutionStatus record.profile record.status request.targetStatus
  let row ← require (db.getExecution record.id)
    (.stateConflict s!"Execution {record.id} changed during transition")
  -- The profile of a row never changes, so the update's condition implies its equality.
  if h : row.stateVersion = request.expectedVersion ∧ row.status = record.status ∧
      row.profile = record.profile then
    let updated := row.moved record request ⟨next.val, by rw [h.2.2]; exact next.property⟩
    return (updated,
      { db with
        executions := db.executions.set updated
        events := db.events ++ [transitionEvent updated request] })
  else
    throw (.stateConflict s!"Execution {record.id} changed during transition")

/-- A transition of the current row. -/
def transitionExecution (db : Db) (id : ExecutionId) (request : TransitionRequest) :
    Except Fault (ExecutionRecord × Db) := do
  let record ← db.getExecutionRequired id
  db.transitionExecutionFrom record request

/-- The version and the status the update's condition names are those of the row it finds. -/
theorem transitionExecutionFrom_eq_ok {db db' : Db} {record updated : ExecutionRecord}
    {request : TransitionRequest} :
    db.transitionExecutionFrom record request = .ok (updated, db') ↔
      ∃ row, db.getExecution record.id = some row ∧
        record.stateVersion = request.expectedVersion ∧
        row.stateVersion = request.expectedVersion ∧ row.status = record.status ∧
        row.profile = record.profile ∧
        (row.status = request.targetStatus ∨
          request.targetStatus ∈ executionEdges row.profile row.status) ∧
        ∃ h : Declared row.profile request.targetStatus,
          updated = row.moved record request ⟨request.targetStatus, h⟩ ∧
          db' = { db with
            executions := db.executions.set updated
            events := db.events ++ [transitionEvent updated request] } := by
  unfold transitionExecutionFrom
  simp only [bind_eq_ok, ensure_eq_ok, require_eq_ok, transitionExecutionStatus_eq_ok]
  constructor
  · rintro ⟨_, hversion, ⟨next, hnext⟩, ⟨-, rfl, hedge⟩, row, hrow, hwrite⟩
    -- The other branch of the condition raises, which the hypothesis excludes.
    split_ifs at hwrite with h
    simp only [pure_eq_ok, Prod.mk.injEq] at hwrite
    obtain ⟨rfl, rfl⟩ := hwrite
    obtain ⟨hv, hs, hp⟩ := h
    have hdecl : Declared row.profile request.targetStatus := by rw [hp]; exact hnext
    refine ⟨row, hrow, hversion, hv, hs, hp, ?_, hdecl, rfl, rfl⟩
    rw [hp, hs]
    exact hedge
  · rintro ⟨row, hrow, hversion, hv, hs, hp, hedge, hdecl, rfl, rfl⟩
    rw [hp] at hdecl
    refine ⟨(), hversion, ⟨request.targetStatus, hdecl⟩, ?_, row, hrow, ?_⟩
    · refine ⟨record.statusDeclared, rfl, ?_⟩
      rw [← hp, ← hs]
      exact hedge
    · rw [dif_pos ⟨hv, hs, hp⟩]
      rfl

theorem transitionExecution_eq_ok {db db' : Db} {id : ExecutionId} {updated : ExecutionRecord}
    {request : TransitionRequest} :
    db.transitionExecution id request = .ok (updated, db') ↔
      ∃ row, db.getExecution id = some row ∧
        row.stateVersion = request.expectedVersion ∧
        (row.status = request.targetStatus ∨
          request.targetStatus ∈ executionEdges row.profile row.status) ∧
        ∃ h : Declared row.profile request.targetStatus,
          updated = row.moved row request ⟨request.targetStatus, h⟩ ∧
          db' = { db with
            executions := db.executions.set updated
            events := db.events ++ [transitionEvent updated request] } := by
  unfold transitionExecution getExecutionRequired
  simp only [bind_eq_ok, require_eq_ok, transitionExecutionFrom_eq_ok]
  constructor
  · rintro ⟨record, hrecord, row, hrow, -, hv, -, -, hedge, h, rfl, rfl⟩
    have hid : record.id = id := Table.key_of_get hrecord
    rw [hid, hrecord, Option.some.injEq] at hrow
    subst hrow
    exact ⟨record, hrecord, hv, hedge, h, rfl, rfl⟩
  · rintro ⟨row, hrow, hv, hedge, h, rfl, rfl⟩
    have hid : row.id = id := Table.key_of_get hrow
    exact ⟨row, hrow, row, by rw [hid]; exact hrow, hv, hv, rfl, rfl, hedge, h, rfl, rfl⟩

@[simp] theorem moved_id {row record : ExecutionRecord} {request : TransitionRequest}
    {next : { s // Declared row.profile s }} : (row.moved record request next).id = row.id := rfl

theorem moved_replaces {row record : ExecutionRecord} {request : TransitionRequest}
    {next : { s // Declared row.profile s }} :
    Table.Replaces (row.moved record request next) row := ⟨rfl, Or.inr rfl⟩

theorem getExecution_transition {db db' : Db} {id : ExecutionId} {updated : ExecutionRecord}
    {request : TransitionRequest} (h : db.transitionExecution id request = .ok (updated, db'))
    (k : ExecutionId) :
    db'.getExecution k = if k = id then some updated else db.getExecution k := by
  obtain ⟨row, hrow, -, -, _, rfl, rfl⟩ := transitionExecution_eq_ok.mp h
  obtain rfl : row.id = id := Table.key_of_get hrow
  exact Table.get_set (r := row.moved row request _) hrow moved_replaces k

theorem getExecution_transitionFrom {db db' : Db} {record updated : ExecutionRecord}
    {request : TransitionRequest}
    (h : db.transitionExecutionFrom record request = .ok (updated, db')) :
    (∃ row, db.getExecution record.id = some row ∧ updated.profile = row.profile ∧
      updated.parentExecutionId = row.parentExecutionId ∧
      updated.rootExecutionId = row.rootExecutionId) ∧
    updated.status = request.targetStatus ∧ db'.handoffs = db.handoffs ∧
    ∀ k, db'.getExecution k = if k = record.id then some updated else db.getExecution k := by
  obtain ⟨row, hrow, -, -, -, -, -, _, rfl, rfl⟩ := transitionExecutionFrom_eq_ok.mp h
  have hid : row.id = record.id := Table.key_of_get hrow
  refine ⟨⟨row, hrow, rfl, rfl, rfl⟩, rfl, rfl, fun k => ?_⟩
  rw [← hid] at hrow ⊢
  exact Table.get_set (r := row.moved record request _) hrow moved_replaces k

/-- What a transition leaves alone: every other execution, and every other table. -/
structure MovesExecution (db db' : Db) (id : ExecutionId) : Prop where
  others : ∀ k, k ≠ id → db'.getExecution k = db.getExecution k
  stays : ∀ k, (db'.getExecution k).isSome = (db.getExecution k).isSome
  rest : db' = { db with executions := db'.executions, events := db'.events }

theorem MovesExecution.refl (db : Db) (id : ExecutionId) : MovesExecution db db id :=
  ⟨fun _ _ => rfl, fun _ => rfl, rfl⟩

theorem MovesExecution.trans {db db' db'' : Db} {id : ExecutionId}
    (h : MovesExecution db db' id) (h' : MovesExecution db' db'' id) :
    MovesExecution db db'' id := by
  refine ⟨fun k hk => (h'.others k hk).trans (h.others k hk),
    fun k => (h'.stays k).trans (h.stays k), ?_⟩
  rw [h'.rest, h.rest]

theorem transitionExecution_moves {db db' : Db} {id : ExecutionId} {updated : ExecutionRecord}
    {request : TransitionRequest} (h : db.transitionExecution id request = .ok (updated, db')) :
    MovesExecution db db' id := by
  refine ⟨fun k hk => by rw [getExecution_transition h, if_neg hk], fun k => ?_, ?_⟩
  · obtain ⟨row, -, -, -, _, -, rfl⟩ := transitionExecution_eq_ok.mp h
    exact Table.isSome_get_set k
  · obtain ⟨row, -, -, -, _, -, rfl⟩ := transitionExecution_eq_ok.mp h
    rfl

def moveExecution (db : Db) (execution : ExecutionRecord) (target : ExecutionStatus)
    (eventType : String) (now : Instant) (result : Option ExecutionResult := none)
    (errorCode errorMessage : Option String := none) : Except Fault (ExecutionRecord × Db) :=
  db.transitionExecution execution.id
    { expectedVersion := execution.stateVersion
      targetStatus := target
      eventType
      result
      errorCode
      errorMessage
      changedAt := now }

def CurrentRun (db : Db) (execution : ExecutionRecord) : Prop :=
  db.getExecution execution.id = some execution ∧ execution.profile = .actionRun

/-- Along an edge of its table an action run moves, and nothing else does. -/
theorem moveExecution_ok {db : Db} {execution : ExecutionRecord} (target : ExecutionStatus)
    (eventType : String) (now : Instant) (result : Option ExecutionResult)
    (errorCode errorMessage : Option String) (hcur : CurrentRun db execution)
    (hedge : target ∈ executionEdges .actionRun execution.status)
    (hdecl : Declared .actionRun target) :
    ∃ moved db', db.moveExecution execution target eventType now result errorCode errorMessage =
        .ok (moved, db') ∧ moved.id = execution.id ∧ moved.status = target ∧
      CurrentRun db' moved ∧ MovesExecution db db' execution.id := by
  obtain ⟨hget, hprofile⟩ := hcur
  rw [← hprofile] at hedge hdecl
  let request : TransitionRequest :=
    { expectedVersion := execution.stateVersion, targetStatus := target, eventType, result
      errorCode, errorMessage, changedAt := now }
  let moved := execution.moved execution request ⟨target, hdecl⟩
  have hmove : db.transitionExecution execution.id request = .ok (moved,
      { db with
        executions := db.executions.set moved
        events := db.events ++ [transitionEvent moved request] }) :=
    transitionExecution_eq_ok.mpr ⟨execution, hget, rfl, Or.inr hedge, hdecl, rfl, rfl⟩
  refine ⟨moved, _, hmove, rfl, rfl, ⟨?_, hprofile⟩, transitionExecution_moves hmove⟩
  rw [getExecution_transition hmove, if_pos]
  rfl

/-- The root of a new execution: that of its parent, or itself. -/
def rootExecution (db : Db) (sessionId : SessionId) (id : ExecutionId) :
    Option ExecutionId → Except Fault ExecutionId
  | none => .ok id
  | some parentId => do
    let parent ← db.getExecutionRequired parentId
    ensure (parent.sessionId = sessionId)
      (.value "parent execution belongs to a different Session")
    return parent.rootExecutionId

/-- Insert a new execution in its profile's first status, or return the one the client's
request already has. -/
def createExecution (db : Db) (sessionId : SessionId) (profile : ExecutionProfile)
    (goal : String) (clientRequestId : Option String) (parentExecutionId : Option ExecutionId)
    (snapshotId : Option SnapshotId) (grantId : Option GrantId) (id : ExecutionId)
    (createdAt : Instant) : Except Fault (ExecutionRecord × Db) := do
  ensure (stripped goal ≠ "") (.value "execution goal is required")
  match clientRequestId.bind fun request => db.executions.getUnique (sessionId, request) with
  | some existing => return (existing, db)
  | none =>
    let root ← db.rootExecution sessionId id parentExecutionId
    let record : ExecutionRecord :=
      { id, sessionId, profile, rootExecutionId := root, parentExecutionId, snapshotId, grantId
        clientRequestId, goal := stripped goal
        status := initialExecutionStatus profile, createdAt
        statusDeclared := initialExecutionStatus_declared profile }
    let executions ← require (db.executions.insert record) .integrity
    let event : EventRecord :=
      { executionId := id, stateVersion := 1, eventType := "execution.created"
        phase := record.status, status := record.status }
    return (record, { db with executions, events := db.events ++ [event] })

/-- A request without an identifier of the client's, and with a goal, is not looked up. -/
theorem createExecution_of_goal {db : Db} {sessionId : SessionId} {profile : ExecutionProfile}
    {goal : String} {parent : Option ExecutionId} {snapshotId : Option SnapshotId}
    {grantId : Option GrantId} {id : ExecutionId} {createdAt : Instant}
    (hgoal : stripped goal ≠ "") :
    db.createExecution sessionId profile goal none parent snapshotId grantId id createdAt = do
      let root ← db.rootExecution sessionId id parent
      let record : ExecutionRecord :=
        { id, sessionId, profile, rootExecutionId := root, parentExecutionId := parent, snapshotId
          grantId, clientRequestId := none, goal := stripped goal
          status := initialExecutionStatus profile, createdAt
          statusDeclared := initialExecutionStatus_declared profile }
      let executions ← require (db.executions.insert record) .integrity
      let event : EventRecord :=
        { executionId := id, stateVersion := 1, eventType := "execution.created"
          phase := record.status, status := record.status }
      return (record, { db with executions, events := db.events ++ [event] }) := by
  have hchecked : ensure (stripped goal ≠ "") (Fault.value "execution goal is required") =
      .ok () := ensure_eq_ok.mpr hgoal
  unfold createExecution
  rw [hchecked]
  rfl

def appendStep (db : Db) (executionId : ExecutionId) (kind : StepKind)
    (output : Option PlannerOutcome) (decisionSummary : Option String) (id : StepId) :
    Except Fault (StepRecord × Db) := do
  let execution ← db.getExecutionRequired executionId
  let record : StepRecord :=
    { id, executionId, sequence := execution.stepCount + 1, kind, output, decisionSummary }
  let steps ← require (db.steps.insert record) .integrity
  return (record,
    { db with
      steps
      executions := db.executions.set { execution with stepCount := execution.stepCount + 1 } })

def appendObservation (db : Db) (executionId : ExecutionId) (source : ObservationSource)
    (observation : Json) (evidenceRefs : List String) (sourceRef : Option ℕ)
    (id : ObservationId) : Except Fault (ObservationRecord × Db) := do
  let _ ← db.getExecutionRequired executionId
  let record : ObservationRecord :=
    { id, executionId, source, sourceRef, observation, evidenceRefs := evidenceRefs.eraseDups }
  let observations ← require (db.observations.insert record) .integrity
  return (record, { db with observations })

theorem appendStep_eq_ok {db db' : Db} {executionId : ExecutionId} {kind : StepKind}
    {output : Option PlannerOutcome} {summary : Option String} {id : StepId} {record : StepRecord} :
    db.appendStep executionId kind output summary id = .ok (record, db') ↔
      ∃ execution, db.getExecution executionId = some execution ∧
        record = { id, executionId, sequence := execution.stepCount + 1, kind, output
                   decisionSummary := summary } ∧
        ∃ steps, db.steps.insert record = some steps ∧
          db' = { db with
            steps
            executions :=
              db.executions.set { execution with stepCount := execution.stepCount + 1 } } := by
  unfold appendStep getExecutionRequired
  simp only [bind_eq_ok, require_eq_ok, pure_eq_ok, Prod.mk.injEq]
  constructor
  · rintro ⟨execution, he, steps, hsteps, rfl, rfl⟩
    exact ⟨execution, he, rfl, steps, hsteps, rfl⟩
  · rintro ⟨execution, he, rfl, steps, hsteps, rfl⟩
    exact ⟨execution, he, steps, hsteps, rfl, rfl⟩

theorem appendObservation_eq_ok {db db' : Db} {executionId : ExecutionId}
    {source : ObservationSource} {observation : Json} {refs : List String} {ref : Option ℕ}
    {id : ObservationId} {record : ObservationRecord} :
    db.appendObservation executionId source observation refs ref id = .ok (record, db') ↔
      (∃ execution, db.getExecution executionId = some execution) ∧
        record = { id, executionId, source, sourceRef := ref, observation
                   evidenceRefs := refs.eraseDups } ∧
        ∃ observations, db.observations.insert record = some observations ∧
          db' = { db with observations } := by
  unfold appendObservation getExecutionRequired
  simp only [bind_eq_ok, require_eq_ok, pure_eq_ok, Prod.mk.injEq]
  constructor
  · rintro ⟨execution, he, observations, hobs, rfl, rfl⟩
    exact ⟨⟨execution, he⟩, rfl, observations, hobs, rfl⟩
  · rintro ⟨⟨execution, he⟩, rfl, observations, hobs, rfl⟩
    exact ⟨execution, he, observations, hobs, rfl, rfl⟩

theorem lt_newObservationId {db : Db} {o : ObservationRecord} (h : o ∈ db.observations.rows) :
    o.id < db.newObservationId := by
  apply lt_foldr_max
  exact List.mem_map_of_mem h

theorem appendObservation_new {db : Db} {executionId : ExecutionId}
    (h : (db.getExecution executionId).isSome = true) (source : ObservationSource)
    (observation : Json) (refs : List String) (ref : Option ℕ) :
    ∃ record observations, db.appendObservation executionId source observation refs ref
      db.newObservationId = .ok (record, { db with observations }) := by
  obtain ⟨execution, hexec⟩ := Option.isSome_iff_exists.mp h
  let record : ObservationRecord :=
    { id := db.newObservationId, executionId, source, sourceRef := ref, observation
      evidenceRefs := refs.eraseDups }
  have hfree : db.observations.Free record := by
    intro o ho
    exact ⟨Nat.ne_of_lt (lt_newObservationId ho), Or.inl rfl⟩
  obtain ⟨observations, hins⟩ := Table.insert_isSome hfree
  exact ⟨record, observations, appendObservation_eq_ok.mpr
    ⟨⟨execution, hexec⟩, rfl, observations, hins, rfl⟩⟩

end Db

end Assistant
end Matinier
