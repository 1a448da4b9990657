import Matinier.Assistant.Plugin.OperationWorkerSpec

/-!
# Operations track their executions

What the workers hold and have done agrees with the tables, whatever is raised. Where besides
no exception kills a worker, and none fails an execution that runs, every step keeps the number
of workers and moves operations and executions only as they belong together.
-/

namespace Matinier
namespace Assistant

/-- An operation is restated, and is not accepted again. -/
structure Progressed (o o' : OperationRecord) : Prop where
  restated : Restated o o'
  left : o.status ≠ .accepted → o'.status ≠ .accepted

theorem Progressed.refl (o : OperationRecord) : Progressed o o := ⟨.refl o, fun h => h⟩

/-- What a step that recovers nothing keeps of the tables. -/
structure Moved (db db' : MeetingDb) : Prop extends Kept db db' where
  operations : db.operations.Evolves Progressed Admitted db'.operations

namespace WorkerWorld

/-- What is known of a fast turn a worker runs: its request is the operation's, its execution
was created by that request, and its model has not been asked before. -/
def TurnOk (w : WorkerWorld) (id : OperationId) : TurnStage → Prop
  | .requested request => request.clientRequestId = some s!"meeting:{id}"
  | .received x => CreatedFor w.db.assistant id x ∧ x ∉ w.asked
  | .contextualized x | .decided x => CreatedFor w.db.assistant id x ∧ x ∉ w.asked ∧
      ∀ e, w.db.assistant.getExecution x = some e → e.status ≠ .received
  | .asked _ => True

/-- The operation is there, and is accepted no longer. -/
def Taken (db : MeetingDb) (id : OperationId) : Prop :=
  ∃ o, db.operations.get id = some o ∧ o.status ≠ .accepted

/-- Distinct workers hold distinct operations; one is dispatched once, and a model asked once. -/
structure Sound (w : WorkerWorld) : Prop where
  db : w.db.Sound
  held : ∀ (i : ℕ) phase id, w.workers[i]? = some phase → phase.held = some id → Taken w.db id
  distinct : ∀ (i j : ℕ) p q id, w.workers[i]? = some p → w.workers[j]? = some q →
    p.held = some id → q.held = some id → i = j
  turns : ∀ (i : ℕ) id stage, w.workers[i]? = some (.turning id stage) → w.TurnOk id stage
  undispatched : ∀ (i : ℕ) id, w.workers[i]? = some (.claimed id) → id ∉ w.dispatched
  taken : ∀ id ∈ w.dispatched, Taken w.db id
  once : w.dispatched.Nodup
  begun : ∀ x ∈ w.asked, ∃ e, w.db.assistant.getExecution x = some e ∧ e.status ≠ .received
  askedOnce : w.asked.Nodup

end WorkerWorld

section Tables

variable {db db' : MeetingDb}

theorem Moved.of_kept (h : Kept db db')
    (hoperations : OperationsKept db.operations db'.operations) :
    Moved db db' := by
  refine ⟨h, hoperations.mono (fun heq => ?_) fun hadmitted => hadmitted⟩
  rw [← heq]
  exact .refl _

theorem Moved.of_tables {operations : Table OperationRecord} {assistant : Db}
    (h : db.operations.Evolves Progressed (fun _ => False) operations)
    (hquiet : Quiet db.assistant assistant) : Moved db { db with operations, assistant } := by
  have hrestated : Calm db { db with operations } :=
    .of_restated (h.mono Progressed.restated fun hfalse => hfalse)
  exact ⟨(hrestated.trans (.of_assistant hquiet)).toKept,
    h.mono (fun hsame => hsame) fun hfalse => hfalse.elim⟩

theorem Moved.taken (h : Moved db db') {id : OperationId} (htaken : WorkerWorld.Taken db id) :
    WorkerWorld.Taken db' id := by
  obtain ⟨o, ho, hstatus⟩ := htaken
  obtain ⟨o', ho', hprogressed⟩ := h.operations.kept id o ho
  exact ⟨o', ho', hprogressed.left hstatus⟩

theorem Moved.refresh (db : MeetingDb) : Moved db db.refreshRunning := by
  obtain ⟨hevolves, hrest⟩ := db.refreshRunning_evolves
  rw [hrest]
  refine .of_tables (hevolves.mono (fun h => ⟨h.restated, fun hne => ?_⟩) fun hfalse => hfalse)
    (.refl _)
  rcases h with rfl | ⟨-, e, -, -, rfl⟩
  · exact hne
  · simp only [ExecutionRecord.operationStatus]
    split_ifs <;> decide

theorem Moved.restate {o : OperationRecord} {assistant : Db}
    (ho : db.operations.get o.id = some o) {status : OperationStatus} (errorCode : Option String)
    (hstatus : status ≠ .accepted) (hquiet : Quiet db.assistant assistant) :
    Moved db
      { db with operations := db.operations.set { o with status, errorCode }, assistant } := by
  let restated : OperationRecord := { o with status, errorCode }
  have hold : db.operations.get (Row.key restated) = some o := ho
  exact .of_tables (.of_set Progressed.refl hold ⟨rfl, Or.inr rfl⟩
    ⟨⟨status, errorCode, rfl⟩, fun _ => hstatus⟩) hquiet

theorem Moved.stop {o : OperationRecord} {cause : StopCause} (ho : db.operations.get o.id = some o)
    (h : MeetingDb.Stopped db o cause db') : Moved db db' := by
  have hstatus : cause.targets.1 ≠ .accepted := by cases cause <;> decide
  rw [h.rest, h.operations]
  exact .restate ho _ hstatus h.quiet

end Tables

namespace WorkerWorld

/-- What one step of a worker can do. -/
inductive Advances (w : WorkerWorld) (worker : ℕ) :
    DispatchPhase → WorkerAction → WorkerWorld → Prop
  | claims (worker' : ℕ) : Advances w worker .idle (.claim worker' none)
      ({ w with db := w.db.claim.2 }.setWorker worker (w.db.claim.1.elim .idle .claimed))
  | waits (worker' : ℕ) : Advances w worker .idle (.claim worker' (some .operational)) w
  | dies (worker' : ℕ) (raised : Raised) (h : raised ≠ .operational) :
      Advances w worker .idle (.claim worker' (some raised)) (w.setWorker worker .dead)
  | dispatches (id : OperationId) (worker' : ℕ) (now : Instant) (raised : Option Raised)
      (phase : DispatchPhase) (h : w.db.dispatch id now = .ok phase ∨
        ∃ cause, cause ≠ .refreshFailed ∧ phase = .stopping id cause) :
      Advances w worker (.claimed id) (.dispatch worker' now raised)
        ({ w with dispatched := w.dispatched ++ [id] }.setWorker worker phase)
  | turns (id : OperationId) (stage : TurnStage) (worker' : ℕ) (x : ExecutionId) (now : Instant)
      (next : Option TurnStage) (assistant : Db)
      (h : stage.step x now w.db.assistant = .ok (next, assistant)) :
      Advances w worker (.turning id stage) (.turn worker' x now)
        ({ w with db := { w.db with assistant }, asked := w.asked ++ stage.asks }.setWorker worker
          (next.elim (.refreshing id) (.turning id)))
  | returns (phase : DispatchPhase) (id : OperationId) (worker' : ℕ) (h : phase.held = some id) :
      Advances w worker phase (.returned worker') (w.setWorker worker (.refreshing id))
  | raises (phase : DispatchPhase) (id : OperationId) (worker' : ℕ) (raised : Raised)
      (h : phase.held = some id) :
      Advances w worker phase (.raises worker' raised)
        (w.setWorker worker (.stopping id raised.cause))
  | refreshes (id : OperationId) (worker' : ℕ) : Advances w worker (.refreshing id)
      (.refresh worker' false) ({ w with db := w.db.refreshRunning }.setWorker worker .idle)
  | misses (id : OperationId) (worker' : ℕ) : Advances w worker (.refreshing id)
      (.refresh worker' true) (w.setWorker worker (.stopping id .refreshFailed))
  | stops (id : OperationId) (cause : StopCause) (worker' : ℕ) (now : Instant) (db : MeetingDb)
      (h : w.db.stopOperation id cause now = .ok db) :
      Advances w worker (.stopping id cause) (.fail worker' now none)
        ({ w with db }.setWorker worker .idle)
  | gives (id : OperationId) (cause : StopCause) (worker' : ℕ) (now : Instant)
      (raised : Option Raised)
      (h : raised ≠ none ∨ ∃ e, w.db.stopOperation id cause now = .error e) :
      Advances w worker (.stopping id cause) (.fail worker' now raised) (w.setWorker worker .dead)

theorem fault_cause_ne (fault : Fault) : fault.cause ≠ .refreshFailed := by
  cases fault <;> simp [Fault.cause]

theorem raised_cause_ne (raised : Raised) : raised.cause ≠ .refreshFailed := by
  cases raised <;> simp [Raised.cause]

theorem workerStep_advances {w w' : WorkerWorld} {worker : ℕ} {phase : DispatchPhase}
    {a : WorkerAction} (h : w.workerStep worker phase a = some w') :
      Advances w worker phase a w' := by
  unfold workerStep at h
  split at h
  · cases h
    exact .claims _
  · cases h
    exact .waits _
  · rename_i hraised
    cases h
    exact .dies _ _ fun heq => hraised (by rw [heq])
  · cases h
    refine .dispatches _ _ _ _ _ ?_
    split
    · exact Or.inr ⟨_, raised_cause_ne _, rfl⟩
    · exact Or.inl ‹_›
    · exact Or.inr ⟨_, fault_cause_ne _, rfl⟩
  · split at h
    · cases h
      exact .turns _ _ _ _ _ _ _ ‹_›
    · cases h
  · cases h
    exact .returns _ _ _ rfl
  · cases h
    exact .returns _ _ _ rfl
  · cases h
    exact .raises _ _ _ _ rfl
  · cases h
    exact .raises _ _ _ _ rfl
  · cases h
    exact .refreshes _ _
  · cases h
    exact .misses _ _
  · split at h
    · cases h
      exact .stops _ _ _ _ _ ‹_›
    · cases h
      exact .gives _ _ _ _ _ (Or.inr ⟨_, ‹_›⟩)
  · cases h
    exact .gives _ _ _ _ _ (Or.inl (Option.some_ne_none _))
  · cases h

section Phases

variable {w w' : WorkerWorld} {i j : ℕ} {phase phase' q : DispatchPhase} {id : OperationId}

theorem setWorker_get (h : (w.setWorker i phase).workers[j]? = some q) :
    j = i ∧ q = phase ∨ j ≠ i ∧ w.workers[j]? = some q := by
  simp only [setWorker, List.getElem?_set] at h
  split_ifs at h with hij hlen
  · exact Or.inl ⟨hij.symm, (Option.some.inj h).symm⟩
  · exact Or.inr ⟨fun heq => hij heq.symm, h⟩

theorem setWorker_self (h : w.workers[i]? = some phase) :
    (w.setWorker i phase').workers[i]? = some phase' := by
  obtain ⟨hlen, -⟩ := List.getElem?_eq_some_iff.mp h
  exact List.getElem?_set_self hlen

theorem Sound.moved {db : MeetingDb} (h : w.Sound) (hmoved : Moved w.db db) :
    Sound { w with db } := by
  have hbegun : ∀ x e', db.assistant.getExecution x = some e' →
      ∀ e, w.db.assistant.getExecution x = some e → e.status ≠ .received →
        e'.status ≠ .received := by
    intro x e' he' e he hstatus
    obtain ⟨row, hrow, hsame⟩ := hmoved.executions.kept x e he
    obtain rfl := Option.some.inj (he'.symm.trans hrow)
    exact hsame.left hstatus
  refine ⟨h.db.kept hmoved.toKept, fun j q id hq hheld => hmoved.taken (h.held j q id hq hheld),
    h.distinct, fun j id stage hstage => ?_, h.undispatched,
    fun id hid => hmoved.taken (h.taken id hid), h.once, fun x hx => ?_, h.askedOnce⟩
  · have hok := h.turns j id stage hstage
    cases stage with
    | requested request => exact hok
    | received x => exact ⟨hok.1.kept hmoved.executions, hok.2⟩
    | contextualized x | decided x =>
      obtain ⟨hcreated, hasked, hleft⟩ := hok
      refine ⟨hcreated.kept hmoved.executions, hasked, fun e' he' => ?_⟩
      obtain ⟨e, he, -⟩ := hcreated
      exact hbegun x e' he' e he (hleft e he)
    | asked x => trivial
  · obtain ⟨e, he, hstatus⟩ := h.begun x hx
    obtain ⟨e', he', hsame⟩ := hmoved.executions.kept x e he
    exact ⟨e', he', hsame.left hstatus⟩

/-- A worker changes its phase; what it holds then, no other one holds. -/
theorem Sound.takes (h : w.Sound) (hheld : ∀ id, phase'.held = some id → Taken w.db id ∧
      ∀ j q, w.workers[j]? = some q → q.held = some id → j = i)
    (hturn : ∀ id stage, phase' = .turning id stage → w.TurnOk id stage)
    (hclaimed : ∀ id, phase' = .claimed id → id ∉ w.dispatched) :
    (w.setWorker i phase').Sound := by
  refine ⟨h.db, fun j q id hq hid => ?_, fun j k p q id hp hq hpid hqid => ?_,
    fun j id stage hstage => ?_, fun j id hid => ?_, h.taken, h.once, h.begun, h.askedOnce⟩
  · rcases setWorker_get hq with ⟨-, rfl⟩ | ⟨-, hq⟩
    · exact (hheld id hid).1
    · exact h.held j q id hq hid
  · rcases setWorker_get hp with ⟨hj, rfl⟩ | ⟨-, hp'⟩ <;>
      rcases setWorker_get hq with ⟨hk, rfl⟩ | ⟨-, hq'⟩
    · rw [hj, hk]
    · rw [hj, (hheld id hpid).2 k q hq' hqid]
    · rw [hk, (hheld id hqid).2 j p hp' hpid]
    · exact h.distinct j k p q id hp' hq' hpid hqid
  · rcases setWorker_get hstage with ⟨-, heq⟩ | ⟨-, hstage⟩
    · exact hturn id stage heq.symm
    · exact h.turns j id stage hstage
  · rcases setWorker_get hid with ⟨-, heq⟩ | ⟨-, hid⟩
    · exact hclaimed id heq.symm
    · exact h.undispatched j id hid

theorem Sound.keeps (h : w.Sound) (hi : w.workers[i]? = some phase)
    (hheld : phase'.held = none ∨ phase'.held = phase.held)
    (hturn : ∀ id stage, phase' = .turning id stage → w.TurnOk id stage)
    (hclaimed : ∀ id, phase' ≠ .claimed id) : (w.setWorker i phase').Sound := by
  refine h.takes (fun id hid => ?_) hturn (fun id heq => absurd heq (hclaimed id))
  rcases hheld with hnone | hsame
  · rw [hnone] at hid
    cases hid
  · rw [hsame] at hid
    exact ⟨h.held i phase id hi hid, fun j q hq hqid => h.distinct j i q phase id hq hi hqid hid⟩

theorem Sound.dispatch (h : w.Sound) (hi : w.workers[i]? = some phase)
    (hheld : phase.held = some id) (hpast : phase ≠ .claimed id) (hnew : id ∉ w.dispatched) :
    Sound { w with dispatched := w.dispatched ++ [id] } := by
  refine ⟨h.db, h.held, h.distinct, h.turns, fun j id' hid' => ?_, fun id' hid' => ?_, ?_, h.begun,
    h.askedOnce⟩
  · rw [List.mem_append, List.mem_singleton]
    rintro (hold | rfl)
    · exact h.undispatched j id' hid' hold
    · obtain rfl := h.distinct j i _ phase id' hid' hi rfl hheld
      exact hpast (Option.some.inj (hi.symm.trans hid'))
  · rcases List.mem_append.mp hid' with hold | hnew
    · exact h.taken id' hold
    · rw [List.mem_singleton.mp hnew]
      exact h.held i phase id hi hheld
  · rw [List.nodup_append]
    refine ⟨h.once, List.nodup_singleton _, fun a ha b hb hab => ?_⟩
    rw [List.mem_singleton.mp hb] at hab
    exact hnew (hab ▸ ha)

theorem Sound.ask {x : ExecutionId} (h : w.Sound)
    (hi : w.workers[i]? = some (.turning id (.asked x)))
    (hcreated : CreatedFor w.db.assistant id x) (hnew : x ∉ w.asked)
    (hleft : ∀ e, w.db.assistant.getExecution x = some e → e.status ≠ .received) :
    Sound { w with asked := w.asked ++ [x] } := by
  obtain ⟨e, he, hrequest⟩ := hcreated
  have hother : ∀ (j : ℕ) id' stage, w.workers[j]? = some (.turning id' stage) →
      CreatedFor w.db.assistant id' x → stage = .asked x := by
    rintro j id' stage hj ⟨e', he', hrequest'⟩
    obtain rfl : e = e' := Option.some.inj (he.symm.trans he')
    obtain rfl : id = id' :=
      MeetingDb.meetingRequest_injective (Option.some.inj (hrequest.symm.trans hrequest'))
    obtain rfl := h.distinct i j _ _ id hi hj rfl rfl
    cases hi.symm.trans hj
    rfl
  have hasked : ∀ y, y ∉ w.asked → y ≠ x → y ∉ w.asked ++ [x] := by
    intro y hy hne
    rw [List.mem_append, List.mem_singleton, not_or]
    exact ⟨hy, hne⟩
  refine ⟨h.db, h.held, h.distinct, fun j id' stage hj => ?_, h.undispatched, h.taken, h.once,
    fun y hy => ?_, ?_⟩
  · have hok := h.turns j id' stage hj
    cases stage with
    | requested request => exact hok
    | received y =>
      refine ⟨hok.1, hasked y hok.2 ?_⟩
      rintro rfl
      cases hother j id' _ hj hok.1
    | contextualized y | decided y =>
      refine ⟨hok.1, hasked y hok.2.1 ?_, hok.2.2⟩
      rintro rfl
      cases hother j id' _ hj hok.1
    | asked y => trivial
  · rcases List.mem_append.mp hy with hy | hy
    · exact h.begun y hy
    · rw [List.mem_singleton.mp hy]
      exact ⟨e, he, hleft e he⟩
  · rw [List.nodup_append]
    refine ⟨h.askedOnce, List.nodup_singleton _, fun a ha b hb hab => ?_⟩
    rw [List.mem_singleton.mp hb] at hab
    exact hnew (hab ▸ ha)

end Phases

end WorkerWorld

theorem Db.advance_quiet {db db' : Db} {x : ExecutionId} {current target : ExecutionStatus}
    {eventType : String} {now : Instant}
    (h : db.advance x current target eventType now = .ok db') : Quiet db db' := by
  simp only [Db.advance, Db.getExecutionRequired, bind_eq_ok, require_eq_ok] at h
  obtain ⟨e, -, h⟩ := h
  split_ifs at h
  · simp only [bind_eq_ok, pure_eq_ok, Prod.exists] at h
    obtain ⟨moved, db₁, hmove, rfl⟩ := h
    exact transitionExecution_quiet hmove
  · cases h
    exact .refl _

/-- An execution that is moved on from its first status is in another one then. -/
theorem Db.advance_left {db db' : Db} {x : ExecutionId} {target : ExecutionStatus}
    {eventType : String} {now : Instant} (htarget : target ≠ .received)
    (h : db.advance x .received target eventType now = .ok db') {e : ExecutionRecord}
    (he : db'.getExecution x = some e) : e.status ≠ .received := by
  simp only [Db.advance, Db.getExecutionRequired, bind_eq_ok, require_eq_ok] at h
  obtain ⟨old, hold, h⟩ := h
  obtain rfl : old.id = x := Table.key_of_get hold
  split_ifs at h with hstatus
  · simp only [bind_eq_ok, pure_eq_ok, Prod.exists] at h
    obtain ⟨moved, db₁, hmove, rfl⟩ := h
    have hrow := Db.getExecution_transition hmove old.id
    rw [if_pos rfl] at hrow
    obtain rfl := Option.some.inj (he.symm.trans hrow)
    obtain ⟨_, -, -, -, _, rfl, -⟩ := Db.transitionExecution_eq_ok.mp hmove
    exact htarget
  · cases h
    obtain rfl := Option.some.inj (he.symm.trans hold)
    exact hstatus

namespace WorkerWorld

variable {cfg : WorkerConfig} {w w' : WorkerWorld} {a : WorkerAction}

/-- What is handed to the runtime is of the operation that was claimed. -/
theorem dispatch_cases {db : MeetingDb} (h : db.Sound) {id : OperationId} {now : Instant}
    {phase : DispatchPhase} (hdispatch : db.dispatch id now = .ok phase) :
    phase = .starting id ∨ ∃ request, phase = .turning id (.requested request) ∧
      request.clientRequestId = some s!"meeting:{id}" := by
  simp only [MeetingDb.dispatch, bind_eq_ok, require_eq_ok] at hdispatch
  obtain ⟨o, ho, scope, -, e, he, hdispatch⟩ := hdispatch
  split_ifs at hdispatch with hask
  · cases hdispatch
    obtain ⟨hx, hget⟩ := MeetingDb.executionOf_eq_some.mp he
    obtain ⟨e', he', hrequest⟩ := h.started o (Table.mem_of_get ho) (Or.inl hask) e.id hx
    obtain rfl := Option.some.inj (hget.symm.trans he')
    obtain rfl : o.id = id := Table.key_of_get ho
    exact Or.inr ⟨_, rfl, hrequest⟩
  · cases hdispatch
    exact Or.inl rfl

/-- One step of a fast turn keeps the tables, and what is known of the turn. -/
theorem turn_moved {stage : TurnStage} {next : Option TurnStage} {x : ExecutionId} {now : Instant}
    {assistant : Db} {i : ℕ} {id : OperationId} (hw : w.Sound)
    (hi : w.workers[i]? = some (.turning id stage))
    (h : stage.step x now w.db.assistant = .ok (next, assistant)) :
    Quiet w.db.assistant assistant ∧ ∀ stage', next = some stage' →
      TurnOk { w with db := { w.db with assistant } } id stage' := by
  have hok := hw.turns i id stage hi
  cases stage with
  | requested request =>
    simp only [TurnStage.step, bind_eq_ok, Prod.exists] at h
    obtain ⟨e, db, hcreate, h⟩ := h
    obtain ⟨hquiet, hget, hrequest⟩ := createExecution_quiet (fun _ => rfl) hcreate
    split_ifs at h with hreceived
    · cases h
      refine ⟨hquiet, fun stage' hstage' => ?_⟩
      cases hstage'
      refine ⟨⟨e, hget, hrequest.trans hok⟩, fun hasked => ?_⟩
      -- A fast turn whose model was asked has left its first status for good.
      obtain ⟨old, hold, hleft⟩ := hw.begun e.id hasked
      obtain ⟨e', he', hsame⟩ := hquiet.executions.kept e.id old hold
      obtain rfl := Option.some.inj (hget.symm.trans he')
      exact hsame.left hleft hreceived
    · cases h
      exact ⟨hquiet, fun stage' hstage' => by cases hstage'⟩
  | received y =>
    simp only [TurnStage.step, bind_eq_ok, pure_eq_ok, Prod.mk.injEq] at h
    obtain ⟨db, hadvance, rfl, rfl⟩ := h
    have hquiet := Db.advance_quiet hadvance
    refine ⟨hquiet, fun stage' hstage' => ?_⟩
    cases hstage'
    exact ⟨hok.1.kept hquiet.executions, hok.2, fun e he => Db.advance_left (by decide) hadvance he⟩
  | contextualized y =>
    simp only [TurnStage.step, bind_eq_ok, pure_eq_ok, Prod.mk.injEq] at h
    obtain ⟨db, hadvance, rfl, rfl⟩ := h
    have hquiet := Db.advance_quiet hadvance
    refine ⟨hquiet, fun stage' hstage' => ?_⟩
    cases hstage'
    obtain ⟨hcreated, hasked, hleft⟩ := hok
    refine ⟨hcreated.kept hquiet.executions, hasked, fun e' he' => ?_⟩
    obtain ⟨e, he, -⟩ := hcreated
    obtain ⟨row, hrow, hsame⟩ := hquiet.executions.kept y e he
    obtain rfl := Option.some.inj (he'.symm.trans hrow)
    exact hsame.left (hleft e he)
  | decided y =>
    cases h
    refine ⟨.refl _, fun stage' hstage' => ?_⟩
    cases hstage'
    trivial
  | asked y =>
    cases h
    refine ⟨.refl _, fun stage' hstage' => ?_⟩
    cases hstage'
    trivial

/-- What one step can do: the plugin's, a start or a stop, or a worker's. -/
inductive Takes (cfg : WorkerConfig) (w : WorkerWorld) : WorkerAction → WorkerWorld → Prop
  | plugin (p : PluginAction) (db : MeetingDb)
      (htrack : ∀ id status errorCode, p ≠ .track id status errorCode)
      (h : w.db.next cfg.executor cfg.host p = some db) :
      Takes cfg w (.plugin p) { w with db }
  | recovers (now : Instant) (db : MeetingDb) (hstopped : w.workers = [])
      (h : w.db.recover now = .ok db) :
      Takes cfg w (.start now none)
        { w with db, workers := List.replicate cfg.concurrency .idle, dispatched := [] }
  | stays (now : Instant) (raised : Option Raised) (h : raised ≠ none ∨ w.workers ≠ []) :
      Takes cfg w (.start now raised) w
  | stop : Takes cfg w .stop { w with workers := [] }
  | works (i : ℕ) (phase : DispatchPhase) (a : WorkerAction) (w' : WorkerWorld)
      (ha : a.worker? = some i) (hi : w.workers[i]? = some phase) (h : Advances w i phase a w') :
      Takes cfg w a w'

theorem next_takes (h : Steps cfg w a w') : Takes cfg w a w' := by
  unfold Steps next at h
  split at h
  · cases h
  · rename_i p htrack
    obtain ⟨db, hdb, rfl⟩ := Option.map_eq_some_iff.mp h
    exact .plugin p db htrack hdb
  · rename_i now
    obtain ⟨db, hrecover, -⟩ := recover_returns w.db now
    split_ifs at h with hstopped
    · rw [hrecover] at h
      cases h
      exact .recovers now db hstopped hrecover
    · cases h
      exact .stays _ _ (Or.inr hstopped)
  · cases h
    exact .stays _ _ (Or.inl (Option.some_ne_none _))
  · cases h
    exact .stop
  · simp only [Option.bind_eq_some_iff] at h
    obtain ⟨i, ha, phase, hi, h⟩ := h
    exact .works i phase _ _ ha hi (workerStep_advances h)

theorem sound_idle {n : ℕ} (hdb : w.db.Sound) (htaken : ∀ id ∈ w.dispatched, Taken w.db id)
    (honce : w.dispatched.Nodup)
    (hbegun : ∀ x ∈ w.asked, ∃ e, w.db.assistant.getExecution x = some e ∧ e.status ≠ .received)
    (hasked : w.asked.Nodup) : Sound { w with workers := List.replicate n .idle } := by
  have hidle : ∀ (i : ℕ) phase, (List.replicate n DispatchPhase.idle)[i]? = some phase →
      phase = .idle := by
    intro i phase hi
    rw [List.getElem?_replicate] at hi
    split_ifs at hi
    exact (Option.some.inj hi).symm
  refine ⟨hdb, fun i phase id hi hid => ?_, fun i j p q id hp hq hpid hqid => ?_,
    fun i id stage hi => ?_, fun i id hi => ?_, htaken, honce, hbegun, hasked⟩
  · rw [hidle i phase hi] at hid
    cases hid
  · rw [hidle i p hp] at hpid
    cases hpid
  · cases hidle i _ hi
  · cases hidle i _ hi

theorem Sound.advances {i : ℕ} {phase : DispatchPhase} (h : w.Sound)
    (hi : w.workers[i]? = some phase) (hadvance : Advances w i phase a w') : w'.Sound := by
  cases hadvance with
  | claims =>
    have hrefreshed := h.moved (Moved.refresh w.db)
    rcases w.db.claim_cases with ⟨hclaim, -⟩ | ⟨o, -, haccepted, -, hget, hclaim⟩
    · rw [hclaim]
      exact hrefreshed.keeps hi (Or.inl rfl) nofun nofun
    · rw [hclaim]
      have hfree : ∀ id, Taken w.db.refreshRunning id → id ≠ o.id := by
        rintro id ⟨row, hrow, hstatus⟩ rfl
        obtain rfl := Option.some.inj (hget.symm.trans hrow)
        exact hstatus haccepted
      let claimed : OperationRecord := { o with status := .running }
      have hold : w.db.refreshRunning.operations.get (Row.key claimed) = some o := hget
      have hset := hrefreshed.moved
        (Moved.restate hget o.errorCode (show OperationStatus.running ≠ .accepted by decide)
          (.refl _))
      refine hset.takes (fun id hid => ?_) nofun (fun id heq => ?_)
      · cases hid
        refine ⟨⟨claimed, Table.get_set_self hold ⟨rfl, Or.inr rfl⟩, nofun⟩, fun j q hq hqid => ?_⟩
        exact absurd rfl (hfree o.id (hrefreshed.held j q o.id hq hqid))
      · cases heq
        exact fun hdone => hfree o.id (hrefreshed.taken o.id hdone) rfl
  | waits => exact h
  | dies => exact h.keeps hi (Or.inl rfl) nofun nofun
  | dispatches id worker' now raised phase hphase =>
    have hnew := h.undispatched i id hi
    have hpast : phase.held = some id ∧ (∀ id', phase ≠ .claimed id') ∧
        ∀ id' stage, phase = .turning id' stage → w.TurnOk id' stage := by
      rcases hphase with hdispatch | ⟨cause, -, rfl⟩
      · rcases dispatch_cases h.db hdispatch with rfl | ⟨request, rfl, hrequest⟩
        · exact ⟨rfl, nofun, nofun⟩
        · refine ⟨rfl, nofun, fun id' stage heq => ?_⟩
          cases heq
          exact hrequest
      · exact ⟨rfl, nofun, nofun⟩
    obtain ⟨hheld, hclaimed, hturn⟩ := hpast
    have hset := h.keeps hi (Or.inr hheld) hturn hclaimed
    exact hset.dispatch (setWorker_self hi) hheld (hclaimed id) hnew
  | turns id stage worker' x now next assistant hstep =>
    obtain ⟨hquiet, hnext⟩ := turn_moved h hi hstep
    have hmoved := h.moved (Moved.of_tables (.refl Progressed.refl _) hquiet)
    have hheld : (next.elim (DispatchPhase.refreshing id) (.turning id)).held = some id := by
      cases next <;> rfl
    have hset := hmoved.keeps hi (Or.inr hheld)
      (fun id' stage' heq => by
        cases next with
        | none => cases heq
        | some stage =>
          cases heq
          exact hnext _ rfl)
      (fun id' heq => by cases next <;> cases heq)
    cases stage with
    | decided y =>
      cases hstep
      obtain ⟨hcreated, hnew, hleft⟩ := h.turns i id _ hi
      exact hset.ask (setWorker_self hi) hcreated hnew hleft
    | requested | received | contextualized | asked =>
      simp only [TurnStage.asks, List.append_nil]
      exact hset
  | returns phase id worker' hheld | raises phase id worker' raised hheld =>
    exact h.keeps hi (Or.inr hheld.symm) nofun nofun
  | refreshes =>
    exact (h.moved (Moved.refresh w.db)).keeps hi (Or.inl rfl) nofun nofun
  | misses =>
    exact h.keeps hi (Or.inr rfl) nofun nofun
  | stops id cause worker' now db hstop =>
    obtain ⟨o, ho, -⟩ := h.held i _ id hi rfl
    obtain rfl : o.id = id := Table.key_of_get ho
    obtain ⟨db', hreturns, hstopped⟩ := MeetingDb.stopOperation_returns ho cause now
    obtain rfl : db' = db := Except.ok.inj (hreturns.symm.trans hstop)
    exact (h.moved (Moved.stop ho hstopped)).keeps hi (Or.inl rfl) nofun nofun
  | gives => exact h.keeps hi (Or.inl rfl) nofun nofun

theorem Sound.step (h : w.Sound) (hstep : Steps cfg w a w') : w'.Sound := by
  cases next_takes hstep with
  | plugin p db htrack hnext =>
    exact h.moved (.of_kept (MeetingDb.stepped_of_next hnext).kept (next_operations htrack hnext))
  | recovers now db hstopped hrecover =>
    obtain ⟨db', hreturns, hrecovering, -⟩ := recover_returns w.db now
    obtain rfl : db' = db := Except.ok.inj (hreturns.symm.trans hrecover)
    have hkept := hrecovering.kept
    refine sound_idle (w := { w with db := db', dispatched := [] }) (h.db.kept hkept)
      (fun id hid => absurd hid List.not_mem_nil) List.nodup_nil (fun x hx => ?_) h.askedOnce
    obtain ⟨e, he, hstatus⟩ := h.begun x hx
    obtain ⟨e', he', hsame⟩ := hkept.executions.kept x e he
    exact ⟨e', he', hsame.left hstatus⟩
  | stays => exact h
  | stop => exact sound_idle (n := 0) h.db h.taken h.once h.begun h.askedOnce
  | works i phase a w' ha hi hadvance => exact h.advances hi hadvance

end WorkerWorld

/-- The action refreshes the statuses of operations. -/
def WorkerAction.Refreshes : WorkerAction → Prop
  | .claim _ _ | .refresh _ _ => True
  | _ => False

/-- The action starts the workers, or stops them. -/
def WorkerAction.Restarts : WorkerAction → Prop
  | .start _ _ | .stop => True
  | _ => False

namespace WorkerWorld

/-- What a step has to keep between operations, their executions and the workers. -/
structure Tracked (w : WorkerWorld) (a : WorkerAction) (w' : WorkerWorld) : Prop where
  /-- Since the start no operation was dispatched twice, and no model was ever asked twice. -/
  once : w'.dispatched.Nodup ∧ w'.asked.Nodup
  live : ¬ a.Restarts → w'.live = w.live
  followed : a.Refreshes → ∀ o o', w.db.operations.get o.id = some o →
    w'.db.operations.get o.id = some o' → o'.status ≠ o.status →
    o'.status = .completed ∨ o'.status = .failed →
    ∃ e, w.db.executionOf o = some e ∧ e.Settled ∧ o'.status = e.operationStatus
  stopped : ∀ i, a.worker? = some i → ∀ x e e', w.db.assistant.getExecution x = some e →
    w'.db.assistant.getExecution x = some e' → e'.status ≠ e.status →
    e'.status = .failed ∨ e'.status = .cancelled → ∃ id cause o,
      w.workers[i]? = some (.stopping id cause) ∧ cause ≠ .refreshFailed ∧
        w.db.operations.get id = some o ∧ o.executionId = some x
  recovered : ∀ now, a = .start now none → w.workers = [] → ∀ o ∈ w.db.operations.rows,
    o.status = .running →
    ∃ o', w'.db.operations.get o.id = some o' ∧ RecoveredAs w.db o o'.status
  /-- What is accepted waits until a worker claims it; -/
  waiting : ∀ o ∈ w.db.operations.rows, o.status = .accepted →
    w'.db.operations.get o.id = some o ∨
      ∃ i, a = .claim i none ∧ w'.workers[i]? = some (.claimed o.id)
  /-- and the oldest is claimed first. -/
  claims : ∀ i, a = .claim i none → ∀ o ∈ w.db.operations.rows, o.status = .accepted →
    ∃ first ∈ w.db.operations.rows, first.status = .accepted ∧
      toLex (first.createdAt, first.id) ≤ toLex (o.createdAt, o.id) ∧
      w'.workers[i]? = some (.claimed first.id)

/-- A worker is about to fail an execution that runs, because a refresh failed. -/
def StopsRunning (w : WorkerWorld) : DispatchPhase → Prop
  | .stopping id .refreshFailed => ∃ e ∈ (w.db.operations.get id).bind w.db.executionOf,
      isTerminalExecutionStatus e.profile e.status = false
  | _ => False

instance (w : WorkerWorld) (phase : DispatchPhase) : Decidable (w.StopsRunning phase) := by
  unfold StopsRunning
  split <;> infer_instance

/-- No claim raises but for want of the database, and the stop of an operation does not raise,
nor stop an execution that runs because a refresh failed. -/
def Clean (w : WorkerWorld) : WorkerAction → Prop
  | .claim _ raised => raised = none ∨ raised = some .operational
  | .fail i _ raised => raised = none ∧ ∀ phase ∈ w.workers[i]?, ¬ w.StopsRunning phase
  | _ => True

instance (w : WorkerWorld) (a : WorkerAction) : Decidable (w.Clean a) := by
  unfold Clean
  split <;> infer_instance

section Live

variable {w : WorkerWorld} {i : ℕ} {phase phase' : DispatchPhase}

theorem live_setWorker (hi : w.workers[i]? = some phase) (halive : phase.Alive ↔ phase'.Alive) :
    (w.setWorker i phase').live = w.live := by
  have hcount := countP_set (p := fun phase : DispatchPhase => decide phase.Alive) hi phase'
  simp only [decide_eq_true_eq, halive] at hcount
  exact Nat.add_right_cancel hcount

theorem live_dead (hi : w.workers[i]? = some phase) (halive : phase.Alive) :
    (w.setWorker i .dead).live + 1 = w.live := by
  have hcount := countP_set (p := fun phase : DispatchPhase => decide phase.Alive) hi .dead
  have hdead : ¬ DispatchPhase.dead.Alive := id
  simp only [halive, hdead, decide_true, decide_false, if_true, Bool.false_eq_true, if_false,
    Nat.add_zero] at hcount
  exact hcount

end Live

/-- A claim refreshes the running operations, and takes an accepted one over. -/
theorem claim_refreshed {db : MeetingDb} {o o' : OperationRecord}
    (ho : db.operations.get o.id = some o) (ho' : db.claim.2.operations.get o.id = some o') :
    db.Refreshed o o' ∨ o'.status = .running := by
  obtain ⟨row, hrow, hrefreshed⟩ := db.refreshRunning_evolves.1.kept o.id o ho
  rcases db.claim_cases with ⟨hclaim, -⟩ | ⟨first, -, -, -, hget, hclaim⟩
  · rw [hclaim] at ho'
    obtain rfl := Option.some.inj (hrow.symm.trans ho')
    exact Or.inl hrefreshed
  · rw [hclaim] at ho'
    let claimed : OperationRecord := { first with status := .running }
    have hold : db.refreshRunning.operations.get (Row.key claimed) = some first := hget
    have hset := Table.get_set (r := claimed) hold ⟨rfl, Or.inr rfl⟩ o.id
    rw [MeetingDb.setOperation, hset] at ho'
    split_ifs at ho'
    · rw [← Option.some.inj ho']
      exact Or.inr rfl
    · obtain rfl := Option.some.inj (hrow.symm.trans ho')
      exact Or.inl hrefreshed

theorem refreshRunning_assistant (db : MeetingDb) : db.refreshRunning.assistant = db.assistant := by
  rw [db.refreshRunning_evolves.2]

theorem claim_assistant (db : MeetingDb) : db.claim.2.assistant = db.assistant := by
  rcases db.claim_cases with ⟨hclaim, -⟩ | ⟨first, -, -, -, -, hclaim⟩ <;> rw [hclaim]
  · exact refreshRunning_assistant db
  · exact refreshRunning_assistant db

end WorkerWorld

/-- Moving an execution on gives it the status it is moved to, and no other execution any. -/
theorem Db.advance_status {db db' : Db} {x y : ExecutionId} {current target : ExecutionStatus}
    {eventType : String} {now : Instant} {e e' : ExecutionRecord}
    (h : db.advance x current target eventType now = .ok db') (he : db.getExecution y = some e)
    (he' : db'.getExecution y = some e') (hne : e'.status ≠ e.status) : e'.status = target := by
  simp only [Db.advance, Db.getExecutionRequired, bind_eq_ok, require_eq_ok] at h
  obtain ⟨old, -, h⟩ := h
  split_ifs at h
  · simp only [bind_eq_ok, pure_eq_ok, Prod.exists] at h
    obtain ⟨moved, db₁, hmove, rfl⟩ := h
    have hrow := Db.getExecution_transition hmove y
    rw [he'] at hrow
    split_ifs at hrow
    · obtain ⟨_, -, -, -, _, hmoved, -⟩ := Db.transitionExecution_eq_ok.mp hmove
      rw [Option.some.inj hrow, hmoved]
      rfl
    · rw [Option.some.inj (hrow.trans he)] at hne
      exact absurd rfl hne
  · cases h
    rw [Option.some.inj (he'.symm.trans he)] at hne
    exact absurd rfl hne

/-- A new execution, or one that is found, changes none that is there. -/
theorem Db.createExecution_others {db db' : Db} {sessionId : SessionId} {profile : ExecutionProfile}
    {goal : String} {request : Option String} {parent : Option ExecutionId}
    {snapshotId : Option SnapshotId} {grantId : Option GrantId} {id y : ExecutionId}
    {createdAt : Instant} {record e : ExecutionRecord}
    (h : db.createExecution sessionId profile goal request parent snapshotId grantId id
      createdAt = .ok (record, db')) (he : db.getExecution y = some e) :
    db'.getExecution y = some e := by
  unfold Db.createExecution at h
  simp only [bind_eq_ok] at h
  obtain ⟨_, -, h⟩ := h
  split at h
  · cases h
    exact he
  · simp only [bind_eq_ok, require_eq_ok, pure_eq_ok, Prod.mk.injEq] at h
    obtain ⟨root, -, executions, hinsert, -, rfl⟩ := h
    refine (Table.get_insert hinsert y).trans ?_
    split_ifs with hy
    · have hnone := Table.get_none_of_insert hinsert
      rw [← hy] at hnone
      cases he.symm.trans hnone
    · exact he

theorem TurnStage.step_status {stage : TurnStage} {x y : ExecutionId} {now : Instant} {db db' : Db}
    {next : Option TurnStage} {e e' : ExecutionRecord}
    (h : stage.step x now db = .ok (next, db')) (he : db.getExecution y = some e)
    (he' : db'.getExecution y = some e') (hne : e'.status ≠ e.status) :
    e'.status = .contextualizing ∨ e'.status = .deciding := by
  have hsame : db'.getExecution y = some e → e'.status = .contextualizing ∨
    e'.status = .deciding := by
    intro hget
    rw [Option.some.inj (he'.symm.trans hget)] at hne
    exact absurd rfl hne
  cases stage with
  | requested request =>
    simp only [TurnStage.step, bind_eq_ok, Prod.exists] at h
    obtain ⟨created, db₁, hcreate, h⟩ := h
    split_ifs at h
    · cases h
      exact hsame (Db.createExecution_others hcreate he)
    · cases h
      exact hsame (Db.createExecution_others hcreate he)
  | received z =>
    simp only [TurnStage.step, bind_eq_ok, pure_eq_ok, Prod.mk.injEq] at h
    obtain ⟨db₁, hadvance, -, rfl⟩ := h
    exact Or.inl (Db.advance_status hadvance he he' hne)
  | contextualized z =>
    simp only [TurnStage.step, bind_eq_ok, pure_eq_ok, Prod.mk.injEq] at h
    obtain ⟨db₁, hadvance, -, rfl⟩ := h
    exact Or.inr (Db.advance_status hadvance he he' hne)
  | decided z | asked z =>
    cases h
    exact hsame he

namespace WorkerWorld

section Step

variable {cfg : WorkerConfig} {w w' : WorkerWorld} {a : WorkerAction}

theorem Sound.stopped_of (h : w.Sound) {i : ℕ} {id : OperationId} {cause : StopCause}
    (hi : w.workers[i]? = some (.stopping id cause)) {now : Instant} {db : MeetingDb}
    (hstop : w.db.stopOperation id cause now = .ok db) :
    ∃ o, w.db.operations.get id = some o ∧ o.status ≠ .accepted ∧
      MeetingDb.Stopped w.db o cause db := by
  obtain ⟨o, ho, hstatus⟩ := h.held i _ id hi rfl
  obtain ⟨db', hreturns, hstopped⟩ := MeetingDb.stopOperation_returns ho cause now
  obtain rfl : db' = db := Except.ok.inj (hreturns.symm.trans hstop)
  exact ⟨o, ho, hstatus, hstopped⟩

theorem Sound.live_step (h : w.Sound) (hstep : Steps cfg w a w') (hclean : w.Clean a)
    (ha : ¬ a.Restarts) :
    w'.live = w.live := by
  cases next_takes hstep with
  | plugin => rfl
  | recovers | stays | stop => exact absurd trivial ha
  | works i phase a w' hworker hi hadvance =>
    cases hadvance with
    | claims =>
      have halive : DispatchPhase.Alive .idle ↔
        (w.db.claim.1.elim DispatchPhase.idle .claimed).Alive := by
        cases w.db.claim.1 <;> exact Iff.rfl
      exact live_setWorker (w := { w with db := w.db.claim.2 }) hi halive
    | waits => rfl
    | dies worker' raised hraised =>
      rcases hclean with hnone | hsome
      · cases hnone
      · exact absurd (Option.some.inj hsome) hraised
    | dispatches id worker' now raised phase hphase =>
      have halive : (DispatchPhase.claimed id).Alive ↔ phase.Alive := by
        rcases hphase with hdispatch | ⟨cause, -, rfl⟩
        · simp only [MeetingDb.dispatch, bind_eq_ok, require_eq_ok] at hdispatch
          obtain ⟨o, -, scope, -, e, -, hdispatch⟩ := hdispatch
          split_ifs at hdispatch <;> cases hdispatch <;> exact Iff.rfl
        · exact Iff.rfl
      exact live_setWorker (w := { w with dispatched := w.dispatched ++ [id] }) hi halive
    | turns id stage worker' x now next assistant =>
      have halive : (DispatchPhase.turning id stage).Alive ↔
          (next.elim (DispatchPhase.refreshing id) (.turning id)).Alive := by
        cases next <;> exact Iff.rfl
      exact live_setWorker (w := { w with
        db := { w.db with assistant }, asked := w.asked ++ stage.asks }) hi halive
    | returns phase id worker' hheld | raises phase id worker' raised hheld =>
      refine live_setWorker hi ?_
      cases phase <;> first | exact Iff.rfl | cases hheld
    | refreshes => exact live_setWorker (w := { w with db := w.db.refreshRunning }) hi Iff.rfl
    | misses => exact live_setWorker hi Iff.rfl
    | stops id cause worker' now db => exact live_setWorker (w := { w with db }) hi Iff.rfl
    | gives id cause worker' now raised hraised =>
      rcases hraised with hsome | ⟨e, herror⟩
      · exact absurd hclean.1 hsome
      · obtain ⟨o, ho, -⟩ := h.held i _ id hi rfl
        obtain ⟨db, hreturns, -⟩ := MeetingDb.stopOperation_returns ho cause now
        cases hreturns.symm.trans herror

theorem followed_step (hstep : Steps cfg w a w') (ha : a.Refreshes) {o o' : OperationRecord}
    (ho : w.db.operations.get o.id = some o) (ho' : w'.db.operations.get o.id = some o')
    (hne : o'.status ≠ o.status) (hended : o'.status = .completed ∨ o'.status = .failed) :
    ∃ e, w.db.executionOf o = some e ∧ e.Settled ∧ o'.status = e.operationStatus := by
  have hsame : o' = o → ∃ e, w.db.executionOf o = some e ∧ e.Settled ∧
      o'.status = e.operationStatus := fun heq => absurd (congrArg OperationRecord.status heq) hne
  have hrefreshed : w.db.Refreshed o o' → ∃ e, w.db.executionOf o = some e ∧ e.Settled ∧
      o'.status = e.operationStatus := by
    rintro (heq | ⟨-, e, he, hsettled, heq⟩)
    · exact hsame heq
    · exact ⟨e, he, hsettled, by rw [heq]⟩
  cases next_takes hstep with
  | plugin | recovers | stays | stop => exact absurd ha id
  | works i phase a w' hworker hi hadvance =>
    cases hadvance with
    | claims =>
      rcases claim_refreshed ho ho' with hkept | hrunning
      · exact hrefreshed hkept
      · rw [hrunning] at hended
        rcases hended with hended | hended <;> cases hended
    | refreshes =>
      obtain ⟨row, hrow, hkept⟩ := w.db.refreshRunning_evolves.1.kept o.id o ho
      obtain rfl := Option.some.inj (ho'.symm.trans hrow)
      exact hrefreshed hkept
    | waits | dies | misses => exact hsame (Option.some.inj (ho'.symm.trans ho))
    | dispatches | turns | returns | raises | stops | gives => exact absurd ha id

theorem Sound.stopped_step (h : w.Sound) (hstep : Steps cfg w a w') (hclean : w.Clean a) {i : ℕ}
    (hworker : a.worker? = some i) {x : ExecutionId} {e e' : ExecutionRecord}
    (he : w.db.assistant.getExecution x = some e) (he' : w'.db.assistant.getExecution x = some e')
    (hne : e'.status ≠ e.status) (hended : e'.status = .failed ∨ e'.status = .cancelled) :
    ∃ id cause o, w.workers[i]? = some (.stopping id cause) ∧ cause ≠ .refreshFailed ∧
      w.db.operations.get id = some o ∧ o.executionId = some x := by
  have hsame : w'.db.assistant = w.db.assistant → ∃ id cause o,
      w.workers[i]? = some (.stopping id cause) ∧ cause ≠ .refreshFailed ∧
        w.db.operations.get id = some o ∧ o.executionId = some x := by
    intro heq
    rw [heq, he] at he'
    rw [Option.some.inj he'] at hne
    exact absurd rfl hne
  cases next_takes hstep with
  | plugin | recovers | stays | stop => cases hworker
  | works j phase a w' ha hj hadvance =>
    obtain rfl : i = j := Option.some.inj (hworker.symm.trans ha)
    cases hadvance with
    | claims => exact hsame (claim_assistant w.db)
    | turns id stage worker' y now next assistant hturn =>
      have hmoved := TurnStage.step_status hturn he he' hne
      rcases hmoved with hmoved | hmoved <;> rw [hmoved] at hended <;>
        rcases hended with hended | hended <;> cases hended
    | refreshes => exact hsame (refreshRunning_assistant w.db)
    | stops id cause worker' now db hstop =>
      obtain rfl : worker' = i := Option.some.inj ha
      obtain ⟨o, ho, -, hstopped⟩ := h.stopped_of hj hstop
      by_cases hx : o.executionId = some x
      · refine ⟨id, cause, o, hj, ?_, ho, hx⟩
        rintro rfl
        -- The execution of an operation whose refresh failed is over, and stays what it is.
        have hover : ∀ e, w.db.executionOf o = some e →
            isTerminalExecutionStatus e.profile e.status = true := by
          intro e he
          cases hopen : isTerminalExecutionStatus e.profile e.status with
          | true => rfl
          | false =>
            refine absurd ⟨e, ?_, hopen⟩ (hclean.2 (.stopping id .refreshFailed) hj)
            rw [ho]
            exact he
        have hget : db.assistant.getExecution x = some e' := he'
        rw [hstopped.ended hover, he] at hget
        rw [Option.some.inj hget] at hne
        exact hne rfl
      · have hget : db.assistant.getExecution x = some e' := he'
        rw [hstopped.others x hx, he] at hget
        rw [Option.some.inj hget] at hne
        exact absurd rfl hne
    | waits | dies | dispatches | returns | raises | misses | gives => exact hsame rfl

theorem recovered_step {now : Instant} (hstep : Steps cfg w (.start now none) w')
    (hworkers : w.workers = []) {o : OperationRecord} (ho : o ∈ w.db.operations.rows)
    (hrunning : o.status = .running) :
    ∃ o', w'.db.operations.get o.id = some o' ∧ RecoveredAs w.db o o'.status := by
  cases next_takes hstep with
  | recovers now db hstopped hrecover =>
    obtain ⟨db', hreturns, -, hall⟩ := recover_returns w.db now
    obtain rfl : db' = db := Except.ok.inj (hreturns.symm.trans hrecover)
    exact hall o (MeetingDb.mem_running.mpr ⟨ho, hrunning⟩)
  | stays now raised hstays =>
    rcases hstays with hsome | hsome
    · exact absurd rfl hsome
    · exact absurd hworkers hsome
  | works i phase a w' ha => cases ha

theorem Sound.waiting_step (h : w.Sound) (hstep : Steps cfg w a w') {o : OperationRecord}
    (ho : o ∈ w.db.operations.rows) (haccepted : o.status = .accepted) :
    w'.db.operations.get o.id = some o ∨
      ∃ i, a = .claim i none ∧ w'.workers[i]? = some (.claimed o.id) := by
  have hget : w.db.operations.get o.id = some o := Table.get_of_mem ho
  cases next_takes hstep with
  | plugin p db htrack hnext =>
    obtain ⟨o', ho', rfl⟩ := (next_operations htrack hnext).kept o.id o hget
    exact Or.inl ho'
  | recovers now db hstopped hrecover =>
    obtain ⟨db', hreturns, hrecovering, -⟩ := recover_returns w.db now
    obtain rfl : db' = db := Except.ok.inj (hreturns.symm.trans hrecover)
    obtain ⟨o', ho', rfl | ⟨hrunning, -⟩⟩ := hrecovering.operations.kept o.id o hget
    · exact Or.inl ho'
    · rw [haccepted] at hrunning
      cases hrunning
  | stays | stop => exact Or.inl hget
  | works i phase a w' ha hi hadvance =>
    have hrefreshed : w.db.refreshRunning.operations.get o.id = some o :=
      Table.get_of_mem ((MeetingDb.accepted_refreshRunning haccepted).mpr ho)
    cases hadvance with
    | claims worker' =>
      obtain rfl : worker' = i := Option.some.inj ha
      rcases w.db.claim_cases with ⟨-, hnone⟩ | ⟨first, -, -, -, hfirst, hclaim⟩
      · exact absurd haccepted (hnone o ho)
      · rw [hclaim]
        by_cases hid : o.id = first.id
        · rw [hid]
          exact Or.inr ⟨worker', rfl, setWorker_self hi⟩
        · exact Or.inl ((Table.get_set_ne hid).trans hrefreshed)
    | refreshes => exact Or.inl hrefreshed
    | stops id cause worker' now db hstop =>
      obtain ⟨row, hrow, hstatus, hstopped⟩ := h.stopped_of hi hstop
      obtain rfl : row.id = id := Table.key_of_get hrow
      have hne : o.id ≠ row.id := by
        intro heq
        rw [heq] at hget
        obtain rfl := Option.some.inj (hget.symm.trans hrow)
        exact hstatus haccepted
      have hkept : db.operations.get o.id = some o := by
        rw [hstopped.operations]
        exact (Table.get_set_ne hne).trans hget
      exact Or.inl hkept
    | waits | dies | dispatches | turns | returns | raises | misses | gives => exact Or.inl hget

theorem claims_step {i : ℕ} (hstep : Steps cfg w (.claim i none) w') {o : OperationRecord}
    (ho : o ∈ w.db.operations.rows) (haccepted : o.status = .accepted) :
    ∃ first ∈ w.db.operations.rows, first.status = .accepted ∧
      toLex (first.createdAt, first.id) ≤ toLex (o.createdAt, o.id) ∧
      w'.workers[i]? = some (.claimed first.id) := by
  cases next_takes hstep with
  | works j phase a w' ha hi hadvance =>
    obtain rfl : i = j := Option.some.inj ha
    cases hadvance with
    | claims =>
      rcases w.db.claim_cases with ⟨-, hnone⟩ | ⟨first, hmem, hstatus, holdest, -, hclaim⟩
      · exact absurd haccepted (hnone o ho)
      · rw [hclaim]
        exact ⟨first, hmem, hstatus, holdest o ho haccepted, setWorker_self hi⟩

theorem Sound.tracked (h : w.Sound) (hstep : Steps cfg w a w') (hclean : w.Clean a) :
    Tracked w a w' where
  once := ⟨(h.step hstep).once, (h.step hstep).askedOnce⟩
  live := h.live_step hstep hclean
  followed ha _ _ ho ho' hne hended := followed_step hstep ha ho ho' hne hended
  stopped _ hi _ _ _ he he' hne hended := h.stopped_step hstep hclean hi he he' hne hended
  recovered now ha hworkers _ ho hrunning := by
    rw [ha] at hstep
    exact recovered_step hstep hworkers ho hrunning
  waiting _ ho haccepted := h.waiting_step hstep ho haccepted
  claims i ha _ ho haccepted := by
    rw [ha] at hstep
    exact claims_step hstep ho haccepted

theorem Sound.clean (h : w.Sound) (hstep : Steps cfg w a w') (htracked : Tracked w a w') :
    w.Clean a := by
  have hlost : ∀ (i : ℕ) phase, w.workers[i]? = some phase → phase.Alive → ¬ a.Restarts →
      w' ≠ w.setWorker i .dead := by
    rintro i phase hi halive ha rfl
    have hlive := htracked.live ha
    have hdead := live_dead hi halive
    omega
  cases next_takes hstep with
  | plugin | recovers | stays | stop => exact trivial
  | works i phase a w' ha hi hadvance =>
    cases hadvance with
    | claims => exact Or.inl rfl
    | waits => exact Or.inr rfl
    | dies worker' raised hraised => exact absurd rfl (hlost i .idle hi trivial id)
    | stops id cause worker' now db hstop =>
      obtain rfl : worker' = i := Option.some.inj ha
      refine ⟨rfl, fun phase hphase hruns => ?_⟩
      obtain rfl := Option.some.inj (hi.symm.trans hphase)
      obtain ⟨o, ho, -, hstopped⟩ := h.stopped_of hi hstop
      cases cause with
      | denied | startFailed => exact hruns
      | refreshFailed =>
        obtain ⟨e, he, hopen⟩ := hruns
        rw [ho] at he
        obtain ⟨hx, hget⟩ := MeetingDb.executionOf_eq_some.mp he
        obtain ⟨e', he', hfailed⟩ := hstopped.moved e he hopen
        have hne : e'.status ≠ e.status := by
          intro heq
          rw [← heq, hfailed] at hopen
          revert hopen
          cases e.profile <;> decide
        obtain ⟨id', cause', o', hphase', hcause, -⟩ :=
          htracked.stopped worker' rfl e.id e e' hget he' hne (Or.inl hfailed)
        cases hi.symm.trans hphase'
        exact hcause rfl
    | gives => exact absurd rfl (hlost i _ hi trivial id)
    | dispatches | turns | returns | raises | refreshes | misses => exact trivial

end Step

/-- Before the workers' first start. -/
structure Fresh (w : WorkerWorld) : Prop where
  db : w.db.Sound
  workers : w.workers = []
  dispatched : w.dispatched = []
  asked : w.asked = []

theorem Fresh.sound {w : WorkerWorld} (h : w.Fresh) : w.Sound := by
  obtain ⟨db, workers, dispatched, asked⟩ := w
  obtain ⟨hdb, rfl, rfl, rfl⟩ := h
  exact sound_idle (n := 0) hdb (fun _ hid => absurd hid List.not_mem_nil) List.nodup_nil
    (fun _ hx => absurd hx List.not_mem_nil) List.nodup_nil

/-- The steps that keep operations, executions and workers together. -/
def TrackedSteps (cfg : WorkerConfig) (w : WorkerWorld) (a : WorkerAction) (w' : WorkerWorld) :
    Prop :=
  Steps cfg w a w' ∧ Tracked w a w'

/-- The operations track their executions over a run, whatever is interleaved and raised, where
every step of it is clean, and over no other run. -/
theorem operations_tracked {cfg : WorkerConfig} {w w' : WorkerWorld} {as : List WorkerAction}
    (hfresh : w.Fresh) :
    Run (TrackedSteps cfg) w as w' ↔ Run (Under Clean (Steps cfg)) w as w' := by
  refine Run.congr (I := WorkerWorld.Sound) (fun s a t hs h => hs.step h.1) (fun s a t hs => ?_)
    hfresh.sound
  constructor
  · rintro ⟨hstep, htracked⟩
    exact ⟨hs.clean hstep htracked, hstep⟩
  · rintro ⟨hclean, hstep⟩
    exact ⟨hstep, hs.tracked hstep hclean⟩

end WorkerWorld

section Example

theorem executionScope_bounded :
    HostActionScope.Bounded .execute .plugin none (some "local-demo-team")
      [("candidate-1", 1)] 1 := by
  constructor <;> simp

/-- A confirmed execution. -/
def executionScope : HostActionScope where
  pluginId := meetingPluginId
  pluginVersion := "1.0.0"
  mediaSessionId := 1
  legacySessionId := 1
  actorId := "local-user"
  authorityEpoch := 0
  action := .execute
  payloadHash := 0
  candidateRevisions := [("candidate-1", 1)]
  teamId := some "local-demo-team"
  maxSideEffects := 1
  capabilityGrantId := some 1
  bounded := executionScope_bounded

/-- It is admitted, and waits for a worker. -/
def admittedMeeting : MeetingDb where
  assistant := { executions := (Table.empty.insert
    { id := 1, sessionId := 1, profile := .actionRun, rootExecutionId := 1
      clientRequestId := some "meeting:1", goal := "file the task", status := .queued
      createdAt := 1, statusDeclared := initialExecutionStatus_declared .actionRun }).getD .empty }
  sessions := (Table.empty.insert questionSession).getD .empty
  intents := (Table.empty.insert
    { id := 1, tokenHash := 11, scope := executionScope, status := .consumed, createdAt := 1
      expiresAt := 900, consumedAt := some 1 }).getD .empty
  operations := (Table.empty.insert
    { id := 1, pluginId := meetingPluginId, pluginVersion := "1.0.0", mediaSessionId := 1
      legacySessionId := 1, authorityEpoch := 0, intentId := some 1, executionId := some 1
      clientRequestId := "request-1", action := .execute
      requestPayload := .execute "file the task" [] ["candidate-1"]
      createdAt := 1 }).getD .empty
  capabilityGrants := (Table.empty.insert
    { id := 1, pluginId := meetingPluginId, pluginVersion := "1.0.0", mediaSessionId := 1
      capability := executionScope.action.capability, effect := executionScope.action.effect
      scope := capabilityGrantScope executionScope, expiresAt := 900 }).getD .empty
  host := permittingHost

def admittedWorld : WorkerWorld where
  db := admittedMeeting

def oneWorker : WorkerConfig := ⟨fileTaskConfig, plainHostConfig, 1⟩

theorem admittedWorld_fresh : admittedWorld.Fresh := by
  refine ⟨⟨fun id e he => ?_, fun o ho hstarts x hx => ?_⟩, rfl, rfl, rfl⟩
  · obtain rfl := List.mem_singleton.mp (Table.mem_of_get he)
    exact fun _ => rfl
  · obtain rfl := List.mem_singleton.mp ho
    cases hx
    exact ⟨_, rfl, rfl⟩

/-- The operation is claimed, dispatched and refreshed. -/
def dispatchTrace : List WorkerAction :=
  [.start 2 none, .claim 0 none, .dispatch 0 3 none, .returned 0, .refresh 0 false]

/-- The workers after that. -/
def dispatchedWorld : WorkerWorld :=
  (follow (guarded WorkerWorld.Clean (WorkerWorld.next · oneWorker)) dispatchTrace
    admittedWorld).get (by decide)

theorem dispatchedWorld_tracked :
    Run (WorkerWorld.TrackedSteps oneWorker) admittedWorld dispatchTrace dispatchedWorld :=
  (WorkerWorld.operations_tracked admittedWorld_fresh).mpr
    (run_under_to_get WorkerWorld.Clean (WorkerWorld.next · oneWorker) _ _ (by decide))

/-- The refresh after the dispatch raises instead, while the execution runs. -/
def missedWorld : WorkerWorld :=
  (follow (WorkerWorld.next · oneWorker)
    [.start 2 none, .claim 0 none, .dispatch 0 3 none, .returned 0, .refresh 0 true]
    admittedWorld).get (by decide)

/-- The worker then fails the execution, which nothing had stopped. -/
theorem missedRefresh_untracked : ∃ w w' as a, admittedWorld.Fresh ∧
    Run (WorkerWorld.Steps oneWorker) admittedWorld as w ∧ WorkerWorld.Steps oneWorker w a w' ∧
      (w.db.assistant.getExecution 1).map ExecutionRecord.status = some .queued ∧
      (w'.db.assistant.getExecution 1).map ExecutionRecord.status = some .failed ∧
      ¬ WorkerWorld.Tracked w a w' := by
  refine ⟨missedWorld, _, _, .fail 0 4 none, admittedWorld_fresh,
    run_to_get (WorkerWorld.next · oneWorker) _ _ (by decide), rfl, rfl, rfl, fun htracked => ?_⟩
  obtain ⟨id, cause, o, hphase, hcause, -⟩ :=
    htracked.stopped 0 rfl 1 _ _ rfl rfl (by decide) (Or.inl rfl)
  cases hphase
  exact hcause rfl

end Example

end Assistant
end Matinier
