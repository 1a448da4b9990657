import Matinier.Foundation.Machine
import Matinier.Assistant.Repository.Executions

/-!
# Histories of executions

Any number of callers read an execution and later write a transition of it.
What they read may be stale by then. The machine below interleaves the two
halves of their calls in every order and records each transition that commits.
A call that names the status its execution is already in passes the table as a
transition in place; the strict laws hold of the runs without such calls.
-/

namespace Matinier
namespace Assistant

/-- A caller between its read and its write. -/
structure PendingTransition where
  record : ExecutionRecord
  request : TransitionRequest

/-- A transition that committed: the row it found and the row it wrote. -/
structure CommittedTransition where
  before : ExecutionRecord
  request : TransitionRequest
  after : ExecutionRecord

/-- The database, the callers under way and what they have committed so far. -/
structure Callers where
  db : Db
  pending : List PendingTransition := []
  history : List CommittedTransition := []

inductive CallerAction where
  | read (id : ExecutionId) (request : TransitionRequest)
  | write (caller : ℕ)
  | appendStep (executionId : ExecutionId) (kind : StepKind) (id : StepId)

namespace Callers

/-- One half of a call, or a step appended to an execution. -/
def next (w : Callers) : CallerAction → Option Callers
  | .read id request =>
    (w.db.getExecution id).map fun record => { w with pending := w.pending ++ [⟨record, request⟩] }
  | .write caller => do
    let p ← w.pending[caller]?
    let row ← w.db.getExecution p.record.id
    match w.db.transitionExecutionFrom p.record p.request with
    | .ok (after, db) =>
      return { db, pending := w.pending.eraseIdx caller
               history := w.history ++ [⟨row, p.request, after⟩] }
    | .error _ => return { w with pending := w.pending.eraseIdx caller }
  | .appendStep executionId kind id =>
    match w.db.appendStep executionId kind none none id with
    | .ok (_, db) => some { w with db }
    | .error _ => some w

/-- The call about to be written names another status than the one it will find, where it
carries the version that it will find. -/
def NamesAnotherStatus (w : Callers) : CallerAction → Prop
  | .write caller => ∀ p ∈ w.pending[caller]?, ∀ row ∈ w.db.getExecution p.record.id,
      row.stateVersion = p.request.expectedVersion → row.status ≠ p.request.targetStatus
  | _ => True

abbrev Steps : Callers → CallerAction → Callers → Prop := fun w a w' => w.next a = some w'

theorem next_cases {w w' : Callers} {a : CallerAction} (h : w.next a = some w') :
    (w'.history = w.history ∧
      ∀ id row, w.db.getExecution id = some row →
        ∃ count, w'.db.getExecution id = some { row with stepCount := count }) ∨
    ∃ (caller : ℕ) (p : PendingTransition) (row after : ExecutionRecord),
      a = .write caller ∧ w.pending[caller]? = some p ∧
      w.db.getExecution p.record.id = some row ∧
      w.db.transitionExecutionFrom p.record p.request = .ok (after, w'.db) ∧
      w'.history = w.history ++ [⟨row, p.request, after⟩] := by
  cases a with
  | read id request =>
    obtain ⟨record, -, rfl⟩ := Option.map_eq_some_iff.mp h
    exact Or.inl ⟨rfl, fun id row hrow => ⟨row.stepCount, hrow⟩⟩
  | write caller =>
    simp only [next, Option.bind_eq_bind, Option.bind_eq_some_iff] at h
    obtain ⟨p, hp, row, hrow, hwrite⟩ := h
    cases hcall : w.db.transitionExecutionFrom p.record p.request with
    | ok result =>
      obtain ⟨after, db⟩ := result
      simp only [hcall, pure, Option.some.injEq] at hwrite
      subst hwrite
      exact Or.inr ⟨caller, p, row, after, rfl, hp, hrow, hcall, rfl⟩
    | error e =>
      simp only [hcall, pure, Option.some.injEq] at hwrite
      subst hwrite
      exact Or.inl ⟨rfl, fun id row hrow => ⟨row.stepCount, hrow⟩⟩
  | appendStep executionId kind id =>
    simp only [next] at h
    cases hcall : w.db.appendStep executionId kind none none id with
    | error e =>
      simp only [hcall, Option.some.injEq] at h
      subst h
      exact Or.inl ⟨rfl, fun id row hrow => ⟨row.stepCount, hrow⟩⟩
    | ok result =>
      obtain ⟨record, db⟩ := result
      simp only [hcall, Option.some.injEq] at h
      subst h
      refine Or.inl ⟨rfl, fun k row hrow => ?_⟩
      obtain ⟨execution, he, -, steps, -, rfl⟩ := Db.appendStep_eq_ok.mp hcall
      obtain rfl : execution.id = executionId := Table.key_of_get he
      by_cases hk : k = execution.id
      · subst hk
        obtain rfl : row = execution := Option.some.inj (hrow.symm.trans he)
        exact ⟨row.stepCount + 1, Table.get_set_self he ⟨rfl, Or.inr rfl⟩⟩
      · exact ⟨row.stepCount, (Table.get_set_ne hk).trans hrow⟩

/-- Every committed transition is one version further, along an edge or in place, and
the row it was about is at least that far. -/
def Recorded (w : Callers) : Prop :=
  (∀ c ∈ w.history, c.after.stateVersion = c.before.stateVersion + 1 ∧
      c.before.stateVersion = c.request.expectedVersion ∧
      c.after.status = c.request.targetStatus ∧
      (c.before.status = c.after.status ∨
        c.after.status ∈ executionEdges c.before.profile c.before.status)) ∧
    (∀ c ∈ w.history, ∃ row, w.db.getExecution c.before.id = some row ∧
      c.request.expectedVersion < row.stateVersion) ∧
    (w.history.map fun c => (c.before.id, c.request.expectedVersion)).Nodup

theorem getExecution_commit {db db' : Db} {record row after : ExecutionRecord}
    {request : TransitionRequest} (hrow : db.getExecution record.id = some row)
    (h : db.transitionExecutionFrom record request = .ok (after, db')) :
    row.stateVersion = request.expectedVersion ∧ after.id = row.id ∧
      after.stateVersion = row.stateVersion + 1 ∧ after.status = request.targetStatus ∧
      (row.status = request.targetStatus ∨
        request.targetStatus ∈ executionEdges row.profile row.status) ∧
      ∀ k, db'.getExecution k = if k = row.id then some after else db.getExecution k := by
  obtain ⟨row', hrow', -, hv, -, -, hedge, _, rfl, rfl⟩ :=
    Db.transitionExecutionFrom_eq_ok.mp h
  obtain rfl : row' = row := Option.some.inj (hrow'.symm.trans hrow)
  obtain hid : row'.id = record.id := Table.key_of_get hrow
  refine ⟨hv, rfl, ?_, rfl, hedge, fun k => ?_⟩
  · rw [hv]
    rfl
  · rw [← hid] at hrow
    exact Table.get_set (r := row'.moved record request _) hrow Db.moved_replaces k

theorem recorded_next {w w' : Callers} {a : CallerAction} (hrec : w.Recorded)
    (h : w.next a = some w') : w'.Recorded := by
  obtain ⟨hlaw, hbelow, hnodup⟩ := hrec
  rcases next_cases h with ⟨hsame, hrows⟩ | ⟨caller, p, row, after, -, -, hrow, hcall, hhist⟩
  · refine ⟨?_, ?_, ?_⟩
    · rwa [hsame]
    · rw [hsame]
      intro c hc
      obtain ⟨row, hget, hlt⟩ := hbelow c hc
      obtain ⟨count, hget'⟩ := hrows _ _ hget
      exact ⟨_, hget', hlt⟩
    · rwa [hsame]
  · obtain ⟨hversion, hid, hnext, hstatus, hedge, hget⟩ := getExecution_commit hrow hcall
    refine ⟨?_, ?_, ?_⟩
    · rw [hhist]
      intro c hc
      rcases List.mem_append.mp hc with hc | hc
      · exact hlaw c hc
      · rw [List.mem_singleton.mp hc]
        exact ⟨hnext, hversion, hstatus, by rw [hstatus]; exact hedge⟩
    · rw [hhist]
      intro c hc
      rcases List.mem_append.mp hc with hc | hc
      · obtain ⟨old, hold, hlt⟩ := hbelow c hc
        by_cases hsame : c.before.id = row.id
        · have hrowid : row.id = p.record.id := Table.key_of_get hrow
          rw [hsame, hrowid, hrow] at hold
          obtain rfl := Option.some.inj hold
          exact ⟨after, by rw [hget, if_pos hsame], by omega⟩
        · exact ⟨old, by rw [hget, if_neg hsame]; exact hold, hlt⟩
      · rw [List.mem_singleton.mp hc]
        refine ⟨after, by rw [hget, if_pos rfl], ?_⟩
        change p.request.expectedVersion < after.stateVersion
        omega
    · rw [hhist, List.map_append, List.nodup_append]
      refine ⟨hnodup, List.nodup_singleton _, ?_⟩
      intro x hx y hy hxy
      obtain ⟨c, hc, rfl⟩ := List.mem_map.mp hx
      rw [List.map_singleton, List.mem_singleton] at hy
      rw [hy, Prod.mk.injEq] at hxy
      obtain ⟨old, hold, hlt⟩ := hbelow c hc
      have hrowid : row.id = p.record.id := Table.key_of_get hrow
      rw [hxy.1, hrowid, hrow] at hold
      obtain rfl := Option.some.inj hold
      have hsame : c.request.expectedVersion = p.request.expectedVersion := hxy.2
      omega

theorem recorded_run {w w' : Callers} {ls : List CallerAction} (hrec : w.Recorded)
    (h : Run Steps w ls w') : w'.Recorded :=
  h.invariant (fun _ _ _ hi hs => recorded_next hi hs) hrec

/-- The columns of an execution that only a transition writes. -/
def SameOutcome (e f : ExecutionRecord) : Prop :=
  f.profile = e.profile ∧ f.status = e.status ∧ f.result = e.result ∧
    f.errorCode = e.errorCode ∧ f.errorMessage = e.errorMessage ∧
    f.stateVersion = e.stateVersion ∧ f.completedAt = e.completedAt

theorem SameOutcome.refl (e : ExecutionRecord) : SameOutcome e e :=
  ⟨rfl, rfl, rfl, rfl, rfl, rfl, rfl⟩

theorem SameOutcome.trans {e f g : ExecutionRecord} (h : SameOutcome e f)
    (h' : SameOutcome f g) : SameOutcome e g := by
  obtain ⟨h1, h2, h3, h4, h5, h6, h7⟩ := h
  obtain ⟨k1, k2, k3, k4, k5, k6, k7⟩ := h'
  exact ⟨k1.trans h1, k2.trans h2, k3.trans h3, k4.trans h4, k5.trans h5, k6.trans h6, k7.trans h7⟩

theorem terminal_next {w w' : Callers} {a : CallerAction} {id : ExecutionId}
    {e : ExecutionRecord} (hnames : w.NamesAnotherStatus a) (h : w.next a = some w')
    (he : w.db.getExecution id = some e)
    (hterm : isTerminalExecutionStatus e.profile e.status = true) :
    ∃ f, w'.db.getExecution id = some f ∧ SameOutcome e f := by
  rcases next_cases h with ⟨-, hrows⟩ | ⟨caller, p, row, after, rfl, hp, hrow, hcall, -⟩
  · obtain ⟨count, hget⟩ := hrows id e he
    exact ⟨_, hget, rfl, rfl, rfl, rfl, rfl, rfl, rfl⟩
  · obtain ⟨hversion, -, -, -, hedge, hget⟩ := getExecution_commit hrow hcall
    by_cases hid : id = row.id
    · -- The call found a terminal row, which no edge leaves.
      have hrowid : row.id = p.record.id := Table.key_of_get hrow
      rw [hid, hrowid, hrow] at he
      obtain rfl := Option.some.inj he
      rw [isTerminalExecutionStatus_iff] at hterm
      rcases hedge with hsame | hedge
      · exact absurd hsame (hnames p hp row hrow hversion)
      · rw [hterm] at hedge
        cases hedge
    · exact ⟨e, by rw [hget, if_neg hid]; exact he, SameOutcome.refl e⟩

/-- What the histories between `u` and `w` obey: each committed call is one version
further along an edge, no two commits on one execution carry one expected version, and
what was terminal in `u` keeps its outcome. -/
def FollowTable (u w : Callers) : Prop :=
  (∀ c ∈ w.history, c.after.stateVersion = c.before.stateVersion + 1 ∧
    c.after.status ∈ executionEdges c.before.profile c.before.status) ∧
  (w.history.map fun c => (c.before.id, c.request.expectedVersion)).Nodup ∧
  ∀ id e, u.db.getExecution id = some e →
    isTerminalExecutionStatus e.profile e.status = true →
    ∃ f, w.db.getExecution id = some f ∧ SameOutcome e f

/-- No commit is in place in a run whose calls name another status than they find. -/
theorem commits_move {w w' : Callers} {ls : List CallerAction} (hstart : w.history = [])
    (h : Run (Under NamesAnotherStatus Steps) w ls w') :
    ∀ c ∈ w'.history, c.before.status ≠ c.after.status := by
  refine h.invariant (I := fun v => ∀ c ∈ v.history, c.before.status ≠ c.after.status) ?_
    (by simp [hstart])
  rintro v a v' hv ⟨hnames, hstep⟩
  rcases next_cases hstep with ⟨hsame, -⟩ | ⟨caller, p, row, after, rfl, hp, hrow, hcall, hhist⟩
  · rwa [hsame]
  · rw [hhist]
    intro c hc
    rcases List.mem_append.mp hc with hc | hc
    · exact hv c hc
    · rw [List.mem_singleton.mp hc]
      obtain ⟨hversion, -, -, hstatus, -, -⟩ := getExecution_commit hrow hcall
      rw [hstatus]
      exact hnames p hp row hrow hversion

theorem terminal_run {w w' : Callers} {ls : List CallerAction} {id : ExecutionId}
    {e : ExecutionRecord} (h : Run (Under NamesAnotherStatus Steps) w ls w')
    (he : w.db.getExecution id = some e)
    (hterm : isTerminalExecutionStatus e.profile e.status = true) :
    ∃ f, w'.db.getExecution id = some f ∧ SameOutcome e f := by
  induction h generalizing e with
  | done _ => exact ⟨e, he, SameOutcome.refl e⟩
  | more hstep _ ih =>
    obtain ⟨f, hf, hsame⟩ := terminal_next hstep.1 hstep.2 he hterm
    obtain ⟨g, hg, hsame'⟩ := ih hf (by rw [hsame.1, hsame.2.1]; exact hterm)
    exact ⟨g, hg, hsame.trans hsame'⟩

/-- Every run whose calls name another status than the one they find follows the table. -/
theorem run_followsTable {w u w' : Callers} {ls ms : List CallerAction}
    (hstart : w.history = []) (hbefore : Run (Under NamesAnotherStatus Steps) w ls u)
    (hafter : Run (Under NamesAnotherStatus Steps) u ms w') : FollowTable u w' := by
  have hrun := hbefore.append hafter
  have hrec : w.Recorded := by simp [Recorded, hstart]
  obtain ⟨hlaw, -, hnodup⟩ := recorded_run hrec hrun.forget
  refine ⟨fun c hc => ?_, hnodup, fun id e he hterm => terminal_run hafter he hterm⟩
  obtain ⟨hversion, -, -, hedge⟩ := hlaw c hc
  exact ⟨hversion, hedge.resolve_left (commits_move hstart hrun c hc)⟩

def planningExecution : ExecutionRecord where
  id := 1
  sessionId := 1
  profile := .actionRun
  rootExecutionId := 1
  goal := "file the task"
  status := .planning
  createdAt := 0
  statusDeclared := by decide

def planningCallers : Callers where
  db := { executions := (Table.empty.insert planningExecution).getD .empty }

def failAt (version : ℕ) (errorCode : String) : TransitionRequest where
  expectedVersion := version
  targetStatus := .failed
  errorCode := some errorCode
  changedAt := version

def failOnce : List CallerAction := [.read 1 (failAt 1 "action_run_failed"), .write 0]

def failAgain : List CallerAction := [.read 1 (failAt 2 "stale_caller_failed"), .write 0]

def failedOnce : Callers := (follow next failOnce planningCallers).get (by decide)

def failedTwice : Callers := (follow next failAgain failedOnce).get (by decide)

instance (w : Callers) : (a : CallerAction) → Decidable (w.NamesAnotherStatus a)
  | .write caller => inferInstanceAs (Decidable (∀ p ∈ w.pending[caller]?,
      ∀ row ∈ w.db.getExecution p.record.id,
        row.stateVersion = p.request.expectedVersion → row.status ≠ p.request.targetStatus))
  | .read .. | .appendStep .. => .isTrue trivial

/-- Two callers read the execution and fail it; the second one is too late. -/
def failRaced : List CallerAction :=
  [.read 1 (failAt 1 "action_run_failed"), .read 1 (failAt 1 "too_late"), .write 0, .write 0]

def failedRaced : Callers :=
  (follow (guarded NamesAnotherStatus next) failRaced planningCallers).get (by decide)

theorem failedOnce_followsTable :
    Run (Under NamesAnotherStatus Steps) planningCallers failRaced failedRaced ∧
      failedRaced.history.length = 1 ∧ FollowTable planningCallers failedRaced := by
  have hrun : Run (Under NamesAnotherStatus Steps) planningCallers failRaced failedRaced :=
    run_under_to_get NamesAnotherStatus next failRaced _ _
  exact ⟨hrun, by decide, run_followsTable rfl (.done _) hrun⟩

/-- A call that names the status of a terminal execution commits, and rewrites its
error, its version and the time of its completion. -/
theorem not_every_run_followsTable :
    ¬ ∀ (w u w' : Callers) (ls ms : List CallerAction), w.history = [] →
      Run Steps w ls u → Run Steps u ms w' → FollowTable u w' := by
  intro hall
  obtain ⟨-, -, hterm⟩ := hall planningCallers failedOnce failedTwice failOnce failAgain rfl
    (run_to_get _ _ _ (by decide)) (run_to_get _ _ _ (by decide))
  have hfirst : ∀ e ∈ failedOnce.db.getExecution 1,
      e.errorCode = some "action_run_failed" ∧
        isTerminalExecutionStatus e.profile e.status = true := by decide
  have hsecond : ∀ f ∈ failedTwice.db.getExecution 1,
      f.errorCode = some "stale_caller_failed" := by decide
  obtain ⟨e, he⟩ := Option.isSome_iff_exists.mp
    (show (failedOnce.db.getExecution 1).isSome = true by decide)
  obtain ⟨f, hf, hsame⟩ := hterm 1 e he (hfirst e he).2
  have hkept : f.errorCode = e.errorCode := hsame.2.2.2.1
  rw [hsecond f hf, (hfirst e he).1] at hkept
  exact absurd hkept (by decide)

end Callers

end Assistant
end Matinier
