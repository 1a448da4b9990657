import Mathlib.Data.Finset.Insert
import Mathlib.Data.Finset.Erase
import Matinier.Foundation.Machine
import Matinier.Assistant.Records

/-!
# The scheduler of action runs

Any number of callers enqueue and resume executions while a fixed number of
workers take them from one queue and run them. A step below is what the event
loop runs between two points at which another task may be scheduled. One lock
guards the sets of queued and active executions; only a caller that has marked
its execution as queued and is about to put it into the queue holds it across
such a point. The state machine ends where the workers are cancelled.
-/

namespace Matinier
namespace Assistant

/-- What a worker is at: it waits for work, it waits for the lock with an execution it took,
it runs it, it waits for the lock to leave it (with the exception of the run or without), or
its task has ended with that exception. -/
inductive WorkerPhase where
  | idle
  | claimed (execution : ExecutionId)
  | running (execution : ExecutionId)
  | leaving (execution : ExecutionId)
  | failing (execution : ExecutionId)
  | dead
  deriving DecidableEq

/-- Who asks for an execution to be queued: a caller, a caller that committed an input, or
the scheduler itself after a delay. -/
inductive CallOrigin where
  | enqueue
  | resume
  | delayed
  deriving DecidableEq

structure SchedulerCall where
  execution : ExecutionId
  origin : CallOrigin
  deriving DecidableEq

/-- What a call waits for: the delay, the lock to forget the stored result, or the lock to
queue its execution. -/
inductive CallPhase where
  | sleeping
  | forgetting
  | entering
  deriving DecidableEq

structure PendingCall where
  call : SchedulerCall
  phase : CallPhase
  deriving DecidableEq

/-- What the statements speak about: a resume that returned, a run that started. -/
inductive SchedulerNote where
  | resumed (execution : ExecutionId)
  | started (execution : ExecutionId)
  deriving DecidableEq

def SchedulerNote.execution : SchedulerNote → ExecutionId
  | .resumed execution | .started execution => execution

structure ActionScheduler where
  accepting : Bool := true
  queue : List ExecutionId := []
  queued : Finset ExecutionId := ∅
  active : Finset ExecutionId := ∅
  results : ExecutionId → Option ExecutionStatus := fun _ => none
  workers : List WorkerPhase
  calls : List PendingCall := []
  putting : Option SchedulerCall := none
  notes : List SchedulerNote := []

inductive SchedulerStep where
  | enqueue (execution : ExecutionId)
  | resume (execution : ExecutionId)
  | forget (call : ℕ)
  | wake (call : ℕ)
  | enter (call : ℕ)
  | put
  | take (worker : ℕ)
  | start (worker : ℕ)
  | finish (worker : ℕ) (status : ExecutionStatus)
  | raise (worker : ℕ)
  | leave (worker : ℕ)
  | stop
  deriving DecidableEq

/-- The statuses that end the runs of an execution until it is resumed. -/
def settledStatuses : List ExecutionStatus :=
  [.completed, .partialCompletion, .failed, .cancelled, .needsInput]

namespace ActionScheduler

def ofConcurrency (concurrency : ℕ) : ActionScheduler where
  workers := List.replicate concurrency .idle

def Settled (w : ActionScheduler) (execution : ExecutionId) : Prop :=
  ∃ status ∈ w.results execution, status ∈ settledStatuses

instance (w : ActionScheduler) (execution : ExecutionId) : Decidable (w.Settled execution) :=
  inferInstanceAs (Decidable (∃ status ∈ _, _))

def setWorker (w : ActionScheduler) (i : ℕ) (phase : WorkerPhase) : ActionScheduler :=
  { w with workers := w.workers.set i phase }

def dropCall (w : ActionScheduler) (c : ℕ) : ActionScheduler :=
  { w with calls := w.calls.eraseIdx c }

def answer (w : ActionScheduler) (call : SchedulerCall) : ActionScheduler :=
  if call.origin = .resume then { w with notes := .resumed call.execution :: w.notes } else w

def admitCall (w : ActionScheduler) (call : SchedulerCall) : ActionScheduler :=
  if w.accepting then { w with calls := w.calls ++ [⟨call, .entering⟩] } else w

/-- What `enqueue` does once it has the lock. -/
def enterQueue (w : ActionScheduler) (call : SchedulerCall) : ActionScheduler :=
  if call.execution ∈ w.queued ∨ call.execution ∈ w.active then w.answer call
  else if w.Settled call.execution then w.answer call
  else { w with queued := insert call.execution w.queued, putting := some call }

/-- Store the result of a run, and plan the next one where it waits for the outside. -/
def storeResult (w : ActionScheduler) (execution : ExecutionId) (status : ExecutionStatus) :
    ActionScheduler :=
  let w := { w with results := Function.update w.results execution (some status) }
  if status ∈ [ExecutionStatus.waitingExternal, .reconciling] ∧ w.accepting then
    { w with calls := w.calls ++ [⟨⟨execution, .delayed⟩, .sleeping⟩] }
  else w

def pending (w : ActionScheduler) (c : ℕ) (phase : CallPhase) : Option SchedulerCall :=
  ((w.calls[c]?).filter fun p => p.phase = phase).map PendingCall.call

def next (w : ActionScheduler) : SchedulerStep → Option ActionScheduler
  | .enqueue execution => some (w.admitCall ⟨execution, .enqueue⟩)
  | .resume execution =>
    some { w with calls := w.calls ++ [⟨⟨execution, .resume⟩, .forgetting⟩] }
  | .forget c =>
    if w.putting = none then
      (w.pending c .forgetting).map fun call =>
        ({ w.dropCall c with results := Function.update w.results call.execution none }).admitCall
          call
    else none
  | .wake c => (w.pending c .sleeping).map fun call => (w.dropCall c).admitCall call
  | .enter c =>
    if w.putting = none then
      (w.pending c .entering).map fun call => (w.dropCall c).enterQueue call
    else none
  | .put =>
    w.putting.map fun call =>
      ({ w with queue := w.queue ++ [call.execution], putting := none }).answer call
  | .take i =>
    match w.workers[i]?, w.queue with
    | some .idle, execution :: rest =>
      some ({ w with queue := rest }.setWorker i (.claimed execution))
    | _, _ => none
  | .start i =>
    match w.workers[i]?, w.putting with
    | some (.claimed execution), none =>
      some ({ w with
        queued := w.queued.erase execution
        active := insert execution w.active
        notes := .started execution :: w.notes }.setWorker i (.running execution))
    | _, _ => none
  | .finish i status =>
    match w.workers[i]? with
    | some (.running execution) =>
      some ((w.storeResult execution status).setWorker i (.leaving execution))
    | _ => none
  | .raise i =>
    match w.workers[i]? with
    | some (.running execution) => some (w.setWorker i (.failing execution))
    | _ => none
  | .leave i =>
    match w.workers[i]?, w.putting with
    | some (.leaving execution), none =>
      some ({ w with active := w.active.erase execution }.setWorker i .idle)
    | some (.failing execution), none =>
      some ({ w with active := w.active.erase execution }.setWorker i .dead)
    | _, _ => none
  | .stop =>
    some { w with
      accepting := false
      calls := w.calls.filter fun p => p.call.origin ≠ .delayed }

abbrev Steps : ActionScheduler → SchedulerStep → ActionScheduler → Prop :=
  fun w a w' => w.next a = some w'

inductive Stepped (w : ActionScheduler) : SchedulerStep → ActionScheduler → Prop
  | called {a : SchedulerStep} (accepting : Bool) (calls : List PendingCall)
      (results : ExecutionId → Option ExecutionStatus) (ha : ∀ i, a ≠ .take i ∧ a ≠ .start i ∧
        a ≠ .leave i ∧ a ≠ .raise i ∧ ∀ status, a ≠ .finish i status) (hput : a ≠ .put) :
      Stepped w a { w with accepting, calls, results }
  | answered (c : ℕ) (call : SchedulerCall) (found : w.pending c .entering = some call)
      (known : call.execution ∈ w.queued ∨ call.execution ∈ w.active ∨ w.Settled call.execution) :
      Stepped w (.enter c) ((w.dropCall c).answer call)
  | entered (c : ℕ) (call : SchedulerCall) (free : w.putting = none)
      (unqueued : call.execution ∉ w.queued) (inactive : call.execution ∉ w.active) :
      Stepped w (.enter c) { w.dropCall c with
        queued := insert call.execution w.queued, putting := some call }
  | put (call : SchedulerCall) (held : w.putting = some call) :
      Stepped w .put
        (({ w with queue := w.queue ++ [call.execution], putting := none }).answer call)
  | took (i : ℕ) (execution : ExecutionId) (rest : List ExecutionId)
      (worker : w.workers[i]? = some .idle) (head : w.queue = execution :: rest) :
      Stepped w (.take i) ({ w with queue := rest }.setWorker i (.claimed execution))
  | started (i : ℕ) (execution : ExecutionId) (worker : w.workers[i]? = some (.claimed execution))
      (free : w.putting = none) :
      Stepped w (.start i) ({ w with
        queued := w.queued.erase execution
        active := insert execution w.active
        notes := .started execution :: w.notes }.setWorker i (.running execution))
  | finished (i : ℕ) (execution : ExecutionId) (status : ExecutionStatus)
      (calls : List PendingCall) (results : ExecutionId → Option ExecutionStatus)
      (worker : w.workers[i]? = some (.running execution)) :
      Stepped w (.finish i status)
        ({ w with calls, results }.setWorker i (.leaving execution))
  | raised (i : ℕ) (execution : ExecutionId)
      (worker : w.workers[i]? = some (.running execution)) :
      Stepped w (.raise i) (w.setWorker i (.failing execution))
  | left (i : ℕ) (execution : ExecutionId) (old new : WorkerPhase)
      (worker : w.workers[i]? = some old) (free : w.putting = none)
      (phases : old = .leaving execution ∧ new = .idle ∨ old = .failing execution ∧ new = .dead) :
      Stepped w (.leave i) ({ w with active := w.active.erase execution }.setWorker i new)

theorem stepped_of_next {w w' : ActionScheduler} {a : SchedulerStep} (h : w.next a = some w') :
    Stepped w a w' := by
  cases a with
  | enqueue execution =>
    cases h
    unfold admitCall
    split_ifs
    · exact .called w.accepting _ w.results (by simp) (by simp)
    · exact .called w.accepting w.calls w.results (by simp) (by simp)
  | resume execution =>
    cases h
    exact .called w.accepting _ w.results (by simp) (by simp)
  | forget c =>
    simp only [next, Option.ite_none_right_eq_some, Option.map_eq_some_iff] at h
    obtain ⟨-, call, -, rfl⟩ := h
    unfold admitCall
    split_ifs
    · exact .called w.accepting _ _ (by simp) (by simp)
    · exact .called w.accepting _ _ (by simp) (by simp)
  | wake c =>
    simp only [next, Option.map_eq_some_iff] at h
    obtain ⟨call, -, rfl⟩ := h
    unfold admitCall
    split_ifs
    · exact .called w.accepting _ w.results (by simp) (by simp)
    · exact .called w.accepting _ w.results (by simp) (by simp)
  | enter c =>
    simp only [next, Option.ite_none_right_eq_some, Option.map_eq_some_iff] at h
    obtain ⟨hfree, call, hcall, rfl⟩ := h
    unfold enterQueue
    split_ifs with hknown hsettled
    · exact .answered c call hcall (hknown.imp_right Or.inl)
    · exact .answered c call hcall (Or.inr (Or.inr hsettled))
    · rw [not_or] at hknown
      exact .entered c call hfree hknown.1 hknown.2
  | put =>
    simp only [next, Option.map_eq_some_iff] at h
    obtain ⟨call, hheld, rfl⟩ := h
    exact .put call hheld
  | take i =>
    simp only [next] at h
    split at h
    · rename_i execution rest hworker hqueue
      cases h
      exact .took i execution rest hworker hqueue
    · cases h
  | start i =>
    simp only [next] at h
    split at h
    · rename_i execution hworker hfree
      cases h
      exact .started i execution hworker hfree
    · cases h
  | finish i status =>
    simp only [next] at h
    split at h
    · rename_i execution hworker
      cases h
      unfold storeResult
      dsimp only
      split_ifs
      · exact .finished i execution status _ _ hworker
      · exact .finished i execution status _ _ hworker
    · cases h
  | raise i =>
    simp only [next] at h
    split at h
    · rename_i execution hworker
      cases h
      exact .raised i execution hworker
    · cases h
  | leave i =>
    simp only [next] at h
    split at h
    · rename_i execution hworker hfree
      cases h
      exact .left i execution _ _ hworker hfree (Or.inl ⟨rfl, rfl⟩)
    · rename_i execution hworker hfree
      cases h
      exact .left i execution _ _ hworker hfree (Or.inr ⟨rfl, rfl⟩)
    · cases h
  | stop =>
    cases h
    exact .called false _ w.results (by simp) (by simp)

def claimed : WorkerPhase → Option ExecutionId
  | .claimed execution => some execution
  | _ => none

def held : WorkerPhase → Option ExecutionId
  | .running execution | .leaving execution | .failing execution => some execution
  | _ => none

def claims (w : ActionScheduler) (execution : ExecutionId) : ℕ :=
  w.workers.countP fun phase => claimed phase = some execution

def holds (w : ActionScheduler) (execution : ExecutionId) : ℕ :=
  w.workers.countP fun phase => held phase = some execution

/-- The number of callers that are about to put the execution into the queue. -/
def puts (w : ActionScheduler) (execution : ExecutionId) : ℕ :=
  if w.putting.map SchedulerCall.execution = some execution then 1 else 0

/-- What the sets of queued and active executions stand for: an execution is queued once,
taken by one worker or about to be put, or held by one worker, or nothing of all this. -/
structure Consistent (w : ActionScheduler) : Prop where
  queued : ∀ execution, w.queue.count execution + w.claims execution + w.puts execution =
    if execution ∈ w.queued then 1 else 0
  active : ∀ execution, w.holds execution = if execution ∈ w.active then 1 else 0
  apart : ∀ execution ∈ w.queued, execution ∉ w.active

variable {w w' : ActionScheduler} {a : SchedulerStep}

theorem answer_eq (w : ActionScheduler) (call : SchedulerCall) :
    w.answer call = { w with notes := (w.answer call).notes } := by
  unfold answer
  split_ifs <;> rfl

theorem claims_setWorker {i : ℕ} {old : WorkerPhase} (h : w.workers[i]? = some old)
    (new : WorkerPhase) (x : ExecutionId) :
    (w.setWorker i new).claims x + (if claimed old = some x then 1 else 0) =
      w.claims x + if claimed new = some x then 1 else 0 := by
  simpa [claims, setWorker] using
    countP_set (p := fun phase => decide (claimed phase = some x)) h new

theorem holds_setWorker {i : ℕ} {old : WorkerPhase} (h : w.workers[i]? = some old)
    (new : WorkerPhase) (x : ExecutionId) :
    (w.setWorker i new).holds x + (if held old = some x then 1 else 0) =
      w.holds x + if held new = some x then 1 else 0 := by
  simpa [holds, setWorker] using
    countP_set (p := fun phase => decide (held phase = some x)) h new

theorem Consistent.queued_of_claimed (hw : w.Consistent) {i : ℕ} {execution : ExecutionId}
    (h : w.workers[i]? = some (.claimed execution)) : execution ∈ w.queued := by
  have hset := claims_setWorker h .idle execution
  have hqueued := hw.queued execution
  simp only [claimed, if_true, reduceCtorEq, if_false] at hset
  by_contra hnot
  rw [if_neg hnot] at hqueued
  omega

/-- The conditions speak about the queue, the workers and the lock only. -/
theorem Consistent.congr (hw : w.Consistent) (hqueue : w'.queue = w.queue)
    (hqueued : w'.queued = w.queued) (hactive : w'.active = w.active)
    (hworkers : w'.workers = w.workers) (hputting : w'.putting = w.putting) : w'.Consistent := by
  refine ⟨fun x => ?_, fun x => ?_, ?_⟩
  · unfold claims puts
    rw [hqueue, hworkers, hputting, hqueued]
    exact hw.queued x
  · unfold holds
    rw [hworkers, hactive]
    exact hw.active x
  · rw [hqueued, hactive]
    exact hw.apart

theorem Consistent.step (hw : w.Consistent) (h : Stepped w a w') : w'.Consistent := by
  cases h with
  | called accepting calls results => exact hw.congr rfl rfl rfl rfl rfl
  | answered c call found known =>
    rw [answer_eq]
    exact hw.congr rfl rfl rfl rfl rfl
  | entered c call free unqueued inactive =>
    refine ⟨fun x => ?_, hw.active, fun x hx => ?_⟩
    · have hqueued := hw.queued x
      simp only [puts, free, Option.map_none, reduceCtorEq, if_false] at hqueued
      simp only [puts, Option.map_some, Option.some.injEq, Finset.mem_insert]
      change w.queue.count x + w.claims x + _ = _
      by_cases hx : call.execution = x
      · subst hx
        simp only [unqueued, if_false] at hqueued
        simp only [if_true, true_or]
        omega
      · simp [hx, Ne.symm hx, hqueued]
    · rcases Finset.mem_insert.mp hx with rfl | hx
      · exact inactive
      · exact hw.apart x hx
  | put call held =>
    rw [answer_eq]
    refine Consistent.congr (w := { w with queue := w.queue ++ [call.execution], putting := none })
      ⟨fun x => ?_, hw.active, hw.apart⟩ rfl rfl rfl rfl rfl
    have hqueued := hw.queued x
    simp only [puts, held, Option.map_some, Option.some.injEq] at hqueued
    simp only [List.count_append, List.count_singleton, puts, Option.map_none, reduceCtorEq,
      if_false, beq_iff_eq]
    change w.queue.count x + _ + w.claims x + _ = _
    omega
  | took i execution rest worker head =>
    refine ⟨fun x => ?_, fun x => ?_, hw.apart⟩
    · have hqueued := hw.queued x
      have hset := claims_setWorker (w := { w with queue := rest }) worker (.claimed execution) x
      simp only [head, List.count_cons, beq_iff_eq] at hqueued
      simp only [claimed, reduceCtorEq, if_false, Option.some.injEq] at hset
      change rest.count x + _ + w.puts x = _
      change _ = w.claims x + _ at hset
      change _ = if x ∈ w.queued then 1 else 0
      omega
    · have hset := holds_setWorker (w := { w with queue := rest }) worker (.claimed execution) x
      simp only [held, reduceCtorEq, if_false] at hset
      exact hset.trans (hw.active x)
  | started i execution worker free =>
    have hmem := hw.queued_of_claimed worker
    refine ⟨fun x => ?_, fun x => ?_, fun x hx => ?_⟩
    · have hqueued := hw.queued x
      have hset := claims_setWorker worker (.running execution) x
      simp only [claimed, reduceCtorEq, if_false, Option.some.injEq] at hset
      change w.queue.count x + (w.setWorker i (.running execution)).claims x + w.puts x =
        if x ∈ w.queued.erase execution then 1 else 0
      simp only [Finset.mem_erase]
      by_cases hx : execution = x
      · subst hx
        simp only [hmem, if_true, ne_eq, not_true_eq_false, false_and, if_false] at hqueued hset ⊢
        omega
      · simp only [hx, Ne.symm hx, if_false, ne_eq, not_false_eq_true, true_and] at hset ⊢
        omega
    · have hactive := hw.active x
      have hset := holds_setWorker worker (.running execution) x
      simp only [held, reduceCtorEq, if_false, Option.some.injEq] at hset
      change (w.setWorker i (.running execution)).holds x =
        if x ∈ insert execution w.active then 1 else 0
      simp only [Finset.mem_insert]
      by_cases hx : execution = x
      · subst hx
        simp only [hw.apart execution hmem, if_false, if_true, true_or] at hactive hset ⊢
        omega
      · simp only [hx, Ne.symm hx, if_false, false_or] at hset ⊢
        omega
    · obtain ⟨hne, hx⟩ := Finset.mem_erase.mp hx
      rw [setWorker, Finset.mem_insert, not_or]
      exact ⟨hne, hw.apart x hx⟩
  | finished i execution status calls results worker =>
    refine ⟨fun x => ?_, fun x => ?_, hw.apart⟩
    · have hset := claims_setWorker worker (.leaving execution) x
      have hqueued := hw.queued x
      simp only [claimed, reduceCtorEq, if_false] at hset
      change w.queue.count x + (w.setWorker i (.leaving execution)).claims x + w.puts x = _
      change _ = if x ∈ w.queued then 1 else 0
      omega
    · have hset := holds_setWorker worker (.leaving execution) x
      simp only [held] at hset
      exact (Nat.add_right_cancel hset).trans (hw.active x)
  | raised i execution worker =>
    refine ⟨fun x => ?_, fun x => ?_, hw.apart⟩
    · have hset := claims_setWorker worker (.failing execution) x
      have hqueued := hw.queued x
      simp only [claimed, reduceCtorEq, if_false] at hset
      change w.queue.count x + (w.setWorker i (.failing execution)).claims x + w.puts x = _
      change _ = if x ∈ w.queued then 1 else 0
      omega
    · have hset := holds_setWorker worker (.failing execution) x
      simp only [held] at hset
      exact (Nat.add_right_cancel hset).trans (hw.active x)
  | left i execution old new worker free phases =>
    have hclaimed : claimed old = none ∧ claimed new = none := by
      rcases phases with ⟨rfl, rfl⟩ | ⟨rfl, rfl⟩ <;> exact ⟨rfl, rfl⟩
    have hheld : held old = some execution ∧ held new = none := by
      rcases phases with ⟨rfl, rfl⟩ | ⟨rfl, rfl⟩ <;> exact ⟨rfl, rfl⟩
    refine ⟨fun x => ?_, fun x => ?_, fun x hx hactive => ?_⟩
    · have hset := claims_setWorker worker new x
      have hqueued := hw.queued x
      simp only [hclaimed, reduceCtorEq, if_false] at hset
      change w.queue.count x + (w.setWorker i new).claims x + w.puts x = _
      change _ = if x ∈ w.queued then 1 else 0
      omega
    · have hactive := hw.active x
      have hset := holds_setWorker worker new x
      simp only [hheld, reduceCtorEq, if_false, Option.some.injEq] at hset
      change (w.setWorker i new).holds x = if x ∈ w.active.erase execution then 1 else 0
      simp only [Finset.mem_erase]
      by_cases hx : execution = x
      · subst hx
        simp only [if_true, ne_eq, not_true_eq_false, false_and, if_false] at hset ⊢
        split_ifs at hactive <;> omega
      · simp only [hx, Ne.symm hx, if_false, ne_eq, not_false_eq_true, true_and] at hset ⊢
        omega
    · exact hw.apart x hx (Finset.mem_of_mem_erase hactive)

theorem ofConcurrency_consistent (concurrency : ℕ) : (ofConcurrency concurrency).Consistent := by
  refine ⟨fun x => ?_, fun x => ?_, by simp [ofConcurrency]⟩
  · simp [ofConcurrency, claims, puts, claimed, List.countP_replicate]
  · simp [ofConcurrency, holds, held, List.countP_replicate]

theorem run_consistent {concurrency : ℕ} {ls : List SchedulerStep}
    (h : Run Steps (ofConcurrency concurrency) ls w) : w.Consistent :=
  h.invariant (I := Consistent) (fun _ _ _ hw hstep => hw.step (stepped_of_next hstep))
    (ofConcurrency_consistent concurrency)

/-- One worker at most holds an execution, and the queue has it once at most. -/
def Exclusive (w : ActionScheduler) : Prop := ∀ x, w.holds x ≤ 1 ∧ w.queue.count x ≤ 1

theorem Consistent.exclusive (hw : w.Consistent) : w.Exclusive := by
  intro x
  have hqueued := hw.queued x
  have hactive := hw.active x
  split_ifs at hqueued hactive <;> omega

/-- The last resume of the execution that returned came after the last start of a run of it. -/
def Owed (w : ActionScheduler) (x : ExecutionId) : Prop :=
  w.notes.find? (fun note => note.execution = x) = some (.resumed x)

instance (w : ActionScheduler) (x : ExecutionId) : Decidable (w.Owed x) :=
  inferInstanceAs (Decidable (_ = _))

/-- Nothing about the execution is under way: it is not queued, active or delayed. -/
def Quiescent (w : ActionScheduler) (x : ExecutionId) : Prop :=
  x ∉ w.queued ∧ x ∉ w.active ∧ ∀ p ∈ w.calls, p.call.origin = .delayed → p.call.execution ≠ x

instance (w : ActionScheduler) (x : ExecutionId) : Decidable (w.Quiescent x) :=
  inferInstanceAs (Decidable (_ ∧ _))

/-- A resume that reaches the queue finds its execution queued already, or neither active nor
with the result of an earlier run stored again. -/
def Heeded (w : ActionScheduler) : SchedulerStep → Prop
  | .enter c => ∀ call ∈ w.pending c .entering, call.origin = .resume →
      call.execution ∈ w.queued ∨ call.execution ∉ w.active ∧ ¬ w.Settled call.execution
  | _ => True

instance (w : ActionScheduler) : ∀ a, Decidable (w.Heeded a)
  | .enter _ => inferInstanceAs (Decidable (∀ call ∈ _, _))
  | .enqueue _ | .resume _ | .forget _ | .wake _ | .put | .take _ | .start _ | .finish _ _
  | .raise _ | .leave _ | .stop => isTrue trivial

/-- What is owed a run is queued. -/
def Awaited (w : ActionScheduler) : Prop := ∀ x, w.Owed x → x ∈ w.queued

/-- A call that returns makes a run owed only where it is a resume of that execution. -/
theorem owed_answer {call : SchedulerCall} {x : ExecutionId} (h : (w.answer call).Owed x) :
    w.Owed x ∨ call.origin = .resume ∧ call.execution = x := by
  unfold answer at h
  split_ifs at h with horigin
  · by_cases hx : call.execution = x
    · exact Or.inr ⟨horigin, hx⟩
    · refine Or.inl ?_
      simpa [Owed, SchedulerNote.execution, hx] using h
  · exact Or.inl h

theorem Awaited.step (hw : w.Awaited) (hheld : ∀ call ∈ w.putting, call.execution ∈ w.queued)
    (hheeded : w.Heeded a) (h : Stepped w a w') : w'.Awaited := by
  intro x howed
  cases h with
  | called accepting calls results => exact hw x howed
  | answered c call found known =>
    rw [answer_eq]
    rcases owed_answer howed with howed | ⟨hresume, rfl⟩
    · exact hw x howed
    · rcases hheeded call found hresume with hqueued | ⟨hinactive, hunsettled⟩
      · exact hqueued
      · rcases known with hqueued | hactive | hsettled
        · exact hqueued
        · exact absurd hactive hinactive
        · exact absurd hsettled hunsettled
  | entered c call free unqueued inactive => exact Finset.mem_insert_of_mem (hw x howed)
  | put call held =>
    rw [answer_eq]
    rcases owed_answer howed with howed | ⟨-, rfl⟩
    · exact hw x howed
    · exact hheld call held
  | took => exact hw x howed
  | started i execution worker free =>
    by_cases hx : execution = x
    · simp [Owed, SchedulerNote.execution, hx, setWorker] at howed
    · refine Finset.mem_erase_of_ne_of_mem (Ne.symm hx) (hw x ?_)
      simpa [Owed, SchedulerNote.execution, hx, setWorker] using howed
  | finished => exact hw x howed
  | raised => exact hw x howed
  | left => exact hw x howed

theorem Consistent.queued_of_putting (hw : w.Consistent) :
    ∀ call ∈ w.putting, call.execution ∈ w.queued := by
  intro call hcall
  have hqueued := hw.queued call.execution
  have hputs : w.puts call.execution = 1 := by
    rw [Option.mem_def] at hcall
    simp [puts, hcall]
  by_contra hnot
  rw [if_neg hnot] at hqueued
  omega

theorem run_awaited {concurrency : ℕ} {ls : List SchedulerStep}
    (h : Run (Under Heeded Steps) (ofConcurrency concurrency) ls w) : w.Awaited := by
  refine (h.invariant (I := fun w => w.Consistent ∧ w.Awaited) ?_
    ⟨ofConcurrency_consistent concurrency, by simp [Awaited, Owed, ofConcurrency]⟩).2
  intro w a w' hw hstep
  have hstepped := stepped_of_next hstep.2
  exact ⟨hw.1.step hstepped, hw.2.step hw.1.queued_of_putting hstep.1 hstepped⟩

end ActionScheduler

end Assistant
end Matinier
