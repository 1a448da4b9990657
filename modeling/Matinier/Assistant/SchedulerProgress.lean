import Matinier.Foundation.Fairness
import Matinier.Assistant.ActionScheduler
import Matinier.Assistant.Api

/-!
# Progress of the scheduler

Where no run raises, every worker stays alive, and in a fair execution every
execution in the queue is taken by a worker and started. A run that raises ends
its worker: the worker has no handler for it.
-/

namespace Matinier
namespace Assistant
namespace ActionScheduler

def NoRaise (_ : ActionScheduler) : SchedulerStep → Prop
  | .raise _ => False
  | _ => True

instance (w : ActionScheduler) : ∀ a, Decidable (w.NoRaise a)
  | .raise _ => isFalse id
  | .enqueue _ | .resume _ | .forget _ | .wake _ | .enter _ | .put | .take _ | .start _
  | .finish _ _ | .leave _ | .stop => isTrue trivial

def Live (phase : WorkerPhase) : Prop := phase ≠ .dead

instance : DecidablePred Live := fun _ => inferInstanceAs (Decidable (_ ≠ _))

def liveWorkers (w : ActionScheduler) : ℕ := w.workers.countP fun phase => Live phase

/-- Every worker is alive and none is on its way out with an exception. -/
def Sound (concurrency : ℕ) (w : ActionScheduler) : Prop :=
  w.workers.length = concurrency ∧
    ∀ phase ∈ w.workers, Live phase ∧ ∀ x, phase ≠ .failing x

def OfWorker (i : ℕ) : SchedulerStep → Prop
  | .take j | .start j | .finish j _ | .raise j | .leave j => j = i
  | _ => False

variable {w w' : ActionScheduler} {a : SchedulerStep} {concurrency : ℕ}

theorem ofConcurrency_sound (concurrency : ℕ) : (ofConcurrency concurrency).Sound concurrency := by
  simp [Sound, ofConcurrency, Live]

theorem Sound.setWorker (hw : w.Sound concurrency) {i : ℕ} {phase : WorkerPhase}
    (hphase : Live phase ∧ ∀ x, phase ≠ .failing x) : (w.setWorker i phase).Sound concurrency := by
  refine ⟨(List.length_set).trans hw.1, fun p hp => ?_⟩
  rcases List.mem_or_eq_of_mem_set hp with hp | rfl
  · exact hw.2 p hp
  · exact hphase

theorem Sound.step (hw : w.Sound concurrency) (hraise : w.NoRaise a) (h : Stepped w a w') :
    w'.Sound concurrency := by
  cases h with
  | called | entered => exact hw
  | answered c call | put call =>
    rw [answer_eq]
    exact hw
  | took i execution rest =>
    exact Sound.setWorker (w := { w with queue := rest }) hw (by simp [Live])
  | started i execution =>
    exact Sound.setWorker (w := { w with
      queued := w.queued.erase execution
      active := insert execution w.active
      notes := .started execution :: w.notes }) hw (by simp [Live])
  | finished i execution status calls results =>
    exact Sound.setWorker (w := { w with calls, results }) hw (by simp [Live])
  | raised i execution => exact absurd hraise id
  | left i execution old new worker free phases =>
    rcases phases with ⟨rfl, rfl⟩ | ⟨rfl, rfl⟩
    · exact Sound.setWorker (w := { w with active := w.active.erase execution }) hw (by simp [Live])
    · exact absurd rfl ((hw.2 _ (List.mem_of_getElem? worker)).2 execution)

theorem Sound.liveWorkers (hw : w.Sound concurrency) : w.liveWorkers = concurrency := by
  rw [ActionScheduler.liveWorkers, ← hw.1, List.countP_eq_length]
  exact fun phase hphase => decide_eq_true (hw.2 phase hphase).1

/-- How many more steps a worker takes before it is idle. -/
def stepsToIdle : WorkerPhase → ℕ
  | .claimed _ => 3
  | .running _ => 2
  | .leaving _ | .failing _ => 1
  | .idle | .dead => 0

/-- How far the execution is from being taken: by its place in the queue, and by what a
chosen worker has to do first. -/
def distance (x : ExecutionId) (i : ℕ) (w : ActionScheduler) : ℕ :=
  4 * w.queue.idxOf x + ((w.workers[i]?).map stepsToIdle).getD 0

def Taken (x : ExecutionId) (w : ActionScheduler) : Prop :=
  ∃ i : ℕ, w.workers[i]? = some (WorkerPhase.claimed x)

theorem getElem?_setWorker {i : ℕ} {old : WorkerPhase} (h : w.workers[i]? = some old)
    (new : WorkerPhase) (j : ℕ) :
    (w.setWorker i new).workers[j]? = if i = j then some new else w.workers[j]? := by
  obtain ⟨hlt, -⟩ := List.getElem?_eq_some_iff.mp h
  rw [setWorker, List.getElem?_set, if_pos hlt]

/-- A step of a worker that takes nothing from the queue lowers its own distance. -/
theorem distance_setWorker {i j : ℕ} {old new : WorkerPhase} {x : ExecutionId}
    (h : w.workers[j]? = some old) (hlt : stepsToIdle new < stepsToIdle old) :
    (w.setWorker j new).distance x i ≤ w.distance x i ∧
      (j = i → (w.setWorker j new).distance x i < w.distance x i) := by
  unfold distance
  rw [getElem?_setWorker h]
  change 4 * w.queue.idxOf x + _ ≤ _ ∧ (_ → 4 * w.queue.idxOf x + _ < _)
  by_cases hji : j = i
  · subst hji
    simp only [if_true, h, Option.map_some, Option.getD_some]
    omega
  · simp [hji]

/-- A step takes the execution from the queue, or leaves it there and no further from being
taken, nearer where the chosen worker takes the step. -/
theorem distance_step {x : ExecutionId} (i : ℕ) (hx : x ∈ w.queue) (h : Stepped w a w') :
    w'.Taken x ∨ x ∈ w'.queue ∧ w'.distance x i ≤ w.distance x i ∧
      (OfWorker i a → w'.distance x i < w.distance x i) := by
  cases h with
  | called accepting calls results ha =>
    refine Or.inr ⟨hx, Nat.le_refl _, fun hown => ?_⟩
    cases a <;> simp [OfWorker] at hown ha
  | answered c call =>
    rw [answer_eq]
    exact Or.inr ⟨hx, Nat.le_refl _, fun hown => absurd hown id⟩
  | entered c call => exact Or.inr ⟨hx, Nat.le_refl _, fun hown => absurd hown id⟩
  | put call =>
    rw [answer_eq]
    refine Or.inr ⟨List.mem_append_left _ hx, ?_, fun hown => absurd hown id⟩
    unfold distance
    simp only [List.idxOf_append_of_mem hx, Nat.le_refl]
  | took j execution rest worker head =>
    by_cases hexec : execution = x
    · refine Or.inl ⟨j, ?_⟩
      rw [getElem?_setWorker (w := { w with queue := rest }) worker, if_pos rfl, hexec]
    · have hrest : x ∈ rest := by
        rw [head] at hx
        exact (List.mem_cons.mp hx).resolve_left (Ne.symm hexec)
      refine Or.inr ⟨hrest, ?_⟩
      unfold distance
      rw [getElem?_setWorker (w := { w with queue := rest }) worker, head,
        List.idxOf_cons_ne _ (by simpa using hexec)]
      change 4 * rest.idxOf x + _ ≤ _ ∧ (_ → 4 * rest.idxOf x + _ < _)
      by_cases hji : j = i
      · subst hji
        simp only [if_true, worker, Option.map_some, Option.getD_some, stepsToIdle]
        omega
      · simp only [hji, if_false, OfWorker]
        omega
  | started j execution worker free =>
    exact Or.inr ⟨hx, distance_setWorker (w := { w with
      queued := w.queued.erase execution
      active := insert execution w.active
      notes := .started execution :: w.notes }) worker (by simp [stepsToIdle])⟩
  | finished j execution status calls results worker =>
    exact Or.inr ⟨hx, distance_setWorker (w := { w with calls, results }) worker
      (by simp [stepsToIdle])⟩
  | raised j execution worker =>
    exact Or.inr ⟨hx, distance_setWorker worker (by simp [stepsToIdle])⟩
  | left j execution old new worker free phases =>
    refine Or.inr ⟨hx, ?_⟩
    refine distance_setWorker (w := { w with active := w.active.erase execution }) worker ?_
    rcases phases with ⟨rfl, rfl⟩ | ⟨rfl, rfl⟩ <;> simp [stepsToIdle]

/-- What is allowed of the steps in the executions considered: no run raises, and every
other step of a worker, and putting an execution into the queue, is allowed. -/
structure Allows (C : ActionScheduler → SchedulerStep → Prop) : Prop where
  noRaise : ∀ w a, C w a → w.NoRaise a
  worker : ∀ w i a, OfWorker i a → w.NoRaise a → C w a
  put : ∀ w, C w .put

variable {C : ActionScheduler → SchedulerStep → Prop}

theorem canStep_of_isSome {A : SchedulerStep → Prop} (hA : A a) (hC : C w a)
    (h : (w.next a).isSome = true) : Execution.CanStep (Under C Steps) A w := by
  obtain ⟨w', hw'⟩ := Option.isSome_iff_exists.mp h
  exact ⟨a, w', hA, hC, hw'⟩

theorem canStep_worker (hC : Allows C) {i : ℕ} {phase : WorkerPhase}
    (hworker : w.workers[i]? = some phase) (hlive : Live phase ∧ ∀ x, phase ≠ .failing x)
    (hfree : w.putting = none) (hqueue : w.queue ≠ []) :
    Execution.CanStep (Under C Steps) (OfWorker i) w := by
  have hallowed : ∀ a, OfWorker i a → w.NoRaise a → (w.next a).isSome = true →
      Execution.CanStep (Under C Steps) (OfWorker i) w :=
    fun a hown hraise => canStep_of_isSome hown (hC.worker w i a hown hraise)
  cases phase with
  | idle =>
    obtain ⟨execution, rest, hhead⟩ := List.exists_cons_of_ne_nil hqueue
    exact hallowed (.take i) rfl trivial (by simp [next, hworker, hhead])
  | claimed execution => exact hallowed (.start i) rfl trivial (by simp [next, hworker, hfree])
  | running execution => exact hallowed (.finish i .completed) rfl trivial (by simp [next, hworker])
  | leaving execution => exact hallowed (.leave i) rfl trivial (by simp [next, hworker, hfree])
  | failing execution => exact absurd rfl (hlive.2 execution)
  | dead => exact absurd rfl hlive.1

theorem putting_of_puts {x : ExecutionId} (h : w.puts x = 1) :
    ∃ call, w.putting = some call ∧ call.execution = x := by
  unfold puts at h
  split_ifs at h with hputs
  exact Option.map_eq_some_iff.mp hputs

/-- A caller that holds the lock keeps it until it has put its execution into the queue. -/
theorem puts_step {x : ExecutionId} (hx : w.puts x = 1) (h : Stepped w a w') :
    (w'.puts x = 1 ∨ x ∈ w'.queue) ∧ (a = .put → x ∈ w'.queue) := by
  obtain ⟨held, hheld, rfl⟩ := putting_of_puts hx
  cases h with
  | called accepting calls results ha hput => exact ⟨Or.inl hx, fun heq => absurd heq hput⟩
  | answered c call =>
    rw [answer_eq]
    exact ⟨Or.inl hx, nofun⟩
  | entered c call free =>
    rw [hheld] at free
    cases free
  | put call hcall =>
    obtain rfl : held = call := Option.some.inj (hheld.symm.trans hcall)
    have hmem : held.execution ∈ w.queue ++ [held.execution] := by simp
    rw [answer_eq]
    exact ⟨Or.inr hmem, fun _ => hmem⟩
  | took | started | finished | raised | left => exact ⟨Or.inl hx, nofun⟩

/-- A worker keeps the execution it took until it starts a run of it. -/
theorem taken_step {x : ExecutionId} {i : ℕ} (hx : w.workers[i]? = some (.claimed x))
    (h : Stepped w a w') :
    (w'.workers[i]? = some (.claimed x) ∨ ¬ w'.Owed x) ∧ (OfWorker i a → ¬ w'.Owed x) := by
  have hsame : ∀ {u : ActionScheduler} {j : ℕ} {old new : WorkerPhase}, u.workers = w.workers →
      w.workers[j]? = some old → j ≠ i →
      (u.setWorker j new).workers[i]? = some (.claimed x) := by
    intro u j old new hworkers hold hji
    rw [getElem?_setWorker (hworkers ▸ hold), if_neg hji, hworkers]
    exact hx
  have hother : ∀ {j : ℕ} {old : WorkerPhase}, w.workers[j]? = some old → old ≠ .claimed x →
      j ≠ i := by
    rintro j old hold hne rfl
    exact hne (Option.some.inj (hold.symm.trans hx))
  cases h with
  | called accepting calls results ha hput =>
    refine ⟨Or.inl hx, fun hown => ?_⟩
    cases a <;> simp [OfWorker] at hown ha
  | answered | put =>
    rw [answer_eq]
    exact ⟨Or.inl hx, fun hown => absurd hown id⟩
  | entered => exact ⟨Or.inl hx, fun hown => absurd hown id⟩
  | took j execution rest worker =>
    have hji := hother worker (by simp)
    exact ⟨Or.inl (hsame (u := { w with queue := rest }) rfl worker hji),
      fun hown => absurd hown hji⟩
  | started j execution worker free =>
    by_cases hji : j = i
    · subst hji
      obtain rfl : execution = x := by
        rw [hx] at worker
        cases worker
        rfl
      have hnot : ¬ (({ w with
          queued := w.queued.erase execution
          active := insert execution w.active
          notes := .started execution :: w.notes } : ActionScheduler).setWorker j
            (.running execution)).Owed execution := by
        simp [Owed, setWorker, SchedulerNote.execution]
      exact ⟨Or.inr hnot, fun _ => hnot⟩
    · exact ⟨Or.inl (hsame (u := { w with
          queued := w.queued.erase execution
          active := insert execution w.active
          notes := .started execution :: w.notes }) rfl worker hji), fun hown => absurd hown hji⟩
  | finished j execution status calls results worker =>
    have hji := hother worker (by simp)
    exact ⟨Or.inl (hsame (u := { w with calls, results }) rfl worker hji),
      fun hown => absurd hown hji⟩
  | raised j execution worker =>
    have hji := hother worker (by simp)
    exact ⟨Or.inl (hsame rfl worker hji), fun hown => absurd hown hji⟩
  | left j execution old new worker free phases =>
    have hji := hother worker (by rcases phases with ⟨rfl, -⟩ | ⟨rfl, -⟩ <;> simp)
    exact ⟨Or.inl (hsame (u := { w with active := w.active.erase execution }) rfl worker hji),
      fun hown => absurd hown hji⟩

/-- A queued execution is in the queue, taken by a worker, or about to be put. -/
theorem Consistent.placed (hw : w.Consistent) {x : ExecutionId} (hx : x ∈ w.queued) :
    (x ∈ w.queue ∨ w.Taken x) ∨ w.puts x = 1 := by
  have hqueued := hw.queued x
  rw [if_pos hx] at hqueued
  by_cases hqueue : x ∈ w.queue
  · exact Or.inl (Or.inl hqueue)
  · by_cases hclaims : w.claims x = 0
    · rw [List.count_eq_zero_of_not_mem hqueue] at hqueued
      exact Or.inr (by omega)
    · obtain ⟨phase, hmem, hphase⟩ := List.countP_pos_iff.mp (Nat.pos_of_ne_zero hclaims)
      obtain ⟨i, hi⟩ := List.mem_iff_getElem?.mp hmem
      refine Or.inl (Or.inr ⟨i, ?_⟩)
      cases phase <;> simp [claimed] at hphase
      rw [hi, hphase]

/-- An execution that is fair to every worker and to whoever holds the lock. -/
structure FairlyScheduled (e : Execution (Under C Steps)) : Prop where
  worker : ∀ i, e.Fair (OfWorker i)
  put : e.Fair (· = .put)

section Progress

variable {e : Execution (Under C Steps)} {P Q : ActionScheduler → Prop}

/-- While a condition is only left for another, the lock becomes free or that one holds. -/
theorem leadsTo_free (hC : Allows C) (hfair : FairlyScheduled e)
    (hkeep : ∀ n, P (e.state n) → P (e.state (n + 1)) ∨ Q (e.state (n + 1))) :
    e.LeadsTo P fun w => (P w ∧ w.putting = none) ∨ Q w := by
  refine Execution.leadsTo_of_fair hfair.put (fun n hP => ?_) (fun n hP hput => ?_) fun n hP => ?_
  · exact (hkeep n hP).imp_right Or.inr
  · obtain ⟨call, -, hnext⟩ := Option.map_eq_some_iff.mp (hput ▸ (e.steps n).2)
    have hfree : (e.state (n + 1)).putting = none := by
      rw [← hnext, answer_eq]
    exact (hkeep n hP).imp_left fun hP' => ⟨hP', hfree⟩
  · refine ⟨n, Nat.le_refl n, ?_⟩
    by_cases hfree : (e.state n).putting = none
    · exact Or.inr (Or.inl ⟨hP, hfree⟩)
    · obtain ⟨call, hcall⟩ := Option.ne_none_iff_exists'.mp hfree
      exact Or.inl (canStep_of_isSome rfl (hC.put _) (by simp [next, hcall]))

theorem leadsTo_taken (hC : Allows C) (hfair : FairlyScheduled e)
    (hsound : ∀ n, (e.state n).Sound concurrency) (hpos : 0 < concurrency) (x : ExecutionId) :
    e.LeadsTo (fun w => x ∈ w.queue) (Taken x) := by
  refine Execution.leadsTo_of_rank (distance x 0) fun k => ?_
  have hkeep : ∀ n, (x ∈ (e.state n).queue ∧ (e.state n).distance x 0 = k) →
      (x ∈ (e.state (n + 1)).queue ∧ (e.state (n + 1)).distance x 0 = k) ∨
        ((e.state (n + 1)).Taken x ∨
          x ∈ (e.state (n + 1)).queue ∧ (e.state (n + 1)).distance x 0 < k) := by
    rintro n ⟨hx, rfl⟩
    rcases distance_step 0 hx (stepped_of_next (e.steps n).2) with
      htaken | ⟨hx', hle, -⟩
    · exact Or.inr (Or.inl htaken)
    · rcases Nat.lt_or_eq_of_le hle with hlt | heq
      · exact Or.inr (Or.inr ⟨hx', hlt⟩)
      · exact Or.inl ⟨hx', heq⟩
  refine Execution.leadsTo_of_fair (hfair.worker 0) hkeep ?_ ?_
  · rintro n ⟨hx, rfl⟩ hown
    exact (distance_step 0 hx (stepped_of_next (e.steps n).2)).imp_right
      fun ⟨hx', _, hlt⟩ => ⟨hx', hlt hown⟩
  · refine (leadsTo_free (Q := fun w => w.Taken x ∨ x ∈ w.queue ∧ w.distance x 0 < k)
      hC hfair hkeep).trans (.of_imp fun n hn => ?_)
    refine hn.imp_left fun hwaits => ?_
    obtain ⟨⟨hx, -⟩, hfree⟩ := hwaits
    obtain ⟨hlength, hlive⟩ := hsound n
    have hworker : (e.state n).workers[0]? = some (e.state n).workers[0] :=
      List.getElem?_eq_getElem (by omega)
    exact canStep_worker hC hworker (hlive _ (List.getElem_mem _)) hfree (List.ne_nil_of_mem hx)

/-- A caller that holds the lock puts its execution into the queue in the end. -/
theorem leadsTo_queued (hC : Allows C) (hfair : FairlyScheduled e) (x : ExecutionId) :
    e.LeadsTo (fun w => w.puts x = 1) fun w => x ∈ w.queue := by
  refine Execution.leadsTo_of_fair hfair.put (fun n hn => ?_) (fun n hn hput => ?_) fun n hn => ?_
  · exact (puts_step hn (stepped_of_next (e.steps n).2)).1
  · exact (puts_step hn (stepped_of_next (e.steps n).2)).2 hput
  · obtain ⟨call, hheld, -⟩ := putting_of_puts hn
    exact ⟨n, Nat.le_refl n, Or.inl (canStep_of_isSome rfl (hC.put _) (by simp [next, hheld]))⟩

theorem leadsTo_started (hC : Allows C) (hfair : FairlyScheduled e) (x : ExecutionId) :
    e.LeadsTo (Taken x) fun w => ¬ w.Owed x := by
  rintro n ⟨i, hi⟩
  have hkeep : ∀ n, (e.state n).workers[i]? = some (.claimed x) →
      (e.state (n + 1)).workers[i]? = some (.claimed x) ∨ ¬ (e.state (n + 1)).Owed x :=
    fun n hn => (taken_step hn (stepped_of_next (e.steps n).2)).1
  refine Execution.leadsTo_of_fair (P := fun w => w.workers[i]? = some (.claimed x))
    (Q := fun w => ¬ w.Owed x) (hfair.worker i) hkeep (fun n hn hown => ?_) ?_ n hi
  · exact (taken_step hn (stepped_of_next (e.steps n).2)).2 hown
  · refine (leadsTo_free (P := fun w => w.workers[i]? = some (.claimed x))
      (Q := fun w => ¬ w.Owed x) hC hfair hkeep).trans (.of_imp fun n hn => ?_)
    refine hn.imp_left fun hwaits => ?_
    exact canStep_of_isSome (a := .start i) rfl (hC.worker _ i _ rfl trivial)
      (by simp [next, hwaits.1, hwaits.2])

theorem leadsTo_not_owed (hC : Allows C) (hfair : FairlyScheduled e)
    (hsound : ∀ n, (e.state n).Sound concurrency) (hpos : 0 < concurrency)
    (hconsistent : ∀ n, (e.state n).Consistent) (hawaited : ∀ n, (e.state n).Awaited)
    (x : ExecutionId) : e.LeadsTo (fun w => w.Owed x) fun w => ¬ w.Owed x := by
  have hqueue := leadsTo_taken hC hfair hsound hpos x
  have hplaced : e.LeadsTo (fun w => w.Owed x) fun w => (x ∈ w.queue ∨ w.Taken x) ∨ w.puts x = 1 :=
    .of_imp fun n howed => (hconsistent n).placed (hawaited n x howed)
  refine (hplaced.trans ?_).trans (leadsTo_started hC hfair x)
  exact (hqueue.or (.of_imp fun _ h => h)).or ((leadsTo_queued hC hfair x).trans hqueue)

end Progress

theorem allows_noRaise : Allows NoRaise where
  noRaise _ _ h := h
  worker _ _ _ _ h := h
  put _ := trivial

/-- Every resume is heeded and no run raises. -/
def Undisturbed (w : ActionScheduler) (a : SchedulerStep) : Prop := w.Heeded a ∧ w.NoRaise a

instance (w : ActionScheduler) (a : SchedulerStep) : Decidable (w.Undisturbed a) :=
  inferInstanceAs (Decidable (_ ∧ _))

theorem allows_undisturbed : Allows Undisturbed where
  noRaise _ _ h := h.2
  worker w i a hown h := by
    refine ⟨?_, h⟩
    cases a <;> trivial
  put _ := ⟨trivial, trivial⟩

/-- An execution has one worker at most and is in the queue once at most. Where every resume
is heeded, no run is owed to an execution nothing is under way about; and where no run raises
either, an execution that is resumed is started afterwards. -/
theorem resumes_followed (concurrency : ℕ) (hpos : 0 < concurrency) :
    (∀ ls w, Run Steps (ofConcurrency concurrency) ls w → w.Exclusive) ∧
    (∀ ls w, Run (Under Heeded Steps) (ofConcurrency concurrency) ls w →
      ∀ x, w.Quiescent x → ¬ w.Owed x) ∧
    ∀ e : Execution (Under Undisturbed Steps), e.state 0 = ofConcurrency concurrency →
      FairlyScheduled e → ∀ x, e.LeadsTo (fun w => w.Owed x) fun w => ¬ w.Owed x := by
  refine ⟨fun ls w h => (run_consistent h).exclusive,
    fun ls w h x hquiet howed => hquiet.1 (run_awaited h x howed), fun e hstart hfair x => ?_⟩
  have hinv : ∀ n, (e.state n).Consistent ∧ (e.state n).Awaited ∧
    (e.state n).Sound concurrency := by
    refine Execution.invariant
      (I := fun w : ActionScheduler => w.Consistent ∧ w.Awaited ∧ w.Sound concurrency) ?_ ?_
    · intro w a w' hw hstep
      have hstepped := stepped_of_next hstep.2
      exact ⟨hw.1.step hstepped, hw.2.1.step hw.1.queued_of_putting hstep.1.1 hstepped,
        hw.2.2.step hstep.1.2 hstepped⟩
    · rw [hstart]
      exact ⟨ofConcurrency_consistent concurrency, by simp [Awaited, Owed, ofConcurrency],
        ofConcurrency_sound concurrency⟩
  exact leadsTo_not_owed allows_undisturbed hfair (fun n => (hinv n).2.2) hpos
    (fun n => (hinv n).1) (fun n => (hinv n).2.1) x

def resumedRun : List SchedulerStep :=
  [.resume 7, .forget 0, .enter 0, .put, .take 0, .start 0, .finish 0 .needsInput, .leave 0, .stop]

/-- Where nothing is queued, nobody holds the lock and every worker is idle, no worker and no
caller at the lock has anything to do. -/
theorem fairlyScheduled_of_idle {e : Execution (Under C Steps)} {N : ℕ}
    (h : ∀ n, N ≤ n → (e.state n).queue = [] ∧ (e.state n).putting = none ∧
      ∀ phase ∈ (e.state n).workers, phase = .idle) : FairlyScheduled e := by
  refine ⟨fun i => Execution.fair_of_never (N := N) fun n hn hcan => ?_,
    Execution.fair_of_never (N := N) fun n hn hcan => ?_⟩
  · obtain ⟨hqueue, -, hidle⟩ := h n hn
    obtain ⟨a, w', hown, -, hstep⟩ := hcan
    have hphase : ∀ phase, (e.state n).workers[i]? = some phase → phase = .idle :=
      fun phase hi => hidle phase (List.mem_of_getElem? hi)
    cases stepped_of_next hstep with
    | called _ _ _ ha => cases a <;> simp [OfWorker] at hown ha
    | answered | entered | put => exact absurd hown id
    | took j execution rest worker head =>
      rw [hqueue] at head
      cases head
    | started j execution worker =>
      cases hown
      cases hphase _ worker
    | finished j execution status calls results worker =>
      cases hown
      cases hphase _ worker
    | raised j execution worker =>
      cases hown
      cases hphase _ worker
    | left j execution old new worker free phases =>
      cases hown
      rcases phases with ⟨rfl, -⟩ | ⟨rfl, -⟩ <;> cases hphase _ worker
  · obtain ⟨-, hfree, -⟩ := h n hn
    obtain ⟨a, w', rfl, -, hstep⟩ := hcan
    cases stepped_of_next hstep with
    | called _ _ _ _ hput => exact hput rfl
    | put call held =>
      rw [hfree] at held
      cases held

theorem resumedRun_isSome :
    (follow (guarded Undisturbed next) resumedRun (ofConcurrency 1)).isSome = true := by
  decide

def resumedExecution : Execution (Under Undisturbed Steps) :=
  (Execution.ofTrace (guarded Undisturbed next) resumedRun .stop (ofConcurrency 1) _
    (Option.some_get resumedRun_isSome).symm rfl).mono (under_of_guarded Undisturbed)

theorem resumedExecution_idle {n : ℕ} (hn : 9 ≤ n) :
    (resumedExecution.state n).queue = [] ∧ (resumedExecution.state n).putting = none ∧
      ∀ phase ∈ (resumedExecution.state n).workers, phase = .idle := by
  have hlast := Execution.states_eq_last (Option.some_get resumedRun_isSome).symm hn
  rw [show resumedExecution.state n = _ from hlast]
  exact ⟨rfl, rfl, by decide⟩

theorem resumedExecution_followed :
    (resumedExecution.state 4).Owed 7 ∧ ∃ m, 4 ≤ m ∧ ¬ (resumedExecution.state m).Owed 7 :=
  ⟨by decide, (resumes_followed 1 (by decide)).2.2 resumedExecution rfl
    (fairlyScheduled_of_idle fun _ => resumedExecution_idle) 7 4 (by decide)⟩

/-- Execution 7 is resumed after its run committed that it needs input and before its worker
has left it: the resume returns, and nothing is left to start a run. -/
def resumedTooEarly : List SchedulerStep :=
  [.enqueue 7, .enter 0, .put, .take 0, .start 0, .resume 7, .forget 0, .enter 0,
    .finish 0 .needsInput, .leave 0]

theorem not_resumes_followed :
    ∃ w, Run Steps (ofConcurrency 1) resumedTooEarly w ∧ w.accepting = true ∧
      w.Quiescent 7 ∧ w.Owed 7 :=
  ⟨_, run_to_get next resumedTooEarly (ofConcurrency 1) (by decide), by decide, by decide,
    by decide⟩

/-- Where no run raises, every worker stays alive, and in a fair execution a worker takes each
execution in the queue. -/
theorem workers_survive (concurrency : ℕ) (hpos : 0 < concurrency) :
    (∀ ls w, Run (Under NoRaise Steps) (ofConcurrency concurrency) ls w →
      w.liveWorkers = concurrency) ∧
    ∀ e : Execution (Under NoRaise Steps), e.state 0 = ofConcurrency concurrency →
      FairlyScheduled e → ∀ x, e.LeadsTo (fun w => x ∈ w.queue) (Taken x) := by
  have hstep : ∀ w a w', w.Sound concurrency → Under NoRaise Steps w a w' →
      w'.Sound concurrency :=
    fun w a w' hw h => hw.step h.1 (stepped_of_next h.2)
  refine ⟨fun ls w h => (h.invariant hstep (ofConcurrency_sound concurrency)).liveWorkers,
    fun e hstart hfair x => ?_⟩
  have hsound : (e.state 0).Sound concurrency := hstart ▸ ofConcurrency_sound concurrency
  exact leadsTo_taken allows_noRaise hfair (Execution.invariant hstep hsound) hpos x

theorem resumedExecution_taken :
    7 ∈ (resumedExecution.state 4).queue ∧ ∃ m, 4 ≤ m ∧ (resumedExecution.state m).Taken 7 := by
  refine ⟨by decide, ?_⟩
  exact (workers_survive 1 (by decide)).2
    (resumedExecution.mono fun w a w' h => ⟨h.1.2, h.2⟩) rfl
    (fairlyScheduled_of_idle fun _ => resumedExecution_idle) 7 4 (by decide)

def runningExecution : Db where
  executions := (Table.empty.insert
    { id := 7, sessionId := 1, profile := .actionRun, rootExecutionId := 7, goal := "file the task"
      status := .executing, createdAt := 0, statusDeclared := by decide }).getD .empty

/-- A run of execution 7 raises, since failing it raises where the user cancelled it after it
was read; its worker is the only one, and execution 8 stays in the queue for good. -/
theorem not_workers_survive :
    (∃ running cancelled failing, runningExecution.getExecution 7 = some running ∧
      isTerminalExecutionStatus running.profile running.status = false ∧
      cancelAssistantExecution 7 1 1 runningExecution = .ok cancelled ∧
      failActionRun 7 2 cancelled.2 = .error failing) ∧
    ∃ w, Run Steps (ofConcurrency 1)
        [.enqueue 7, .enter 0, .put, .take 0, .start 0, .raise 0, .leave 0, .enqueue 8, .enter 0,
          .put] w ∧
      w.accepting = true ∧ w.queue = [8] ∧ w.liveWorkers = 0 :=
  ⟨⟨_, _, _, rfl, rfl, rfl, rfl⟩, _, run_to_get next _ (ofConcurrency 1) (by decide), by decide,
    by decide, by decide⟩

end ActionScheduler
end Assistant
end Matinier
