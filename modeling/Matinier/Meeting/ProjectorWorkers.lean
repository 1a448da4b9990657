import Matinier.Meeting.AnalysisFence
import Matinier.Meeting.ProjectorLoop

/-!
# The workers of the projector

A worker takes a session from the queue and projects a batch of it. Whatever raises until the batch
is committed is judged, and leads to a retry. What raises behind that is caught by nothing: it
ends the worker, and no other one takes its place. Where nothing does, all workers stay, a session
whose batch is over is free again, and the next poll queues it once its delay is over.
-/

namespace Matinier
namespace Meeting

open Assistant

namespace Stage

def batchOf : Stage → Option SessionId
  | .requiring s _ | .reading s _ | .judging s _ _ | .recording s _ _ | .draining s _
  | .resolving (.worker _) s | .settling (.worker _) s _ _ _ => some s
  | .extracting job => some job.sessionId
  | _ => none

/-- What is raised here is caught by nothing in the worker. -/
def uncaught : Stage → Bool
  | .judging _ _ _ | .draining _ _ | .resolving (.worker _) _ | .settling (.worker _) _ _ _ _
  | .rescheduling _ _ => true
  | _ => false

/-- The exception is on its way out of the worker. -/
def escapes : Stage → Bool
  | .rescheduling _ escaped => escaped
  | _ => false

def isScheduling : Stage → Bool
  | .scheduling _ _ => true
  | _ => false

/-- The call is one with which captions are looked for or read, or a target is registered. -/
def Looks : Stage → Prop
  | .freezing _ _ _ | .admitting _ _ _ | .finishing _ _ _ | .querying _ | .observing _ _ _
  | .skipping _ _ _ _ | .registering _ _ _ | .buffering _ _ _ _ _ => True
  | _ => False

theorem Looks.not_worker {st : Stage} (h : st.Looks) : st.isWorker = false ∧ st.batchOf = none := by
  cases st with
  | freezing | admitting | finishing | querying | observing | skipping | registering
  | buffering => exact ⟨rfl, rfl⟩
  | _ => exact absurd h id

end Stage

def LoopAction.isRaise : LoopAction → Bool
  | .raises _ => true
  | _ => false

namespace LoopWorld

section Frame

variable {cfg : LoopConfig} {w w' : LoopWorld} {st : Stage}

theorem betweenTurns_eq_some {after : Option LoopWorld} :
    w.betweenTurns after = some w' ↔ w.running = true ∧ w.stage = none ∧ after = some w' := by
  unfold betweenTurns
  split_ifs with h
  · simp [h.1, Option.isNone_iff_eq_none.mp h.2]
  · constructor
    · intro hnone
      cases hnone
    · rintro ⟨hrun, hst, -⟩
      exact absurd ⟨hrun, Option.isNone_iff_eq_none.mpr hst⟩ h

theorem scheduleIfReady_eq (cfg : LoopConfig) (w : LoopWorld) (s : SessionId) (force : Bool) :
    ∃ buffers scheduled waiters settlements,
      w.scheduleIfReady cfg s force = { w with buffers, scheduled, waiters, settlements } := by
  unfold scheduleIfReady enqueue
  split
  · exact ⟨_, _, _, _, rfl⟩
  · split_ifs <;> exact ⟨_, _, _, _, rfl⟩

/-- Where captions are looked for, the workers and their batches are left alone, and so is what is
buffered, until that is what a poll or a request comes to. -/
theorem proceed_looks (hlooks : st.Looks) (h : w.proceed cfg st = some w') :
    (∃ db stage cursor seen waiters targets,
      w' = { w with db, stage, cursor, seen, waiters, targets } ∧ ∀ next ∈ stage, next.Looks) ∨
    ∃ bufferer snapshots read since, st = .buffering bufferer snapshots [] read since := by
  cases st with
  | freezing ids left frozen =>
    cases left <;> cases h <;> exact Or.inl ⟨_, _, _, _, _, _, rfl, by simp [Stage.Looks]⟩
  | admitting ids left found =>
    cases left <;> cases h <;> exact Or.inl ⟨_, _, _, _, _, _, rfl, by simp [Stage.Looks]⟩
  | finishing left finished found =>
    cases h
    unfold finishNext
    split
    · exact Or.inl ⟨_, _, _, _, _, _, rfl, by simp [Stage.Looks]⟩
    · split
      · exact Or.inl ⟨_, _, _, _, _, _, rfl, by simp [Stage.Looks]⟩
      · split
        · exact Or.inl ⟨_, _, _, _, _, _, rfl, by simp [Stage.Looks]⟩
        · split <;> exact Or.inl ⟨_, _, _, _, _, _, rfl, by simp [Stage.Looks]⟩
  | querying admissions =>
    cases h
    exact Or.inl ⟨_, _, _, _, _, _, rfl, by simp [Stage.Looks]⟩
  | observing admissions records finalizing =>
    cases h
    exact Or.inl ⟨_, _, _, _, _, _, rfl, by simp [Stage.Looks, validate]⟩
  | skipping reader snapshots invalid left =>
    replace h : w.skip cfg reader snapshots invalid left = some w' := h
    unfold skip at h
    split at h
    · split at h <;> cases h <;>
        exact Or.inl ⟨_, _, _, _, _, _, rfl, by simp [Stage.Looks, LoopWorld.buffering]⟩
    · split at h
      · cases h
        exact Or.inl ⟨_, _, _, _, _, _, rfl, by simp [Stage.Looks]⟩
      · split at h <;> cases h <;>
          exact Or.inl ⟨_, _, _, _, _, _, rfl, by simp [Stage.Looks]⟩
  | registering sessionId targetRevisions snapshots =>
    cases h
    unfold requireTarget
    dsimp only
    split
    · exact Or.inl ⟨_, _, _, _, _, _, rfl, by simp⟩
    · split_ifs
      · exact Or.inl ⟨_, _, _, _, _, _, rfl, by simp [Stage.Looks, LoopWorld.buffering]⟩
      · exact Or.inl ⟨_, _, _, _, _, _, rfl, by simp⟩
  | buffering bufferer snapshots left read since =>
    cases left with
    | nil => exact Or.inr ⟨_, _, _, _, rfl⟩
    | cons s left =>
      cases h
      exact Or.inl ⟨_, _, _, _, _, _, rfl, by simp [Stage.Looks]⟩
  | _ => exact absurd hlooks id

end Frame

section Staffed

variable (cfg : LoopConfig) (w : LoopWorld)

/-- The workers that have not ended: those that wait, and the one whose turn it is. -/
def workers : ℕ :=
  w.idle + w.jobs.length + if ∃ stage ∈ w.stage, stage.isWorker = true then 1 else 0

/-- A batch of the session is with the model, or its turn is under way. -/
def AtWork (s : SessionId) : Prop :=
  (∃ job ∈ w.jobs, job.sessionId = s) ∨ ∃ stage ∈ w.stage, stage.batchOf = some s

/-- Nothing raises where no handler of the worker catches it. -/
def Caught (a : LoopAction) : Prop :=
  a.isRaise = true → ∀ stage ∈ w.stage, stage.uncaught = false

instance (a : LoopAction) : Decidable (w.Caught a) :=
  inferInstanceAs (Decidable (_ → ∀ stage ∈ w.stage, _))

/-- All workers are there, and a session is in flight only while its batch is worked on. -/
structure Staffed : Prop where
  workers : w.running = true → w.workers = cfg.concurrency
  stopped : w.running = false → w.stage = none ∧ w.jobs = []
  calm : ∀ s, w.stage ≠ some (.rescheduling s true)
  inflight : ∀ s, w.inflight s = true → w.AtWork s

variable {cfg w} {w' : LoopWorld} {st st' : Stage} {s : SessionId}

theorem workers_of_worker (h : w.stage = some st) (hworker : st.isWorker = true) :
    w.workers = w.idle + w.jobs.length + 1 := by
  simp [workers, h, hworker]

namespace Staffed

/-- The workers and the batches stay as they are, and so does the turn, for what they go. -/
theorem outside (h : Staffed cfg w) (hrunning : w'.running = w.running) (hidle : w'.idle = w.idle)
    (hjobs : w'.jobs = w.jobs) (hinflight : w'.inflight = w.inflight)
    (hst : ∀ st ∈ w.stage, st.isWorker = false ∧ st.batchOf = none)
    (hst' : ∀ st ∈ w'.stage, st.isWorker = false ∧ st.batchOf = none)
    (hstage : w.running = false → w.stage = none → w'.stage = none) : Staffed cfg w' := by
  constructor
  · intro hrun
    have hworkers := h.workers (hrunning ▸ hrun)
    have hbusy : ¬ ∃ st ∈ w.stage, st.isWorker = true := by
      rintro ⟨st, hmem, hworker⟩
      rw [(hst st hmem).1] at hworker
      cases hworker
    have hbusy' : ¬ ∃ st ∈ w'.stage, st.isWorker = true := by
      rintro ⟨st, hmem, hworker⟩
      rw [(hst' st hmem).1] at hworker
      cases hworker
    rw [LoopWorld.workers, if_neg hbusy] at hworkers
    rw [LoopWorld.workers, if_neg hbusy', hidle, hjobs]
    exact hworkers
  · intro hrun
    obtain ⟨hnone, hempty⟩ := h.stopped (hrunning ▸ hrun)
    exact ⟨hstage (hrunning ▸ hrun) hnone, hjobs.trans hempty⟩
  · intro s hresched
    have hworker := (hst' _ hresched).1
    cases hworker
  · intro s hs
    rw [hinflight] at hs
    rcases h.inflight s hs with ⟨job, hjob, hsession⟩ | ⟨st, hmem, hbatch⟩
    · exact Or.inl ⟨job, hjobs ▸ hjob, hsession⟩
    · rw [(hst st hmem).2] at hbatch
      cases hbatch

theorem onward (h : Staffed cfg w) (hrunning : w'.running = w.running) (hidle : w'.idle = w.idle)
    (hjobs : w'.jobs = w.jobs) (hinflight : w'.inflight = w.inflight) (hst : w.stage = some st)
    (hst' : w'.stage = some st') (hworker : st.isWorker = true) (hworker' : st'.isWorker = true)
    (hcalm : st'.escapes = false) (hbatch : st'.batchOf = st.batchOf) :
    Staffed cfg w' := by
  constructor
  · intro hrun
    have hworkers := h.workers (hrunning ▸ hrun)
    rw [workers_of_worker hst hworker] at hworkers
    rw [workers_of_worker hst' hworker', hidle, hjobs]
    exact hworkers
  · intro hrun
    have hstopped := (h.stopped (hrunning ▸ hrun)).1
    rw [hst] at hstopped
    cases hstopped
  · intro s hresched
    obtain rfl := Option.some.inj (hst'.symm.trans hresched)
    cases hcalm
  · intro s hs
    rw [hinflight] at hs
    rcases h.inflight s hs with ⟨job, hjob, hsession⟩ | ⟨stage, hmem, hof⟩
    · exact Or.inl ⟨job, hjobs ▸ hjob, hsession⟩
    · obtain rfl : st = stage := Option.some.inj (hst.symm.trans hmem)
      exact Or.inr ⟨st', hst', hbatch.trans hof⟩

theorem left (h : Staffed cfg w) (hrunning : w'.running = w.running) (hidle : w'.idle = w.idle)
    (hjobs : w'.jobs = w.jobs) (hinflight : w'.inflight = Function.update w.inflight s false)
    (hst : w.stage = some st) (hst' : w'.stage = some (.rescheduling s false))
    (hworker : st.isWorker = true) (hbatch : st.batchOf = some s) : Staffed cfg w' := by
  constructor
  · intro hrun
    have hworkers := h.workers (hrunning ▸ hrun)
    rw [workers_of_worker hst hworker] at hworkers
    rw [workers_of_worker hst' rfl, hidle, hjobs]
    exact hworkers
  · intro hrun
    have hstopped := (h.stopped (hrunning ▸ hrun)).1
    rw [hst] at hstopped
    cases hstopped
  · intro t hresched
    cases hst'.symm.trans hresched
  · intro t ht
    rw [hinflight] at ht
    have hne : t ≠ s := by
      rintro rfl
      rw [Function.update_self] at ht
      cases ht
    rw [Function.update_of_ne hne] at ht
    rcases h.inflight t ht with ⟨job, hjob, hsession⟩ | ⟨stage, hmem, hof⟩
    · exact Or.inl ⟨job, hjobs ▸ hjob, hsession⟩
    · obtain rfl : st = stage := Option.some.inj (hst.symm.trans hmem)
      exact absurd (Option.some.inj (hof.symm.trans hbatch)) hne

theorem deny (h : Staffed cfg w) {epoch : ℕ} (hst : w.stage = some st)
    (hworker : st.isWorker = true) (hbatch : st.batchOf = some s) :
    Staffed cfg (w.deny s epoch) :=
  h.left rfl rfl rfl rfl hst rfl hworker hbatch

theorem proceed (h : Staffed cfg w) (hst : w.stage = some st) (hstep : w.proceed cfg st = some w') :
    Staffed cfg w' := by
  have hbegun : w.running = false → False := by
    intro hrun
    have hstopped := (h.stopped hrun).1
    rw [hst] at hstopped
    cases hstopped
  -- A turn that is no worker's leaves the workers as they are.
  have hlooks : st.Looks → Staffed cfg w' := by
    intro hlooks
    have hstage : ∀ stage ∈ w.stage, stage.isWorker = false ∧ stage.batchOf = none := by
      intro stage hmem
      obtain rfl : st = stage := Option.some.inj (hst.symm.trans hmem)
      exact hlooks.not_worker
    rcases proceed_looks hlooks hstep with
      ⟨db, stage, cursor, seen, waiters, targets, rfl, hnext⟩ |
        ⟨bufferer, snapshots, read, since, rfl⟩
    · exact h.outside rfl rfl rfl rfl hstage (fun next hmem => (hnext next hmem).not_worker)
        fun hrun _ => (hbegun hrun).elim
    · cases hstep
      cases bufferer with
      | poll finalizing =>
        refine h.outside rfl rfl rfl rfl hstage ?_ fun hrun _ => (hbegun hrun).elim
        simp [buffer, Stage.isWorker, Stage.batchOf]
      | request target =>
        refine h.outside rfl rfl rfl rfl hstage ?_ fun hrun _ => (hbegun hrun).elim
        simp [buffer, Stage.isWorker, Stage.batchOf]
  cases st with
  | freezing | admitting | finishing | querying | observing | skipping | registering
  | buffering => exact hlooks trivial
  | scheduling left since =>
    cases hstep
    cases left with
    | nil =>
      refine h.outside rfl rfl rfl rfl ?_ ?_ fun hrun _ => (hbegun hrun).elim
      · simp [hst, Stage.isWorker, Stage.batchOf]
      · simp [schedule, pause]
    | cons s left =>
      obtain ⟨buffers, scheduled, waiters, settlements, heq⟩ := scheduleIfReady_eq cfg w s false
      rw [schedule, heq]
      refine h.outside rfl rfl rfl rfl ?_ ?_ fun hrun _ => (hbegun hrun).elim
      · simp [hst, Stage.isWorker, Stage.batchOf]
      · simp [goTo, Stage.isWorker, Stage.batchOf]
  | forcing s =>
    cases hstep
    obtain ⟨buffers, scheduled, waiters, settlements, heq⟩ := scheduleIfReady_eq cfg w s true
    rw [heq]
    refine h.outside rfl rfl rfl rfl ?_ ?_ fun hrun _ => (hbegun hrun).elim
    · simp [hst, Stage.isWorker, Stage.batchOf]
    · simp [pause]
  | requiring s epoch =>
    simp only [LoopWorld.proceed] at hstep
    split_ifs at hstep
    · cases hstep
      exact h.onward rfl rfl rfl rfl hst rfl rfl rfl rfl rfl
    · cases hstep
      exact h.deny hst rfl rfl
  | reading s epoch =>
    cases hstep
    unfold LoopWorld.read
    dsimp only
    split
    · exact h.left rfl rfl rfl rfl hst rfl rfl rfl
    · exact h.onward rfl rfl rfl rfl hst rfl rfl rfl rfl rfl
  | extracting job =>
    simp only [LoopWorld.proceed, hand] at hstep
    split_ifs at hstep
    · -- The worker now waits for the model.
      cases hstep
      constructor
      · intro hrun
        have hworkers := h.workers hrun
        rw [workers_of_worker hst rfl] at hworkers
        simp [LoopWorld.workers]
        omega
      · exact fun hrun => (hbegun hrun).elim
      · intro _ hresched
        cases hresched
      · intro s hs
        rcases h.inflight s hs with ⟨old, hold, hsession⟩ | ⟨stage, hmem, hof⟩
        · exact Or.inl ⟨old, List.mem_append_left _ hold, hsession⟩
        · obtain rfl := Option.some.inj (hst.symm.trans hmem)
          exact Or.inl ⟨job, List.mem_append_right _ (List.mem_singleton.mpr rfl),
            Option.some.inj hof⟩
    · cases hstep
      exact h.deny hst rfl rfl
  | judging s epoch errorCode =>
    cases hstep
    unfold judge
    split_ifs
    · split
      · exact h.left rfl rfl rfl rfl hst rfl rfl rfl
      · exact h.onward rfl rfl rfl rfl hst rfl rfl rfl rfl rfl
    · exact h.deny hst rfl rfl
  | recording s epoch errorCode =>
    cases hstep
    exact h.left rfl rfl rfl rfl hst rfl rfl rfl
  | draining s epoch =>
    cases hstep
    exact h.left rfl rfl rfl rfl hst rfl rfl rfl
  | rescheduling s escaped =>
    cases escaped with
    | true => exact absurd hst (h.calm s)
    | false =>
      cases hstep
      obtain ⟨buffers, scheduled, waiters, settlements, heq⟩ := scheduleIfReady_eq cfg w s false
      rw [reschedule, heq]
      constructor
      · intro hrun
        have hworkers := h.workers hrun
        rw [workers_of_worker hst rfl] at hworkers
        simp [LoopWorld.workers]
        omega
      · exact fun hrun => (hbegun hrun).elim
      · intro _ hresched
        cases hresched
      · intro t ht
        rcases h.inflight t ht with hjob | ⟨stage, hmem, hof⟩
        · exact Or.inl hjob
        · obtain rfl := Option.some.inj (hst.symm.trans hmem)
          cases hof
  | resolving resolver s =>
    cases hstep
    unfold resolve
    cases resolver with
    | worker epoch =>
      split_ifs
      · exact h.onward rfl rfl rfl rfl hst rfl rfl rfl rfl rfl
      · exact h.onward rfl rfl rfl rfl hst rfl rfl rfl rfl rfl
    | request target =>
      have hstage : ∀ stage ∈ w.stage, stage.isWorker = false ∧ stage.batchOf = none := by
        simp [hst, Stage.isWorker, Stage.batchOf]
      split_ifs
      · unfold resolved
        dsimp only
        split_ifs
        · exact h.outside rfl rfl rfl rfl hstage (fun _ hmem => by cases hmem) fun hrun _ =>
            (hbegun hrun).elim
        · refine h.outside rfl rfl rfl rfl hstage ?_ fun hrun _ => (hbegun hrun).elim
          simp [goTo, Stage.isWorker, Stage.batchOf]
      · refine h.outside rfl rfl rfl rfl hstage ?_ fun hrun _ => (hbegun hrun).elim
        simp [goTo, Stage.isWorker, Stage.batchOf]
  | settling resolver s processed stateVersion sourceFrontier =>
    cases hstep
    cases resolver with
    | worker epoch => exact h.onward rfl rfl rfl rfl hst rfl rfl rfl rfl rfl
    | request target =>
      have hstage : ∀ stage ∈ w.stage, stage.isWorker = false ∧ stage.batchOf = none := by
        simp [hst, Stage.isWorker, Stage.batchOf]
      unfold resolved
      dsimp only
      split_ifs
      · exact h.outside rfl rfl rfl rfl hstage (fun _ hmem => by cases hmem) fun hrun _ =>
          (hbegun hrun).elim
      · refine h.outside rfl rfl rfl rfl hstage ?_ fun hrun _ => (hbegun hrun).elim
        simp [goTo, Stage.isWorker, Stage.batchOf]

theorem raise (h : Staffed cfg w) {errorCode : String} (hst : w.stage = some st)
    (hcaught : st.uncaught = false) : Staffed cfg (w.raise errorCode st) := by
  -- The turn of a poll or a request ends.
  have hends : st.isWorker = false → st.batchOf = none → Staffed cfg w.pause := by
    intro hworker hbatch
    refine h.outside rfl rfl rfl rfl (fun stage hmem => ?_)
      (fun _ hmem => by cases hmem) fun _ _ => rfl
    obtain rfl := Option.some.inj (hst.symm.trans hmem)
    exact ⟨hworker, hbatch⟩
  cases st with
  | requiring s epoch | reading s epoch | extracting job =>
    exact h.onward rfl rfl rfl rfl hst rfl rfl rfl rfl rfl
  | recording s epoch code => exact h.left rfl rfl rfl rfl hst rfl rfl rfl
  | judging | draining | rescheduling => cases hcaught
  | resolving resolver s =>
    cases resolver with
    | worker epoch => cases hcaught
    | request target => exact hends rfl rfl
  | settling resolver s processed stateVersion sourceFrontier =>
    cases resolver with
    | worker epoch => cases hcaught
    | request target => exact hends rfl rfl
  | _ => exact hends rfl rfl

theorem commit (h : Staffed cfg w) {job : BatchJob} (hst : w.stage = some (.extracting job))
    (hstep : w.commit cfg job = some w') : Staffed cfg w' := by
  unfold LoopWorld.commit at hstep
  obtain ⟨delta, -, hstep⟩ := Option.bind_eq_some_iff.mp hstep
  split at hstep
  · cases hstep
    exact h.onward rfl rfl rfl rfl hst rfl rfl rfl rfl rfl
  · cases hstep
    exact h.deny hst rfl rfl
  · cases hstep

theorem take (h : Staffed cfg w) (hrun : w.running = true) (hst : w.stage = none)
    (hstep : w.take s = some w') : Staffed cfg w' := by
  have hnone : ∀ stage ∈ w.stage, stage.isWorker = false ∧ stage.batchOf = none := by simp [hst]
  have hidle : ∀ {v : LoopWorld}, v.running = w.running → v.idle = w.idle → v.jobs = w.jobs →
      v.inflight = w.inflight → v.stage = w.stage → Staffed cfg v := by
    intro v hrunning hidle hjobs hinflight hstage
    refine h.outside hrunning hidle hjobs hinflight hnone ?_ fun _ _ => ?_
    · rw [hstage]
      exact hnone
    · rw [hstage]
      exact hst
  unfold LoopWorld.take at hstep
  split_ifs at hstep with hready
  dsimp only at hstep
  split at hstep
  · cases hstep
    exact hidle rfl rfl rfl rfl rfl
  · rename_i b hb
    split_ifs at hstep
    · cases hstep
      exact hidle rfl rfl rfl rfl rfl
    · -- The worker is busy with the session from here on.
      have hbusy : ∀ {v : LoopWorld} {stage : Stage}, v.running = w.running →
          v.idle = w.idle - 1 → v.jobs = w.jobs → v.stage = some stage →
          stage.isWorker = true → stage.escapes = false →
          (∀ t, v.inflight t = true → w.inflight t = true ∨ stage.batchOf = some t) →
          Staffed cfg v := by
        intro v stage hrunning hidle hjobs hstage hworker hcalm hinflight
        constructor
        · intro _
          have hworkers := h.workers hrun
          rw [LoopWorld.workers, hst] at hworkers
          rw [workers_of_worker hstage hworker, hidle, hjobs]
          simp at hworkers
          omega
        · intro hstopped
          rw [hrunning, hrun] at hstopped
          cases hstopped
        · intro t hresched
          obtain rfl := Option.some.inj (hstage.symm.trans hresched)
          cases hcalm
        · intro t ht
          rcases hinflight t ht with hold | hof
          · rcases h.inflight t hold with ⟨job, hjob, hsession⟩ | ⟨stage, hmem, -⟩
            · exact Or.inl ⟨job, hjobs ▸ hjob, hsession⟩
            · rw [hst] at hmem
              cases hmem
          · exact Or.inr ⟨stage, hstage, hof⟩
      split at hstep
      · cases hstep
        refine hbusy rfl rfl rfl rfl rfl rfl fun t ht => Or.inl ?_
        simp only [leave, discardBuffer, Function.update_apply] at ht
        split_ifs at ht
        exact ht
      · cases hstep
        refine hbusy rfl rfl rfl rfl rfl rfl fun t ht => ?_
        simp only [goTo, Function.update_apply] at ht
        split_ifs at ht with hs
        · exact Or.inr (congrArg some hs.symm)
        · exact Or.inl ht

theorem resume (h : Staffed cfg w) (hst : w.stage = none) {stage : BatchJob → Option Stage}
    (hstage : ∀ job next, stage job = some next → next.isWorker = true ∧
      next.escapes = false ∧ next.batchOf = some job.sessionId)
    (hrun : w.running = true) (hstep : w.resume s stage = some w') : Staffed cfg w' := by
  obtain ⟨job, hjob, hstep⟩ := Option.bind_eq_some_iff.mp hstep
  obtain ⟨next, hnext, rfl⟩ := Option.map_eq_some_iff.mp hstep
  obtain ⟨hworker, hcalm, hbatch⟩ := hstage job next hnext
  have hmem : job ∈ w.jobs := List.mem_of_find?_eq_some hjob
  have hsession : job.sessionId = s := by simpa using List.find?_some hjob
  constructor
  · intro _
    have hworkers := h.workers hrun
    have hlength : (w.jobs.eraseP fun job => job.sessionId = s).length = w.jobs.length - 1 :=
      List.length_eraseP_of_mem hmem (decide_eq_true hsession)
    have hpos : 0 < w.jobs.length := List.length_pos_of_mem hmem
    rw [LoopWorld.workers, hst] at hworkers
    rw [workers_of_worker rfl hworker, hlength]
    change w.idle + (w.jobs.length - 1) + 1 = cfg.concurrency
    simp at hworkers
    omega
  · intro hstopped
    rw [hrun] at hstopped
    cases hstopped
  · intro t hresched
    obtain rfl := Option.some.inj hresched
    cases hcalm
  · intro t ht
    by_cases hts : t = s
    · exact Or.inr ⟨next, rfl, hbatch.trans (congrArg some (hsession.trans hts.symm))⟩
    · rcases h.inflight t ht with ⟨other, hother, hof⟩ | ⟨stage, hmem, -⟩
      · refine Or.inl ⟨other, (List.mem_eraseP_of_neg ?_).mpr hother, hof⟩
        rw [hof]
        simp [hts]
      · rw [hst] at hmem
        cases hmem

theorem step (h : Staffed cfg w) {a : LoopAction} (hcaught : w.Caught a)
    (hstep : Steps cfg w a w') : Staffed cfg w' := by
  unfold Steps at hstep
  have hnone : w.stage = none →
      ∀ stage ∈ w.stage, stage.isWorker = false ∧ stage.batchOf = none := by
    intro hst
    simp [hst]
  cases a with
  | host action =>
    simp only [next] at hstep
    split_ifs at hstep
    obtain ⟨v, -, rfl⟩ := Option.map_eq_some_iff.mp hstep
    exact ⟨h.workers, h.stopped, h.calm, h.inflight⟩
  | caption caption =>
    cases hstep
    exact ⟨h.workers, h.stopped, h.calm, h.inflight⟩
  | ticks now loopTime =>
    simp only [next] at hstep
    split_ifs at hstep
    cases hstep
    exact ⟨h.workers, h.stopped, h.calm, h.inflight⟩
  | starts =>
    simp only [next, start] at hstep
    split_ifs at hstep with hrun
    cases hstep
    rw [not_or] at hrun
    obtain ⟨hst, hjobs⟩ := h.stopped (Bool.eq_false_iff.mpr hrun.1)
    refine ⟨fun _ => ?_, fun hstopped => ?_, fun s hresched => ?_, h.inflight⟩
    · simp [LoopWorld.workers, hst, hjobs]
    · cases hstopped
    · cases hst.symm.trans hresched
  | stops =>
    obtain ⟨-, hst, hafter⟩ := betweenTurns_eq_some.mp hstep
    cases hafter
    refine ⟨fun hrun => ?_, fun _ => ⟨hst, rfl⟩, fun s hresched => ?_, fun s hs => ?_⟩
    · cases hrun
    · cases hst.symm.trans hresched
    · cases hs
  | polls =>
    obtain ⟨hrun, hst, hafter⟩ := betweenTurns_eq_some.mp hstep
    cases hafter
    unfold poll
    dsimp only
    split_ifs
    · refine h.outside rfl rfl rfl rfl (hnone hst) ?_ fun hstopped _ => ?_
      · simp [goTo, Stage.isWorker, Stage.batchOf]
      · rw [hrun] at hstopped
        cases hstopped
    · exact h
  | requests s =>
    obtain ⟨hrun, hst, hafter⟩ := betweenTurns_eq_some.mp hstep
    unfold request at hafter
    dsimp only at hafter
    split_ifs at hafter
    cases hafter
    refine h.outside rfl rfl rfl rfl (hnone hst) ?_ fun hstopped _ => ?_
    · simp [goTo, validate, Stage.isWorker, Stage.batchOf]
    · rw [hrun] at hstopped
      cases hstopped
  | takes s =>
    obtain ⟨hrun, hst, hafter⟩ := betweenTurns_eq_some.mp hstep
    exact h.take hrun hst hafter
  | answers s payload =>
    obtain ⟨hrun, hst, hafter⟩ := betweenTurns_eq_some.mp hstep
    refine h.resume hst (fun job next hnext => ?_) hrun hafter
    obtain ⟨delta, -, rfl⟩ := Option.map_eq_some_iff.mp hnext
    exact ⟨rfl, rfl, rfl⟩
  | fails s errorCode =>
    obtain ⟨hrun, hst, hafter⟩ := betweenTurns_eq_some.mp hstep
    refine h.resume hst (fun job next hnext => ?_) hrun hafter
    cases hnext
    exact ⟨rfl, rfl, rfl⟩
  | proceeds =>
    obtain ⟨st, hst, hproceed⟩ := Option.bind_eq_some_iff.mp hstep
    exact h.proceed hst hproceed
  | commits =>
    simp only [next] at hstep
    split at hstep
    · rename_i job hst
      exact h.commit hst hstep
    · cases hstep
  | raises errorCode =>
    obtain ⟨st, hst, rfl⟩ := Option.map_eq_some_iff.mp hstep
    exact h.raise hst (hcaught rfl st hst)

end Staffed

end Staffed

section Timed

def Timed (b : PendingBuffer) : Prop := b.segments ≠ [] → ∃ since, b.firstPendingAt = some since

def AllTimed (buffers : Buffers) : Prop := ∀ s b, buffers.lookup s = some b → Timed b

variable {cfg : LoopConfig} {buffers : Buffers} {b : PendingBuffer}

theorem AllTimed.put (h : AllTimed buffers) {s : SessionId} {b? : Option PendingBuffer}
    (hb : ∀ b ∈ b?, Timed b) : AllTimed (buffers.put s b?) := by
  intro t b hlookup
  by_cases hts : t = s
  · subst hts
    rw [Buffers.lookup_put_self] at hlookup
    exact hb b hlookup
  · rw [Buffers.lookup_put_ne _ hts] at hlookup
    exact h t b hlookup

theorem Timed.add (h : Timed b) (now : Instant) (segment : ProjectionSegment) :
    Timed (b.add now segment) := by
  intro _
  by_cases hempty : b.segments = []
  · exact ⟨now, by simp [PendingBuffer.add, hempty]⟩
  · obtain ⟨since, hsince⟩ := h hempty
    exact ⟨since, by simp [PendingBuffer.add, hempty, hsince]⟩

theorem Timed.acknowledged (b : PendingBuffer) (now : Instant) (batch : List ProjectionSegment) :
    Timed (b.acknowledged now batch) := by
  intro hleft
  exact ⟨now, if_neg hleft⟩

/-- A caption that is buffered waits from now on, or with those that are there. -/
theorem bufferSegment_timed {now : Instant} {admission : AnalysisAdmission}
    {b? : Option PendingBuffer} {segment : ProjectionSegment} (h : ∀ b ∈ b?, Timed b) :
    ∀ b ∈ bufferSegment now admission b? segment, Timed b := by
  intro b hb
  unfold bufferSegment at hb
  split_ifs at hb with hpermits
  · have hkept : Timed ((b?.filter fun b => b.analysisEpoch = admission.analysisEpoch).getD
        { analysisEpoch := admission.analysisEpoch }) := by
      cases hfilter : b?.filter fun b => b.analysisEpoch = admission.analysisEpoch with
      | none => exact fun hne => absurd rfl hne
      | some kept => exact h kept (Option.filter_eq_some_iff.mp hfilter).1
    cases hb
    split_ifs
    · exact hkept.add now segment
    · exact hkept
  · exact h b hb

theorem bufferCaptions_timed {now : Instant} {read : SessionId → AnalysisAdmission}
    {segments : List ProjectionSegment} (h : AllTimed buffers) :
    AllTimed (bufferCaptions now read segments buffers) := by
  induction segments generalizing buffers with
  | nil => exact h
  | cons segment rest ih =>
    exact ih (h.put (bufferSegment_timed fun b hb => h _ b hb))

theorem markFinalizing_timed {sessions : List SessionId} (h : AllTimed buffers) :
    AllTimed (markFinalizing sessions buffers) := by
  induction sessions generalizing buffers with
  | nil => exact h
  | cons s rest ih =>
    apply ih
    show AllTimed (buffers.put s (some { (buffers.lookup s).getD {} with finalizing := true }))
    apply h.put
    intro b hb
    cases hb
    cases hlookup : buffers.lookup s with
    | none => exact fun hne => absurd rfl hne
    | some old => exact h s old hlookup

theorem adopt_timed {target : CatchUpTarget} (h : AllTimed buffers) :
    AllTimed (adopt target buffers) := by
  show AllTimed (buffers.put _ (some _))
  apply h.put
  intro b hb
  cases hb
  cases hlookup : buffers.lookup target.sessionId with
  | none => exact fun hne => absurd rfl hne
  | some old => exact h _ old hlookup

variable {w w' : LoopWorld} {s : SessionId}

theorem discardBuffer_timed (h : AllTimed w.buffers) (epoch : Option ℕ) :
    AllTimed (w.discardBuffer s epoch).buffers :=
  h.put fun b hb => h s b (Option.filter_eq_some_iff.mp hb).1

theorem scheduleIfReady_timed (h : AllTimed w.buffers) (force : Bool) :
    AllTimed (w.scheduleIfReady cfg s force).buffers := by
  unfold scheduleIfReady enqueue
  split
  · exact h
  · split_ifs
    all_goals first
      | exact h
      | exact discardBuffer_timed h _

theorem proceed_timed {st : Stage} (h : AllTimed w.buffers) (hstep : w.proceed cfg st = some w') :
    AllTimed w'.buffers := by
  have hlooks : st.Looks → AllTimed w'.buffers := by
    intro hlooks
    rcases proceed_looks hlooks hstep with
      ⟨db, stage, cursor, seen, waiters, targets, rfl, -⟩ | ⟨bufferer, snapshots, read, since, rfl⟩
    · exact h
    · cases hstep
      cases bufferer with
      | poll finalizing => exact markFinalizing_timed (bufferCaptions_timed h)
      | request target => exact adopt_timed (bufferCaptions_timed h)
  cases st with
  | freezing | admitting | finishing | querying | observing | skipping | registering
  | buffering => exact hlooks trivial
  | scheduling left since =>
    cases hstep
    cases left with
    | nil => exact h
    | cons s left => exact scheduleIfReady_timed h false
  | forcing s =>
    cases hstep
    exact scheduleIfReady_timed h true
  | requiring s epoch =>
    simp only [LoopWorld.proceed] at hstep
    split_ifs at hstep <;> cases hstep
    · exact h
    · exact discardBuffer_timed h _
  | reading s epoch =>
    cases hstep
    unfold LoopWorld.read
    dsimp only
    split <;> exact h
  | extracting job =>
    simp only [LoopWorld.proceed, hand] at hstep
    split_ifs at hstep <;> cases hstep
    · exact h
    · exact discardBuffer_timed h _
  | judging s epoch errorCode =>
    cases hstep
    unfold judge
    split_ifs
    · split
      · exact h
      · rename_i b hb
        show AllTimed (Buffers.put _ _ (some _))
        apply h.put
        intro delayed hdelayed
        cases hdelayed
        exact h s b (Option.filter_eq_some_iff.mp hb).1
    · exact discardBuffer_timed h _
  | recording s epoch errorCode =>
    cases hstep
    exact h
  | draining s epoch =>
    cases hstep
    exact h
  | rescheduling s escaped =>
    cases hstep
    exact scheduleIfReady_timed h false
  | resolving resolver s =>
    cases hstep
    unfold resolve resolved
    split_ifs
    · split
      · exact h
      · split_ifs <;> exact h
    · exact h
  | settling resolver s processed stateVersion sourceFrontier =>
    cases hstep
    unfold resolved
    split
    · exact h
    · split_ifs <;> exact h

theorem take_timed (h : AllTimed w.buffers) (hstep : w.take s = some w') : AllTimed w'.buffers := by
  unfold take at hstep
  split_ifs at hstep
  dsimp only at hstep
  split at hstep
  · cases hstep
    exact h
  · split_ifs at hstep
    · cases hstep
      exact h
    · split at hstep <;> cases hstep
      · exact discardBuffer_timed (w := { w with
          scheduled := _, idle := _, inflight := _ }) h none
      · exact h

/-- In whatever step, what is buffered is known to wait since some time. -/
theorem step_timed {a : LoopAction} (h : AllTimed w.buffers) (hstep : Steps cfg w a w') :
    AllTimed w'.buffers := by
  unfold Steps at hstep
  cases a with
  | host action =>
    simp only [next] at hstep
    split_ifs at hstep
    obtain ⟨v, -, rfl⟩ := Option.map_eq_some_iff.mp hstep
    exact h
  | caption caption =>
    cases hstep
    exact h
  | ticks now loopTime =>
    simp only [next] at hstep
    split_ifs at hstep
    cases hstep
    exact h
  | starts =>
    simp only [next, start] at hstep
    split_ifs at hstep
    cases hstep
    exact h
  | stops =>
    obtain ⟨-, -, hafter⟩ := betweenTurns_eq_some.mp hstep
    cases hafter
    exact fun s b hlookup => by cases hlookup
  | polls =>
    obtain ⟨-, -, hafter⟩ := betweenTurns_eq_some.mp hstep
    cases hafter
    unfold poll
    dsimp only
    split_ifs <;> exact h
  | requests s =>
    obtain ⟨-, -, hafter⟩ := betweenTurns_eq_some.mp hstep
    unfold request at hafter
    dsimp only at hafter
    split_ifs at hafter
    cases hafter
    exact h
  | takes s => exact take_timed h (betweenTurns_eq_some.mp hstep).2.2
  | answers s payload | fails s errorCode =>
    obtain ⟨job, -, hstep⟩ := Option.bind_eq_some_iff.mp (betweenTurns_eq_some.mp hstep).2.2
    obtain ⟨next, -, rfl⟩ := Option.map_eq_some_iff.mp hstep
    exact h
  | proceeds =>
    obtain ⟨st, -, hproceed⟩ := Option.bind_eq_some_iff.mp hstep
    exact proceed_timed h hproceed
  | commits =>
    simp only [next] at hstep
    split at hstep
    · unfold commit at hstep
      obtain ⟨delta, -, hstep⟩ := Option.bind_eq_some_iff.mp hstep
      split at hstep <;> cases hstep
      · apply h.put
        intro b hb
        obtain ⟨old, hold, rfl⟩ := Option.map_eq_some_iff.mp hb
        split_ifs
        · exact Timed.acknowledged old _ _
        · exact h _ old hold
      · exact discardBuffer_timed h _
    · cases hstep
  | raises errorCode =>
    obtain ⟨st, -, rfl⟩ := Option.map_eq_some_iff.mp hstep
    unfold raise
    split <;> exact h

end Timed

section Passes

/-- The captions of a buffer are to be projected at a time, and its delay is over by then. -/
def Due (cfg : LoopConfig) (since : Instant) (b : PendingBuffer) : Prop :=
  b.segments ≠ [] ∧ b.retryAt ≤ since ∧ b.Ready cfg since b.priorityRequested

variable {cfg : LoopConfig} {w w' : LoopWorld} {b : PendingBuffer} {since now : Instant}

theorem Due.later (h : Due cfg since b) (hle : since ≤ now) : Due cfg now b := by
  obtain ⟨hne, hretry, hready⟩ := h
  refine ⟨hne, Nat.le_trans hretry hle, ?_⟩
  have hage : b.age since ≤ b.age now := by
    unfold PendingBuffer.age
    split
    · exact Nat.sub_le_sub_right hle _
    · exact Nat.le_refl _
  rcases hready with hpriority | hfinalizing | hmany | hlong | hold
  · exact Or.inl hpriority
  · exact Or.inr (Or.inl hfinalizing)
  · exact Or.inr (Or.inr (Or.inl hmany))
  · exact Or.inr (Or.inr (Or.inr (Or.inl hlong)))
  · exact Or.inr (Or.inr (Or.inr (Or.inr (Nat.le_trans hold hage))))

theorem Timed.comes_due (h : Timed b) (hne : b.segments ≠ []) :
    ∃ first, ∀ since, b.retryAt ≤ since → first + cfg.maxBatchWait ≤ since → Due cfg since b := by
  obtain ⟨first, hfirst⟩ := h hne
  refine ⟨first, fun since hretry hwaited => ⟨hne, hretry, ?_⟩⟩
  have hage : cfg.maxBatchWait ≤ b.age since := by
    simp only [PendingBuffer.age, hfirst]
    exact Nat.le_sub_of_add_le' hwaited
  exact Or.inr (Or.inr (Or.inr (Or.inr hage)))

/-- The sessions a poll has been through are queued where they were due as it came to schedule, or
are in flight. -/
def Passed (cfg : LoopConfig) (w : LoopWorld) : Prop :=
  ∀ left since, w.stage = some (.scheduling left since) → since ≤ w.loopTime ∧
    ∀ s b, s ∉ left → w.buffers.lookup s = some b → Due cfg since b →
      w.inflight s = true ∨ (w.scheduled s).isSome = true

theorem Passed.of_stage (h : w.stage.any Stage.isScheduling = false) : Passed cfg w := by
  intro left since hst
  rw [hst] at h
  cases h

theorem enqueue_queues (w : LoopWorld) (s : SessionId) (priority : Bool) :
    ((w.enqueue s priority).scheduled s).isSome = true := by
  unfold enqueue
  split_ifs with hqueued
  · rcases hqueued with hqueued | hqueued <;> simp [hqueued]
  · simp

theorem scheduleIfReady_queues {s : SessionId}
    (hb : (w.scheduleIfReady cfg s false).buffers.lookup s = some b)
    (hdue : Due cfg w.loopTime b) (hfree : w.inflight s = false) :
    ((w.scheduleIfReady cfg s false).scheduled s).isSome = true := by
  obtain ⟨hne, hretry, hready⟩ := hdue
  unfold scheduleIfReady at hb ⊢
  cases hold : w.buffers.lookup s with
  | none =>
    simp only [hold] at hb
    cases hb
  | some old =>
    simp only [hold] at hb ⊢
    by_cases hpermits : (w.db.admission cfg.policy s).PermitsBuffer old
    · simp only [hpermits, not_true_eq_false, if_false] at hb ⊢
      have hsame : b = old := by
        split_ifs at hb
        · exact Option.some.inj (hb.symm.trans hold)
        · unfold enqueue at hb
          split_ifs at hb <;> exact Option.some.inj (hb.symm.trans hold)
        · exact Option.some.inj (hb.symm.trans hold)
      subst hsame
      have hbusy : ¬ (b.segments = [] ∨ w.inflight s = true ∨ w.loopTime < b.retryAt) := by
        rintro (hempty | hinflight | hlate)
        · exact hne hempty
        · rw [hfree] at hinflight
          cases hinflight
        · exact absurd hretry (Nat.not_le_of_lt hlate)
      rw [if_neg hbusy, if_pos (by simpa using hready)]
      exact enqueue_queues w s _
    · -- The buffer was given up, so it is not there to be due.
      simp only [hpermits, not_false_eq_true, if_true, discardBuffer,
        Buffers.lookup_put_self, hold] at hb
      rw [Option.filter_some, if_neg (by simp)] at hb
      cases hb

theorem scheduleIfReady_others {s t : SessionId} (hne : t ≠ s) (force : Bool) :
    (w.scheduleIfReady cfg s force).buffers.lookup t = w.buffers.lookup t ∧
      (w.scheduleIfReady cfg s force).scheduled t = w.scheduled t := by
  unfold scheduleIfReady
  split
  · exact ⟨rfl, rfl⟩
  · split_ifs
    · exact ⟨rfl, rfl⟩
    · unfold enqueue
      split_ifs
      · exact ⟨rfl, rfl⟩
      · exact ⟨rfl, Function.update_of_ne hne _ _⟩
    · exact ⟨rfl, rfl⟩
    · exact ⟨Buffers.lookup_put_ne _ hne _, rfl⟩

theorem Passed.proceed {st : Stage} (h : Passed cfg w) (hst : w.stage = some st)
    (hstep : w.proceed cfg st = some w') : Passed cfg w' := by
  have hlooks : st.Looks → Passed cfg w' := by
    intro hlooks
    rcases proceed_looks hlooks hstep with
      ⟨db, stage, cursor, seen, waiters, targets, rfl, hnext⟩ |
        ⟨bufferer, snapshots, read, since, rfl⟩
    · exact fun left since hst => (hnext _ hst).elim
    · cases hstep
      cases bufferer with
      | poll finalizing =>
        rintro left since hst
        cases hst
        refine ⟨Nat.le_refl _, fun s b hs hb _ => ?_⟩
        exact absurd (AList.lookup_isSome.mp (Option.isSome_of_mem hb)) hs
      | request target => exact .of_stage rfl
  cases st with
  | freezing | admitting | finishing | querying | observing | skipping | registering
  | buffering => exact hlooks trivial
  | scheduling left since =>
    cases hstep
    obtain ⟨hle, hpassed⟩ := h left since hst
    cases left with
    | nil => exact .of_stage rfl
    | cons s left =>
      rintro left' since' hst'
      cases hst'
      obtain ⟨buffers, scheduled, waiters, settlements, heq⟩ := scheduleIfReady_eq cfg w s false
      have hframe : (w.scheduleIfReady cfg s false).loopTime = w.loopTime ∧
          (w.scheduleIfReady cfg s false).inflight = w.inflight := by
        rw [heq]
        exact ⟨rfl, rfl⟩
      refine ⟨hle.trans_eq hframe.1.symm, fun t b ht hb hdue => ?_⟩
      change (w.scheduleIfReady cfg s false).inflight t = true ∨ _
      rw [hframe.2]
      by_cases hts : t = s
      · subst hts
        cases hfree : w.inflight t with
        | true => exact Or.inl rfl
        | false => exact Or.inr (scheduleIfReady_queues hb (hdue.later hle) hfree)
      · obtain ⟨hbuffer, hscheduled⟩ :
            (w.scheduleIfReady cfg s false).buffers.lookup t = w.buffers.lookup t ∧
              (w.scheduleIfReady cfg s false).scheduled t = w.scheduled t :=
          scheduleIfReady_others hts false
        have hold := hpassed t b (by simp [hts, ht]) (hbuffer.symm.trans hb) hdue
        exact hold.imp_right fun hqueued => hscheduled.symm ▸ hqueued
  | forcing s =>
    cases hstep
    exact .of_stage rfl
  | requiring s epoch =>
    simp only [LoopWorld.proceed] at hstep
    split_ifs at hstep <;> cases hstep <;> exact .of_stage rfl
  | reading s epoch =>
    cases hstep
    unfold LoopWorld.read
    dsimp only
    split <;> exact .of_stage rfl
  | extracting job =>
    simp only [LoopWorld.proceed, hand] at hstep
    split_ifs at hstep <;> cases hstep <;> exact .of_stage rfl
  | judging s epoch errorCode =>
    cases hstep
    unfold judge
    split_ifs
    · split <;> exact .of_stage rfl
    · exact .of_stage rfl
  | recording | draining | rescheduling =>
    cases hstep
    exact .of_stage rfl
  | resolving resolver s =>
    cases hstep
    unfold resolve resolved
    split_ifs
    · split
      · exact .of_stage rfl
      · split_ifs <;> exact .of_stage rfl
    · exact .of_stage rfl
  | settling resolver s processed stateVersion sourceFrontier =>
    cases hstep
    unfold resolved
    split
    · exact .of_stage rfl
    · split_ifs <;> exact .of_stage rfl

theorem Passed.step {a : LoopAction} (h : Passed cfg w) (hstep : Steps cfg w a w') :
    Passed cfg w' := by
  unfold Steps at hstep
  have hpaused : w.stage = none → w'.stage = w.stage → Passed cfg w' := by
    intro hst hsame left since hst'
    rw [hsame, hst] at hst'
    cases hst'
  cases a with
  | host action =>
    simp only [next] at hstep
    split_ifs at hstep
    obtain ⟨v, -, rfl⟩ := Option.map_eq_some_iff.mp hstep
    exact h
  | caption caption =>
    cases hstep
    exact h
  | ticks now loopTime =>
    simp only [next] at hstep
    split_ifs at hstep with hle
    cases hstep
    intro left since hst
    obtain ⟨hbefore, hpassed⟩ := h left since hst
    exact ⟨Nat.le_trans hbefore hle.2, hpassed⟩
  | starts =>
    simp only [next, start] at hstep
    split_ifs at hstep
    cases hstep
    exact h
  | stops =>
    obtain ⟨-, hst, hafter⟩ := betweenTurns_eq_some.mp hstep
    cases hafter
    exact hpaused hst rfl
  | polls =>
    obtain ⟨-, hst, hafter⟩ := betweenTurns_eq_some.mp hstep
    cases hafter
    unfold poll
    dsimp only
    split_ifs
    · exact .of_stage rfl
    · exact h
  | requests s =>
    obtain ⟨-, -, hafter⟩ := betweenTurns_eq_some.mp hstep
    unfold request at hafter
    dsimp only at hafter
    split_ifs at hafter
    cases hafter
    exact .of_stage rfl
  | takes s =>
    obtain ⟨-, hst, hafter⟩ := betweenTurns_eq_some.mp hstep
    unfold take at hafter
    split_ifs at hafter
    dsimp only at hafter
    split at hafter
    · cases hafter
      exact hpaused hst rfl
    · split_ifs at hafter
      · cases hafter
        exact hpaused hst rfl
      · split at hafter <;> cases hafter <;> exact .of_stage rfl
  | answers s payload =>
    obtain ⟨job, -, hstep⟩ := Option.bind_eq_some_iff.mp (betweenTurns_eq_some.mp hstep).2.2
    obtain ⟨next, hnext, rfl⟩ := Option.map_eq_some_iff.mp hstep
    obtain ⟨delta, -, rfl⟩ := Option.map_eq_some_iff.mp hnext
    exact .of_stage rfl
  | fails s errorCode =>
    obtain ⟨job, -, hstep⟩ := Option.bind_eq_some_iff.mp (betweenTurns_eq_some.mp hstep).2.2
    cases hstep
    exact .of_stage rfl
  | proceeds =>
    obtain ⟨st, hst, hproceed⟩ := Option.bind_eq_some_iff.mp hstep
    exact h.proceed hst hproceed
  | commits =>
    simp only [next] at hstep
    split at hstep
    · unfold commit at hstep
      obtain ⟨delta, -, hstep⟩ := Option.bind_eq_some_iff.mp hstep
      split at hstep <;> cases hstep <;> exact .of_stage rfl
    · cases hstep
  | raises errorCode =>
    obtain ⟨st, -, rfl⟩ := Option.map_eq_some_iff.mp hstep
    unfold raise
    split <;> exact .of_stage rfl

end Passes

/-- Nothing has been started, and nothing is buffered. -/
structure Fresh (w : LoopWorld) : Prop where
  running : w.running = false
  stage : w.stage = none
  jobs : w.jobs = []
  buffers : w.buffers = ∅
  inflight : ∀ s, w.inflight s = false

section Keeps

variable {cfg : LoopConfig} {w w' : LoopWorld}

theorem Fresh.staffed (h : w.Fresh) : Staffed cfg w := by
  constructor
  · intro hrun
    rw [h.running] at hrun
    cases hrun
  · exact fun _ => ⟨h.stage, h.jobs⟩
  · intro s hresched
    rw [h.stage] at hresched
    cases hresched
  · intro s hs
    rw [h.inflight s] at hs
    cases hs

theorem Fresh.timed (h : w.Fresh) : AllTimed w.buffers := by
  intro s b hlookup
  rw [h.buffers] at hlookup
  cases hlookup

theorem Fresh.passed (h : w.Fresh) : Passed cfg w := by
  intro left since hst
  rw [h.stage] at hst
  cases hst

/-- In every run in which nothing raises where no handler of the worker catches it: while the
projector runs, all its workers are there; a session is in flight only while its batch is worked on;
and what is buffered comes due, and is queued by a poll then or in flight. -/
theorem projector_keeps_working {as : List LoopAction} (hfresh : w.Fresh)
    (hrun : Run (Under Caught (Steps cfg)) w as w') :
    (w'.running = true → w'.workers = cfg.concurrency) ∧
    (∀ s, w'.inflight s = true → w'.AtWork s) ∧
    (∀ s b, w'.buffers.lookup s = some b → b.segments ≠ [] → ∃ first, ∀ since,
      b.retryAt ≤ since → first + cfg.maxBatchWait ≤ since → Due cfg since b) ∧
    (∀ since s b, w'.stage = some (.scheduling [] since) → w'.buffers.lookup s = some b →
      Due cfg since b → w'.inflight s = true ∨ (w'.scheduled s).isSome = true) := by
  have hstaffed : Staffed cfg w' :=
    hrun.invariant (fun _ _ _ h hstep => h.step hstep.1 hstep.2) hfresh.staffed
  have htimed : AllTimed w'.buffers :=
    hrun.invariant (I := fun v => AllTimed v.buffers) (fun _ _ _ h hstep => step_timed h hstep.2)
      hfresh.timed
  have hpassed : Passed cfg w' :=
    hrun.invariant (fun _ _ _ h hstep => Passed.step h hstep.2) hfresh.passed
  refine ⟨hstaffed.workers, hstaffed.inflight, fun s b hlookup hne => ?_,
    fun since s b hst hlookup hdue => ?_⟩
  · exact (htimed s b hlookup).comes_due hne
  · exact (hpassed [] since hst).2 s b List.not_mem_nil hlookup hdue

end Keeps
end LoopWorld

def plainLoop : LoopConfig :=
  { plainProjector with limits_pos := by decide, delays_pos := by decide }

/-- A loop that has not been started, over a database without any meeting. -/
def quietLoop : LoopWorld where
  db := { meeting := { host := analysingHost } }

theorem quietLoop_fresh : quietLoop.Fresh := ⟨rfl, rfl, rfl, rfl, fun _ => rfl⟩

def spokenTrace : List LoopAction :=
  [.host (.session ⟨1, .active⟩), .host (.ensureSession 1 1 "1.0.0"),
    .host (.confirmActivation 1), .caption spokenCaption, .starts]

def failedTrace : List LoopAction :=
  spokenTrace ++ .requests 1 :: List.replicate 7 .proceeds ++
    [.takes 1, .raises "projection_OperationalError"]

theorem failedTrace_caught :
    (follow (guarded LoopWorld.Caught fun w => w.next plainLoop) failedTrace quietLoop).isSome =
      true := by
  decide +kernel

def failedLoop : LoopWorld := Option.get _ failedTrace_caught

/-- All workers are there while the failure is judged. -/
theorem failedLoop_works : failedLoop.workers = 2 ∧
    (failedLoop.running = true → failedLoop.workers = plainLoop.concurrency) := by
  have hrun := run_under_to_get _ _ _ _ failedTrace_caught
  exact ⟨by decide +kernel, (LoopWorld.projector_keeps_working quietLoop_fresh hrun).1⟩

def escapedTrace : List LoopAction :=
  failedTrace ++ [.raises "projection_OperationalError", .proceeds]

theorem escapedTrace_taken :
    (follow (fun w a => LoopWorld.next plainLoop w a) escapedTrace quietLoop).isSome = true := by
  decide +kernel

def escapedLoop : LoopWorld := Option.get _ escapedTrace_taken

/-- One of the two workers is gone, while the projector still runs and no turn is under way. -/
theorem escapedLoop_lost :
    Run (LoopWorld.Steps plainLoop) quietLoop escapedTrace escapedLoop ∧
      escapedLoop.running = true ∧ escapedLoop.stage.isNone = true ∧ escapedLoop.workers = 1 ∧
      plainLoop.concurrency = 2 :=
  ⟨run_to_get _ _ _ escapedTrace_taken, by decide +kernel, by decide +kernel, by decide +kernel,
    rfl⟩

end Meeting
end Matinier
