import Matinier.Foundation.JsonText
import Matinier.Foundation.Table

/-!
# Processing jobs

The table of processing jobs. A job is queued, runs, and ends in one of three ways. Each change of
status looks at the status before it, and does nothing where that is not one it may follow.

Workers take the submitted jobs from a queue, each with a task of its own that runs the job. A job
is marked as running in one transaction, and its artifact is added and the job completed in
another one, with the workflow between them. Every transaction and every wait is a step here, with
whatever it raises, and steps of different parties follow each other in any order. Besides what
is stored and what the process knows, the statuses that were stored and the artifacts that were
added, stored or not, are written down.
-/

namespace Matinier
namespace Processing

inductive JobStatus where
  | queued
  | running
  | completed
  | failed
  | cancelled
  deriving DecidableEq

structure ProcessingJobRecord where
  id : ℕ
  packageId : ℕ
  targetArtifactId : Option ℕ
  resultArtifactId : Option ℕ
  artifactKind : String
  status : JobStatus
  progress : ℕ
  provider : Option String
  model : Option String
  options : JsonValue
  errorCode : Option String
  errorMessage : Option String
  createdAt : ℕ
  startedAt : Option ℕ
  endedAt : Option ℕ

instance : Row ProcessingJobRecord ℕ Empty where
  key := ProcessingJobRecord.id
  unique _ := none

abbrev Jobs := Table ProcessingJobRecord

structure JobRequest where
  packageId : ℕ
  artifactKind : String
  targetArtifactId : Option ℕ
  options : JsonValue

/-- The workflow registered for a kind of artifacts. -/
structure Workflow where
  provider : Option String
  model : Option String

def queuedJob (id : ℕ) (request : JobRequest) (workflow : Workflow) (createdAt : ℕ) :
    ProcessingJobRecord where
  id := id
  packageId := request.packageId
  targetArtifactId := request.targetArtifactId
  resultArtifactId := none
  artifactKind := request.artifactKind
  status := .queued
  progress := 0
  provider := workflow.provider
  model := workflow.model
  options := request.options
  errorCode := none
  errorMessage := none
  createdAt := createdAt
  startedAt := none
  endedAt := none

/-- Change a job that has one of these statuses. -/
def mark (jobs : Jobs) (jobId : ℕ) (allowed : List JobStatus)
    (change : ProcessingJobRecord → ProcessingJobRecord) :
    Option (Jobs × ProcessingJobRecord) :=
  match jobs.get jobId with
  | none => none
  | some record =>
    if record.status ∈ allowed then some (jobs.set (change record), change record) else none

def markRunning (jobs : Jobs) (jobId startedAt : ℕ) : Option (Jobs × ProcessingJobRecord) :=
  mark jobs jobId [.queued] fun record =>
    { record with
      status := .running
      progress := 10
      startedAt := some startedAt
      errorCode := none
      errorMessage := none }

def markCompleted (jobs : Jobs) (jobId resultArtifactId endedAt : ℕ) :
    Option (Jobs × ProcessingJobRecord) :=
  mark jobs jobId [.running] fun record =>
    { record with
      status := .completed
      progress := 100
      resultArtifactId := some resultArtifactId
      endedAt := some endedAt }

def markFailed (jobs : Jobs) (jobId : ℕ) (errorCode errorMessage : String) (endedAt : ℕ) :
    Option (Jobs × ProcessingJobRecord) :=
  mark jobs jobId [.queued, .running] fun record =>
    { record with
      status := .failed
      errorCode := some errorCode
      errorMessage := some (String.ofList (errorMessage.toList.take 1000))
      endedAt := some endedAt }

def markCancelled (jobs : Jobs) (jobId endedAt : ℕ) : Option (Jobs × ProcessingJobRecord) :=
  mark jobs jobId [.queued, .running] fun record =>
    { record with
      status := .cancelled
      errorCode := none
      errorMessage := none
      endedAt := some endedAt }

def interrupted (endedAt : ℕ) (record : ProcessingJobRecord) : ProcessingJobRecord :=
  if record.status ∈ [JobStatus.queued, .running] then
    { record with
      status := .failed
      errorCode := some "api_process_restarted"
      errorMessage := some "API process restarted before the job completed"
      endedAt := some endedAt }
  else record

theorem interrupted_key (endedAt : ℕ) (record : ProcessingJobRecord) :
    Row.key (interrupted endedAt record) = Row.key record ∧
      Row.unique (interrupted endedAt record) = Row.unique record := by
  unfold interrupted
  split_ifs <;> exact ⟨rfl, rfl⟩

def recoverInterrupted (jobs : Jobs) (endedAt : ℕ) : Jobs :=
  jobs.alter (interrupted endedAt) (interrupted_key endedAt)

/-- The statuses a status may be followed by. -/
def JobStatus.next : JobStatus → List JobStatus
  | queued => [running, failed, cancelled]
  | running => [completed, failed, cancelled]
  | completed | failed | cancelled => []

/-- The ways to a status. -/
def JobStatus.paths : JobStatus → List (List JobStatus)
  | queued => [[queued]]
  | running => [[queued, running]]
  | completed => [[queued, running, completed]]
  | failed => [[queued, running, failed], [queued, failed]]
  | cancelled => [[queued, running, cancelled], [queued, cancelled]]

theorem JobStatus.paths_next {s t : JobStatus} {path : List JobStatus} (hpath : path ∈ s.paths)
    (hnext : t ∈ s.next) : path ++ [t] ∈ t.paths := by
  cases s <;> cases t <;> revert hpath hnext <;> simp +contextual [paths, next]

theorem JobStatus.eq_of_mem_path {s : JobStatus} {path : List JobStatus} (hpath : path ∈ s.paths)
    (hcancelled : cancelled ∈ path) : s = cancelled := by
  cases s <;> revert hpath hcancelled <;> simp +contextual [paths] <;> grind

/-- What `mark` has done where it does something. -/
theorem mark_eq_some {jobs jobs' : Jobs} {jobId : ℕ} {allowed : List JobStatus}
    {change : ProcessingJobRecord → ProcessingJobRecord} {record' : ProcessingJobRecord}
    (h : mark jobs jobId allowed change = some (jobs', record'))
    (hkey : ∀ record, (change record).id = record.id) :
    ∃ record, jobs.get jobId = some record ∧ record.status ∈ allowed ∧ record' = change record ∧
      record'.id = jobId ∧ jobs.Writes jobs' record' := by
  unfold mark at h
  split at h
  · cases h
  · next record hget =>
    split_ifs at h with hallowed
    cases h
    have hid : record.id = jobId := Table.key_of_get hget
    refine ⟨record, hget, hallowed, rfl, (hkey record).trans hid, ?_⟩
    have hold : jobs.get (Row.key (change record)) = some record := by
      rw [show Row.key (change record) = jobId from (hkey record).trans hid]
      exact hget
    exact .of_set hold ⟨(hkey record).symm, .inl rfl⟩

inductive JobError where
  | configuration (message : String)
  | provider (message : String)
  | scriptOutput
  | packageValidation (message : String)
  | request (message : String)
  | other
  deriving DecidableEq

/-- `_safe_failure`. -/
def safeFailure : JobError → String × String
  | .configuration message => ("provider_not_configured", message)
  | .provider message => ("provider_error", message)
  | .scriptOutput => ("invalid_provider_output", "Structured provider output was invalid")
  | .packageValidation message => ("package_invalid", message)
  | .request message => ("invalid_processing_request", message)
  | .other => ("artifact_processing_failed", "Artifact processing failed")

structure GeneratedArtifact where
  id : ℕ
  packageId : ℕ
  artifactKind : String
  parentArtifactId : Option ℕ
  deriving DecidableEq

/-- Where the task of a job stands. -/
inductive Execution where
  | scheduled
  | marked
  | generating (current : ProcessingJobRecord)
  | failing (error : JobError)
  | returned
  | cancelled
  | raised

def Execution.isDone : Execution → Bool
  | returned | cancelled | raised => true
  | _ => false

/-- A worker waits for a job, or for the task of one, which may have been told to stop. -/
inductive Worker where
  | getting
  | awaiting (jobId : ℕ) (execution : Execution) (cancelRequested : Bool)
  | ended

def Worker.alive : Worker → Bool
  | ended => false
  | _ => true

def Worker.requestCancel (jobId : ℕ) : Worker → Worker
  | awaiting job execution cancelRequested =>
    awaiting job execution (cancelRequested || (job == jobId && !execution.isDone))
  | worker => worker

def Worker.stop : Worker → Worker
  | awaiting job execution _ => awaiting job execution true
  | _ => ended

structure Config where
  concurrency : ℕ
  concurrency_pos : 0 < concurrency
  readable : ℕ → Bool
  registry : String → Option Workflow

structure World where
  jobs : Jobs
  artifacts : List GeneratedArtifact
  queue : List ℕ
  workers : List Worker
  userCancelled : List ℕ
  stopping : Bool
  history : List (ℕ × JobStatus)
  made : List (ℕ × ℕ)

/-- What becomes of a workflow that is waited for. -/
inductive Outcome where
  | produces (artifactId : ℕ) (commitError : Option JobError)
  | raises (error : JobError)
  | cancelled

inductive Event where
  | start (now : ℕ)
  | submit (jobId : ℕ) (request : JobRequest) (targetPackageId : Option ℕ) (now : ℕ)
  | cancel (jobId now : ℕ)
  | take (worker : ℕ)
  | setUp (worker now : ℕ) (raises : Bool)
  | load (worker : ℕ) (error : Option JobError)
  | generate (worker now : ℕ) (outcome : Outcome)
  | handle (worker now : ℕ) (raises : Bool)
  | resume (worker : ℕ)
  | abandon (worker : ℕ)
  | stop
  | stopped
  | crash

namespace World

def initial : World := ⟨.empty, [], [], [], [], false, [], []⟩

def started (w : World) : Bool := !w.workers.isEmpty

def liveWorkers (w : World) : ℕ := w.workers.countP Worker.alive

def historyOf (w : World) (jobId : ℕ) : List JobStatus :=
  (w.history.filter fun entry => entry.1 = jobId).map Prod.snd

def setWorker (w : World) (i : ℕ) (worker : Worker) : World :=
  { w with workers := w.workers.set i worker }

def commit (w : World) (jobs : Jobs) (jobId : ℕ) (status : JobStatus) : World :=
  { w with jobs, history := w.history ++ [(jobId, status)] }

def unfinished (w : World) : List ℕ :=
  (w.jobs.rows.filter fun job => job.status ∈ [JobStatus.queued, .running]).map
    ProcessingJobRecord.id

def start (cfg : Config) (w : World) (now : ℕ) : Option World :=
  if w.started then none
  else some
    { w with
      jobs := recoverInterrupted w.jobs now
      history := w.history ++ w.unfinished.map fun jobId => (jobId, .failed)
      stopping := false
      workers := List.replicate cfg.concurrency .getting }

/-- A submit that raises changes nothing. -/
def submit (cfg : Config) (w : World) (jobId : ℕ) (request : JobRequest)
    (targetPackageId : Option ℕ) (now : ℕ) : Option World :=
  if w.started ∧ ¬ w.stopping ∧ cfg.readable request.packageId ∧
      (request.targetArtifactId = none ∨ targetPackageId = some request.packageId) then
    match cfg.registry request.artifactKind with
    | none => none
    | some workflow =>
      match w.jobs.insert (queuedJob jobId request workflow now) with
      | none => none
      | some jobs => some { w.commit jobs jobId .queued with queue := w.queue ++ [jobId] }
  else none

/-- A cancel of a job that is not queued or running changes nothing. -/
def cancel (w : World) (jobId now : ℕ) : Option World :=
  match markCancelled w.jobs jobId now with
  | none => none
  | some (jobs, _) => some
      { w.commit jobs jobId .cancelled with
        userCancelled := jobId :: w.userCancelled
        workers := w.workers.map (Worker.requestCancel jobId) }

/-- A worker that waits for a job gets the next one and starts its task. -/
def take (w : World) (i : ℕ) : Option World :=
  match w.workers[i]?, w.queue with
  | some .getting, jobId :: queue =>
    some { w.setWorker i (.awaiting jobId .scheduled false) with queue }
  | _, _ => none

/-- The first transaction of `_execute_job`. -/
def setUp (w : World) (i now : ℕ) (raises : Bool) : Option World :=
  match w.workers[i]? with
  | some (.awaiting jobId .scheduled cancelRequested) =>
    if cancelRequested then some (w.setWorker i (.awaiting jobId .cancelled true))
    else if raises then some (w.setWorker i (.awaiting jobId .raised false))
    else
      match markRunning w.jobs jobId now with
      | none => some (w.setWorker i (.awaiting jobId .returned false))
      | some (jobs, _) =>
        some ((w.commit jobs jobId .running).setWorker i (.awaiting jobId .marked false))
  | _ => none

def load (w : World) (i : ℕ) (error : Option JobError) : Option World :=
  match w.workers[i]? with
  | some (.awaiting jobId .marked cancelRequested) =>
    match error, w.jobs.get jobId with
    | some error, _ => some (w.setWorker i (.awaiting jobId (.failing error) cancelRequested))
    | none, none => some (w.setWorker i (.awaiting jobId .returned cancelRequested))
    | none, some current =>
      if current.status ≠ .running then
        some (w.setWorker i (.awaiting jobId .returned cancelRequested))
      else some (w.setWorker i (.awaiting jobId (.generating current) cancelRequested))
  | _ => none

def complete (jobs : Jobs) (jobId artifactId now : ℕ) : Option Jobs :=
  match jobs.get jobId with
  | none => none
  | some refreshed =>
    if refreshed.status ≠ .running then none
    else (markCompleted jobs jobId artifactId now).map Prod.fst

def artifactOf (current : ProcessingJobRecord) (artifactId : ℕ) : GeneratedArtifact where
  id := artifactId
  packageId := current.packageId
  artifactKind := current.artifactKind
  parentArtifactId := current.targetArtifactId

def keep (w : World) (jobs : Jobs) (jobId : ℕ) (artifact : GeneratedArtifact) : World :=
  { w.commit jobs jobId .completed with artifacts := w.artifacts ++ [artifact] }

/-- The workflow is over. Its artifact has an identifier that no other one had, and is kept where
the job still runs and the commit succeeds. -/
def generate (w : World) (i now : ℕ) (outcome : Outcome) : Option World :=
  match w.workers[i]? with
  | some (.awaiting jobId (.generating current) cancelRequested) =>
    match outcome with
    | .cancelled =>
      if cancelRequested then some (w.setWorker i (.awaiting jobId .cancelled true)) else none
    | .raises error => some (w.setWorker i (.awaiting jobId (.failing error) cancelRequested))
    | .produces artifactId commitError =>
      if artifactId ∈ w.made.map Prod.snd then none
      else
        let after := { w with made := w.made ++ [(jobId, artifactId)] }
        match complete w.jobs jobId artifactId now, commitError with
        | none, _ => some (after.setWorker i (.awaiting jobId .returned cancelRequested))
        | some _, some error =>
          some (after.setWorker i (.awaiting jobId (.failing error) cancelRequested))
        | some jobs, none =>
          some ((after.keep jobs jobId (artifactOf current artifactId)).setWorker i
            (.awaiting jobId .returned cancelRequested))
  | _ => none

/-- The failure handler of `_execute_job`. -/
def handle (w : World) (i now : ℕ) (raises : Bool) : Option World :=
  match w.workers[i]? with
  | some (.awaiting jobId (.failing error) cancelRequested) =>
    if raises then some (w.setWorker i (.awaiting jobId .raised cancelRequested))
    else
      match markFailed w.jobs jobId (safeFailure error).1 (safeFailure error).2 now with
      | none => some (w.setWorker i (.awaiting jobId .returned cancelRequested))
      | some (jobs, _) => some ((w.commit jobs jobId .failed).setWorker i
          (.awaiting jobId .returned cancelRequested))
  | _ => none

/-- The worker goes on behind the task. What the task raised, it raises itself. -/
def resume (w : World) (i : ℕ) : Option World :=
  match w.workers[i]? with
  | some (.awaiting jobId execution _) =>
    let after := { w with userCancelled := w.userCancelled.erase jobId }
    match execution with
    | .returned => some (after.setWorker i .getting)
    | .cancelled => some (after.setWorker i (if w.stopping then .ended else .getting))
    | .raised => some (after.setWorker i .ended)
    | _ => none
  | _ => none

def abandon (w : World) (i : ℕ) : Option World :=
  match w.workers[i]? with
  | some (.awaiting jobId execution _) =>
    if w.stopping ∧ execution.isDone then
      some ({ w with userCancelled := w.userCancelled.erase jobId }.setWorker i .ended)
    else none
  | _ => none

def stop (w : World) : Option World :=
  if w.started then some { w with stopping := true, workers := w.workers.map Worker.stop }
  else none

def stopped (w : World) : Option World :=
  if w.stopping ∧ w.workers.all fun worker => !worker.alive then
    some { w with workers := [], userCancelled := [] }
  else none

def crash (w : World) : World :=
  { w with queue := [], workers := [], userCancelled := [], stopping := false }

end World

def next (cfg : Config) (w : World) : Event → Option World
  | .start now => w.start cfg now
  | .submit jobId request targetPackageId now => w.submit cfg jobId request targetPackageId now
  | .cancel jobId now => w.cancel jobId now
  | .take i => w.take i
  | .setUp i now raises => w.setUp i now raises
  | .load i error => w.load i error
  | .generate i now outcome => w.generate i now outcome
  | .handle i now raises => w.handle i now raises
  | .resume i => w.resume i
  | .abandon i => w.abandon i
  | .stop => w.stop
  | .stopped => w.stopped
  | .crash => some w.crash

/-- Something is raised where `_execute_job` catches nothing: in the transaction that marks the job
as running, or in the one that marks it as failed. -/
def Event.escapes : Event → Bool
  | setUp _ _ raises | handle _ _ raises => raises
  | _ => false

end Processing
end Matinier
