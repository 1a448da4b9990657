import Matinier.Foundation.Checked
import Matinier.Foundation.Table
import Mathlib.Data.Rat.Defs

/-!
# Session records

The status of a session with its transition table, the record of a session, and what the
repository does to it. A repository works on the attributes that its database session has loaded;
a flush writes those that it changed and leaves the other columns as they are stored.
-/

namespace Matinier
namespace Sessions

inductive SessionStatus where
  | created
  | starting
  | running
  | finalizing
  | completed
  | failed
  | cancelled
  deriving DecidableEq, Repr

namespace SessionStatus

def text : SessionStatus → String
  | created => "created"
  | starting => "starting"
  | running => "running"
  | finalizing => "finalizing"
  | completed => "completed"
  | failed => "failed"
  | cancelled => "cancelled"

/-- `TERMINAL_SESSION_STATES`. -/
def terminal : SessionStatus → Bool
  | completed | failed | cancelled => true
  | _ => false

end SessionStatus

/-- `NORMAL_SESSION_STATES`. -/
def normalSessionStates : List SessionStatus :=
  [.created, .starting, .running, .finalizing, .completed]

inductive SessionError where
  /-- `InvalidSessionTransition`. -/
  | invalidTransition (message : String)
  | valueError (message : String)
  deriving DecidableEq, Repr

/-- `transition_session_status`. -/
def transitionSessionStatus (current target : SessionStatus) : Except SessionError SessionStatus :=
  if current = target then .ok current
  else if current.terminal then
    .error (.invalidTransition ("terminal session cannot transition from " ++ current.text ++
      " to " ++ target.text))
  else if target = .failed ∨ target = .cancelled then .ok target
  else if normalSessionStates[normalSessionStates.idxOf current + 1]? = some target then
    .ok target
  else
    .error (.invalidTransition ("invalid session transition from " ++ current.text ++ " to " ++
      target.text))

/-- The transitions that the function allows, as a table. -/
def sessionTransitions : SessionStatus → List SessionStatus
  | .created => [.starting, .failed, .cancelled]
  | .starting => [.running, .failed, .cancelled]
  | .running => [.finalizing, .failed, .cancelled]
  | .finalizing => [.completed, .failed, .cancelled]
  | .completed | .failed | .cancelled => []

theorem transitionSessionStatus_ok {current target next : SessionStatus} :
    transitionSessionStatus current target = .ok next ↔
      StatusTable.advance sessionTransitions current target = some next := by
  cases current <;> cases target <;> cases next <;> decide

inductive TranslationStatus where
  | disabled
  | starting
  | running
  | completed
  | failed
  deriving DecidableEq, Repr

inductive SourceStatus where
  | starting
  | running
  | stopping
  | stopped
  | failed
  | lost
  deriving DecidableEq, Repr

inductive CleanupStatus where
  | notStarted
  | inProgress
  | completed
  | failed
  deriving DecidableEq, Repr

/-- The time of a change. -/
abbrev Timestamp : Type := ℕ

/-- What `complete` records of a run. -/
structure RunMetrics where
  finalResultCount : ℤ
  firstPartialLatencyMs : Option ℚ
  averageFinalLatencyMs : Option ℚ
  providerErrorCount : ℤ
  sentAudioChunkCount : ℤ
  sentAudioBytes : ℤ
  deriving DecidableEq

def RunMetrics.nonNegative (m : RunMetrics) : Bool :=
  0 ≤ m.finalResultCount ∧ 0 ≤ m.providerErrorCount ∧ 0 ≤ m.sentAudioChunkCount ∧
    0 ≤ m.sentAudioBytes ∧ (∀ x ∈ m.firstPartialLatencyMs, 0 ≤ x) ∧
    ∀ x ∈ m.averageFinalLatencyMs, 0 ≤ x

/-- The columns of a session that its repository reads or writes after its creation. -/
structure SessionRecord where
  status : SessionStatus
  startedAt : Option Timestamp := none
  endedAt : Option Timestamp := none
  errorCode : Option String := none
  errorMessage : Option String := none
  failureCode : Option String := none
  failureDetail : Option String := none
  stopReason : Option String := none
  asrProvider : Option String := none
  asrModel : Option String := none
  targetLanguage : Option String := none
  translationStatus : TranslationStatus := .disabled
  translationProvider : Option String := none
  translationModel : Option String := none
  translationErrorCode : Option String := none
  translationErrorMessage : Option String := none
  translationEndedAt : Option Timestamp := none
  sourceStatus : SourceStatus := .starting
  sourceEndedAt : Option Timestamp := none
  cleanupStatus : CleanupStatus := .notStarted
  cleanupDetail : Option String := none
  metrics : Option RunMetrics := none
  deriving DecidableEq

namespace SessionRecord

/-- `create`. -/
def create (targetLanguage : Option String) : SessionRecord where
  status := .created
  targetLanguage
  translationStatus := if targetLanguage.isSome then .starting else .disabled

variable (now : Timestamp) (r : SessionRecord)

/-- `SessionRepository.transition`. -/
def transition (target : SessionStatus) : Except SessionError SessionRecord := do
  let next ← transitionSessionStatus r.status target
  return if r.status = next then r else
    { r with
      status := next
      startedAt := if next = .running ∧ r.startedAt = none then some now else r.startedAt
      endedAt := if next.terminal then some now else r.endedAt }

/-- A created session is starting. -/
def leaveCreated : Except SessionError SessionRecord :=
  if r.status = .created then r.transition now .starting else .ok r

/-- A starting session is running; any other one must be. -/
def enterRunning (action : String) : Except SessionError SessionRecord :=
  if r.status = .starting then r.transition now .running
  else if r.status = .running then .ok r
  else .error (.valueError ("Session cannot start " ++ action ++ " from " ++ r.status.text))

def markRoomReady : Except SessionError SessionRecord := r.leaveCreated now

def startReplay : Except SessionError SessionRecord := do
  let r ← r.leaveCreated now
  r.enterRunning now "replay"

def markTranscribing (provider model : String) : Except SessionError SessionRecord := do
  ensure (provider ≠ "") (.valueError "provider is required")
  ensure (model ≠ "") (.valueError "model is required")
  let r ← r.leaveCreated now
  let r ← r.enterRunning now "ASR"
  return { r with asrProvider := some provider, asrModel := some model }

def beginFinalizing : Except SessionError SessionRecord := r.transition now .finalizing

def complete (metrics : RunMetrics) (stopReason : Option String) :
    Except SessionError SessionRecord := do
  ensure (metrics.nonNegative = true)
    (.valueError "transcription metrics must be non-negative")
  let r ← r.transition now .completed
  return { r with
    metrics := some metrics
    errorCode := none
    errorMessage := none
    failureCode := none
    failureDetail := none
    stopReason := stopReason.or r.stopReason }

def fail (errorCode errorMessage : String) : Except SessionError SessionRecord := do
  ensure (errorCode ≠ "") (.valueError "error_code is required")
  ensure (errorMessage ≠ "") (.valueError "error_message is required")
  let r ← r.transition now .failed
  return { r with
    errorCode := some errorCode
    errorMessage := some errorMessage
    failureCode := some errorCode
    failureDetail := some errorMessage
    stopReason := none }

def cancel (stopReason : String) : Except SessionError SessionRecord := do
  let r ← r.transition now .cancelled
  return { r with
    errorCode := none
    errorMessage := none
    failureCode := none
    failureDetail := none
    stopReason :=
      if r.stopReason = none ∨ stopReason ≠ "worker_cancelled" then some stopReason
      else r.stopReason }

def markSourceRunning : SessionRecord :=
  if r.sourceStatus = .stopped then r
  else { r with sourceStatus := .running, cleanupStatus := .notStarted, cleanupDetail := none }

def markSourceStopping : SessionRecord :=
  if r.sourceStatus = .stopped then r
  else { r with sourceStatus := .stopping, cleanupStatus := .inProgress }

def markSourceStopped (cleanupDetail : Option String) : SessionRecord :=
  if r.sourceStatus = .stopped ∧ r.cleanupStatus = .completed then r
  else { r with
    sourceStatus := .stopped
    sourceEndedAt := some now
    cleanupStatus := .completed
    cleanupDetail }

def markSourceCleanupFailed (cleanupDetail : String) : Except SessionError SessionRecord := do
  ensure (cleanupDetail ≠ "") (.valueError "cleanup_detail is required")
  let r := if r.sourceStatus = .stopped then r
    else { r with sourceStatus := .failed, sourceEndedAt := some now }
  return { r with cleanupStatus := .failed, cleanupDetail := some cleanupDetail }

def markSourceLost (cleanupDetail : String) : Except SessionError SessionRecord := do
  ensure (cleanupDetail ≠ "") (.valueError "cleanup_detail is required")
  return { r with
    sourceStatus := .lost
    sourceEndedAt := some now
    cleanupStatus := .failed
    cleanupDetail := some cleanupDetail }

end SessionRecord

/-- What a flush leaves of a column: it is written where the attribute was changed. -/
def flushed {α : Type} [DecidableEq α] (loaded current stored : α) : α :=
  if current = loaded then stored else current

section
variable {α : Type} [DecidableEq α] {loaded current stored : α}

@[simp] theorem flushed_fresh : flushed stored current stored = current := by
  unfold flushed
  split_ifs with h
  · exact h.symm
  · rfl

@[simp] theorem flushed_kept : flushed loaded loaded stored = stored := if_pos rfl

end

/-- What a flush leaves of the record. -/
def SessionRecord.flush (loaded current stored : SessionRecord) : SessionRecord where
  status := flushed loaded.status current.status stored.status
  startedAt := flushed loaded.startedAt current.startedAt stored.startedAt
  endedAt := flushed loaded.endedAt current.endedAt stored.endedAt
  errorCode := flushed loaded.errorCode current.errorCode stored.errorCode
  errorMessage := flushed loaded.errorMessage current.errorMessage stored.errorMessage
  failureCode := flushed loaded.failureCode current.failureCode stored.failureCode
  failureDetail := flushed loaded.failureDetail current.failureDetail stored.failureDetail
  stopReason := flushed loaded.stopReason current.stopReason stored.stopReason
  asrProvider := flushed loaded.asrProvider current.asrProvider stored.asrProvider
  asrModel := flushed loaded.asrModel current.asrModel stored.asrModel
  targetLanguage := flushed loaded.targetLanguage current.targetLanguage stored.targetLanguage
  translationStatus :=
    flushed loaded.translationStatus current.translationStatus stored.translationStatus
  translationProvider :=
    flushed loaded.translationProvider current.translationProvider stored.translationProvider
  translationModel :=
    flushed loaded.translationModel current.translationModel stored.translationModel
  translationErrorCode :=
    flushed loaded.translationErrorCode current.translationErrorCode stored.translationErrorCode
  translationErrorMessage := flushed loaded.translationErrorMessage
    current.translationErrorMessage stored.translationErrorMessage
  translationEndedAt :=
    flushed loaded.translationEndedAt current.translationEndedAt stored.translationEndedAt
  sourceStatus := flushed loaded.sourceStatus current.sourceStatus stored.sourceStatus
  sourceEndedAt := flushed loaded.sourceEndedAt current.sourceEndedAt stored.sourceEndedAt
  cleanupStatus := flushed loaded.cleanupStatus current.cleanupStatus stored.cleanupStatus
  cleanupDetail := flushed loaded.cleanupDetail current.cleanupDetail stored.cleanupDetail
  metrics := flushed loaded.metrics current.metrics stored.metrics

end Sessions
end Matinier
