import Matinier.Foundation.Machine
import Matinier.Sessions.Repository

/-!
# The lifecycle of a session

The record of a session is written by the caption runtime of the worker and by handlers of the
API, each over a database session of its own. A writer loads the record, or acts on the attributes
that it loaded before, and commits what its operation makes of them; others may commit in between.
-/

namespace Matinier
namespace Sessions

/-- What the writers of a session do to its record. -/
inductive Operation where
  -- The caption runtime.
  | startReplay (hls : Bool)
  | markTranscribing (provider model : String)
  | beginFinalizing
  | complete (metrics : RunMetrics)
  | fail (errorCode errorMessage : String)
  | cancel
  | completeSourceCleanup
  | failSourceCleanup (errorType : String)
  -- The token of a participant, the report of a replay, the cancellation of a caption run, the
  -- end of a room, and the start and the stop of an HLS input.
  | markRoomReady
  | reportFailed (errorCode errorMessage : String)
  | reportCancelled
  | cancelRun
  | closeRoom
  | failStart
  | requestStop
  -- The HLS input: its failure, its lifecycle, its abort by the worker, and its loss in a restart.
  | failSource (errorCode errorMessage : String)
  | lifecycle (status : SourceStatus) (detail : Option String)
  | abortSource (released : Bool) (detail : String)
  | reconcile
  deriving DecidableEq

namespace Operation

/-- The operations of the caption runtime that its `_terminal` turns off. -/
def byRuntime : Operation → Bool
  | startReplay _ | markTranscribing .. | beginFinalizing | complete _ | fail .. | cancel => true
  | _ => false

/-- The operations before which the runtime refreshes the record. -/
def refreshes : Operation → Bool
  | beginFinalizing | complete _ => true
  | _ => false

/-- What the operation makes of the attributes that its writer has. -/
def apply (now : Timestamp) (r : SessionRecord) : Operation → Except SessionError SessionRecord
  | startReplay hls => do
    let r ← r.startReplay now
    return if hls then r else r.markSourceRunning
  | markTranscribing provider model => r.markTranscribing now provider model
  | beginFinalizing => r.beginFinalizing now
  | complete metrics => r.complete now metrics none
  | fail errorCode errorMessage => r.fail now errorCode errorMessage
  | cancel => r.cancel now "worker_cancelled"
  | completeSourceCleanup =>
    return r.markSourceStopped now (some "Worker audio resources released.")
  | failSourceCleanup errorType =>
    r.markSourceCleanupFailed now ("Worker audio resource cleanup failed (" ++ errorType ++ ").")
  | markRoomReady => r.markRoomReady now
  | reportFailed errorCode errorMessage => r.fail now errorCode errorMessage
  | reportCancelled => r.cancel now "user_requested"
  | cancelRun => if r.status.terminal then return r else r.cancel now "user_requested"
  | closeRoom => if r.status.terminal then return r else r.cancel now "room_closed"
  | failStart => r.fail now "hls_stream_error" "The HLS input could not be started."
  | requestStop =>
    return if r.status ≠ .failed ∧ r.stopReason = none then
      { r with stopReason := some "user_requested" } else r
  | failSource errorCode errorMessage =>
    if r.status.terminal then return r else r.fail now errorCode errorMessage
  | lifecycle status detail =>
    match status with
    | .running => return r.markSourceRunning
    | .stopping => return r.markSourceStopping
    | .stopped => return r.markSourceStopped now detail
    | .failed =>
      r.markSourceCleanupFailed now ((detail.filter (· ≠ "")).getD "HLS cleanup failed.")
    | .starting | .lost =>
      return { r with
        sourceStatus := .starting
        cleanupStatus := .notStarted
        cleanupDetail := none }
  | abortSource released detail =>
    if released then return r.markSourceStopped now (some detail)
    else if r.sourceStatus = .stopped then return r
    else r.markSourceCleanupFailed now detail
  | reconcile =>
    if r.status.terminal then return r
    else do
      let r ← r.fail now "hls_process_lost" "The API restarted while the HLS input was active."
      r.markSourceLost now "API restarted and no owned HLS process remained."

end Operation

structure Commit where
  operation : Operation
  before : SessionRecord
  after : SessionRecord
  deriving DecidableEq

abbrev Writer : Type := ℕ

/-- The stored record, its history, and the database sessions of its writers. -/
structure SessionDb where
  stored : SessionRecord
  commits : List Commit := []
  /-- The attributes that a writer has loaded. -/
  loaded : Writer → Option SessionRecord := fun _ => none
  /-- The operation that a writer has begun and not committed. -/
  busy : Writer → Option Operation := fun _ => none
  /-- `_terminal` of a caption runtime. -/
  settled : Writer → Bool := fun _ => false

inductive Label where
  /-- A writer begins an operation, on the record as it is stored or on what it has loaded. -/
  | load (w : Writer) (op : Operation) (reload : Bool)
  | commit (w : Writer) (now : Timestamp)
  /-- The runtime has published the end that it stored. -/
  | settle (w : Writer)

namespace SessionDb

def next (d : SessionDb) : Label → Option SessionDb
  | .load w op reload =>
    if (d.busy w).isSome ∨ (op.byRuntime ∧ d.settled w) ∨ (op.refreshes ∧ ¬ reload) then none
    else
      let r := if reload then d.stored else (d.loaded w).getD d.stored
      let d := { d with loaded := Function.update d.loaded w (some r) }
      if op.refreshes ∧ r.status.terminal then
        some { d with settled := Function.update d.settled w true }
      else some { d with busy := Function.update d.busy w (some op) }
  | .commit w now =>
    match d.busy w, d.loaded w with
    | some op, some r =>
      let d := { d with busy := Function.update d.busy w none }
      match op.apply now r with
      | .ok r' =>
        let stored := SessionRecord.flush r r' d.stored
        some { d with
          stored
          commits := d.commits ++ [⟨op, d.stored, stored⟩]
          loaded := Function.update d.loaded w (some r')
          settled := match op with
            | .complete _ => Function.update d.settled w true
            | _ => d.settled }
      -- The rollback expires the attributes.
      | .error _ => some { d with loaded := Function.update d.loaded w none }
    | _, _ => none
  | .settle w => some { d with settled := Function.update d.settled w true }

def start (targetLanguage : Option String) : SessionDb where
  stored := .create targetLanguage

end SessionDb

/-- The columns that say how a session stands. -/
structure Standing where
  status : SessionStatus
  endedAt : Option Timestamp
  stopReason : Option String
  errorCode : Option String
  errorMessage : Option String
  failureCode : Option String
  failureDetail : Option String
  deriving DecidableEq

def SessionRecord.standing (r : SessionRecord) : Standing where
  status := r.status
  endedAt := r.endedAt
  stopReason := r.stopReason
  errorCode := r.errorCode
  errorMessage := r.errorMessage
  failureCode := r.failureCode
  failureDetail := r.failureDetail

/-- What a flush leaves of these columns. -/
def Standing.flush (loaded current stored : Standing) : Standing where
  status := flushed loaded.status current.status stored.status
  endedAt := flushed loaded.endedAt current.endedAt stored.endedAt
  stopReason := flushed loaded.stopReason current.stopReason stored.stopReason
  errorCode := flushed loaded.errorCode current.errorCode stored.errorCode
  errorMessage := flushed loaded.errorMessage current.errorMessage stored.errorMessage
  failureCode := flushed loaded.failureCode current.failureCode stored.failureCode
  failureDetail := flushed loaded.failureDetail current.failureDetail stored.failureDetail

/-- A commit takes one transition that the table declares, or two, or none. -/
def Follows (s t : SessionStatus) : Prop :=
  s = t ∨ t ∈ sessionTransitions s ∨ ∃ u ∈ sessionTransitions s, t ∈ sessionTransitions u

/-- The operations with which the draining worker ends a session after a stop. -/
def Operation.drains : Operation → Bool
  | .complete _ | .cancel => true
  | _ => false

/-- The law of a session: its statuses follow the table, a terminal record stands, it has an end
exactly then, and the reason of a stop is kept by the worker that drains. -/
structure Lawful (commits : List Commit) : Prop where
  follows : ∀ c ∈ commits, Follows c.before.status c.after.status
  stands : commits.Pairwise fun c d =>
    c.after.status.terminal = true → d.after.standing = c.after.standing
  ended : ∀ c ∈ commits, c.after.endedAt.isSome = c.after.status.terminal
  survives : ∀ c ∈ commits, c.operation.drains = true →
    ∀ x, c.before.stopReason = some x → c.after.stopReason = some x

/-- A report on a record that already stands, with something else to say. -/
def Operation.rewrites (r : SessionRecord) : Operation → Prop
  | .fail code message | .reportFailed code message =>
    r.status = .failed ∧ (r.errorCode ≠ some code ∨ r.errorMessage ≠ some message)
  | .failStart => r.status = .failed ∧ (r.errorCode ≠ some "hls_stream_error" ∨
      r.errorMessage ≠ some "The HLS input could not be started.")
  | .reportCancelled => r.status = .cancelled ∧ r.stopReason ≠ some "user_requested"
  | .requestStop => r.status = .completed ∧ r.stopReason = none
  | _ => False

instance (r : SessionRecord) : (op : Operation) → Decidable (op.rewrites r)
  | .fail .. | .reportFailed .. | .failStart => inferInstanceAs (Decidable (_ ∧ (_ ∨ _)))
  | .reportCancelled | .requestStop => inferInstanceAs (Decidable (_ ∧ _))
  | .startReplay _ | .markTranscribing .. | .beginFinalizing | .complete _ | .cancel
  | .completeSourceCleanup | .failSourceCleanup _ | .markRoomReady | .cancelRun | .closeRoom
  | .failSource .. | .lifecycle .. | .abortSource .. | .reconcile =>
    inferInstanceAs (Decidable False)

/-- The columns that say how a session stands, as far as the operation reads or writes them, are
stored as its writer has them. -/
def Operation.Agrees (r stored : SessionRecord) : Operation → Prop
  | .completeSourceCleanup | .failSourceCleanup _ | .lifecycle .. | .abortSource .. => True
  | .startReplay _ | .markTranscribing .. | .beginFinalizing | .markRoomReady =>
    r.status = stored.status
  | .complete _ =>
    { r.standing with stopReason := none } = { stored.standing with stopReason := none }
  | .requestStop => r.status = stored.status ∧ r.stopReason = stored.stopReason
  | .cancelRun | .closeRoom | .failSource .. | .reconcile =>
    r.status.terminal = true ∨ r.standing = stored.standing
  | .fail .. | .cancel | .reportFailed .. | .reportCancelled | .failStart =>
    r.standing = stored.standing

instance (r stored : SessionRecord) : (op : Operation) → Decidable (op.Agrees r stored)
  | .completeSourceCleanup | .failSourceCleanup _ | .lifecycle .. | .abortSource .. =>
    inferInstanceAs (Decidable True)
  | .startReplay _ | .markTranscribing .. | .beginFinalizing | .markRoomReady =>
    inferInstanceAs (Decidable (r.status = stored.status))
  | .complete _ => inferInstanceAs (Decidable
      ({ r.standing with stopReason := none } = { stored.standing with stopReason := none }))
  | .requestStop => inferInstanceAs (Decidable (_ ∧ _))
  | .cancelRun | .closeRoom | .failSource .. | .reconcile => inferInstanceAs (Decidable (_ ∨ _))
  | .fail .. | .cancel | .reportFailed .. | .reportCancelled | .failStart =>
    inferInstanceAs (Decidable (r.standing = stored.standing))

/-- A commit is undisputed if nobody has changed since what its operation reads or writes, and if
it does not report on a record that already stands. -/
def SessionDb.Undisputed (d : SessionDb) : Label → Prop
  | .commit w _ => ∀ op ∈ d.busy w, ¬ op.rewrites d.stored ∧
      ∀ r ∈ d.loaded w, op.Agrees r d.stored
  | _ => True

instance (d : SessionDb) : (l : Label) → Decidable (d.Undisputed l)
  | .commit w _ => inferInstanceAs (Decidable (∀ op ∈ d.busy w, _ ∧ ∀ r ∈ d.loaded w, _))
  | .load .. | .settle _ => inferInstanceAs (Decidable True)

/-- What the repository keeps of a record: it has an end exactly where it is terminal, and the
error and the reason that belong to its status. -/
structure Sound (r : SessionRecord) : Prop where
  ended : r.endedAt.isSome = r.status.terminal
  failed : r.status = .failed →
    r.failureCode = r.errorCode ∧ r.failureDetail = r.errorMessage ∧ r.stopReason = none
  cancelled : r.status = .cancelled → r.stopReason ≠ none
  faultless : r.status = .completed ∨ r.status = .cancelled → r.errorCode = none ∧
    r.errorMessage = none ∧ r.failureCode = none ∧ r.failureDetail = none

/-- What an operation on a sound record leaves. -/
structure Proper (op : Operation) (r r' : SessionRecord) : Prop where
  sound : Sound r'
  follows : Follows r.status r'.status
  stands : r.status.terminal = true → ¬ op.rewrites r → r'.standing = r.standing
  survives : op.drains = true → ∀ x, r.stopReason = some x → r'.stopReason = some x

section flush
variable {r : SessionRecord} {a b c : Standing}

theorem standing_flush (r r' stored : SessionRecord) :
    (SessionRecord.flush r r' stored).standing =
      Standing.flush r.standing r'.standing stored.standing := rfl

theorem Standing.flush_fresh (a b : Standing) : Standing.flush a b a = b := by
  simp only [Standing.flush, flushed_fresh]

theorem Standing.flush_kept (a c : Standing) : Standing.flush a a c = c := by
  simp only [Standing.flush, flushed_kept]

theorem Standing.flush_status (h : a.status = c.status) (s : SessionStatus) :
    Standing.flush a { a with status := s } c = { c with status := s } := by
  simp only [Standing.flush, flushed_kept, h, flushed_fresh]

theorem Standing.flush_stopReason (h : a.stopReason = c.stopReason) (x : Option String) :
    Standing.flush a { a with stopReason := x } c = { c with stopReason := x } := by
  simp only [Standing.flush, flushed_kept, h, flushed_fresh]

/-- A writer that leaves the reason alone keeps the one that is stored. -/
theorem Standing.flush_reasonless
    (h : { a with stopReason := none } = { c with stopReason := none })
    (hb : b.stopReason = a.stopReason) :
    Standing.flush a b c = { b with stopReason := c.stopReason } := by
  simp only [Standing.mk.injEq] at h
  obtain ⟨hstatus, hended, -, hcode, hmessage, hfailure, hdetail⟩ := h
  simp only [Standing.flush, hb, hstatus, hended, hcode, hmessage, hfailure, hdetail, flushed_kept,
    flushed_fresh]

end flush

section operations
variable {r r' : SessionRecord} {now : Timestamp} {op : Operation}

theorem standing_eq_iff : r'.standing = r.standing ↔
    r'.status = r.status ∧ r'.endedAt = r.endedAt ∧ r'.stopReason = r.stopReason ∧
      r'.errorCode = r.errorCode ∧ r'.errorMessage = r.errorMessage ∧
      r'.failureCode = r.failureCode ∧ r'.failureDetail = r.failureDetail :=
  Standing.mk.injEq .. ▸ Iff.rfl

theorem Sound.of_standing (hr : Sound r) (h : r'.standing = r.standing) : Sound r' := by
  obtain ⟨hstatus, hended, hreason, hcode, hmessage, hfailure, hdetail⟩ := standing_eq_iff.mp h
  constructor
  · rw [hended, hstatus, hr.ended]
  · rw [hstatus, hfailure, hcode, hdetail, hmessage, hreason]
    exact hr.failed
  · rw [hstatus, hreason]
    exact hr.cancelled
  · rw [hstatus, hcode, hmessage, hfailure, hdetail]
    exact hr.faultless

theorem rewrites_congr (h : r'.standing = r.standing) : op.rewrites r' ↔ op.rewrites r := by
  obtain ⟨hstatus, -, hreason, hcode, hmessage, -, -⟩ := standing_eq_iff.mp h
  cases op <;> simp only [Operation.rewrites, hstatus, hreason, hcode, hmessage]

/-- What an operation leaves is proper by how the records stand alone. -/
theorem Proper.congr {s s' : SessionRecord} (h : Proper op r r') (hs : s.standing = r.standing)
    (hs' : s'.standing = r'.standing) : Proper op s s' := by
  obtain ⟨hstatus, -, hreason, -⟩ := standing_eq_iff.mp hs
  obtain ⟨hstatus', -, hreason', -⟩ := standing_eq_iff.mp hs'
  constructor
  · exact h.sound.of_standing hs'
  · rw [hstatus, hstatus']
    exact h.follows
  · rw [hstatus, rewrites_congr hs, hs, hs']
    exact h.stands
  · rw [hreason, hreason']
    exact h.survives

theorem Proper.of_standing (hr : Sound r) (h : r'.standing = r.standing) : Proper op r r' where
  sound := hr.of_standing h
  follows := .inl (standing_eq_iff.mp h).1.symm
  stands _ _ := h
  survives _ _ hx := (congrArg Standing.stopReason h).trans hx

theorem transition_ok {target : SessionStatus} (h : r.transition now target = .ok r') :
    r.status = target ∧ r' = r ∨
      target ∈ sessionTransitions r.status ∧ r'.standing = { r.standing with
        status := target
        endedAt := if target.terminal then some now else r.endedAt } := by
  obtain ⟨next, hnext, hwrite⟩ := bind_eq_ok.mp h
  obtain ⟨rfl, hedge⟩ := StatusTable.advance_eq_some.mp (transitionSessionStatus_ok.mp hnext)
  rw [pure_eq_ok] at hwrite
  by_cases hself : r.status = next
  · rw [if_pos hself] at hwrite
    exact .inl ⟨hself, hwrite.symm⟩
  · rw [if_neg hself] at hwrite
    refine .inr ⟨hedge.resolve_left hself, ?_⟩
    rw [← hwrite]
    rfl

theorem not_terminal_of_edge {s t : SessionStatus} (h : t ∈ sessionTransitions s) :
    s.terminal = false := by
  cases s <;> first | rfl | cases h

/-- A move changes the status alone, of a session that is open and stays so. -/
structure Moves (r r' : SessionRecord) : Prop where
  standing : r'.standing = { r.standing with status := r'.status }
  stays : r'.status ≠ r.status → r.status.terminal = false ∧ r'.status.terminal = false
  follows : Follows r.status r'.status

theorem Moves.refl (r : SessionRecord) : Moves r r := ⟨rfl, fun h => (h rfl).elim, .inl rfl⟩

theorem Moves.of_standing {r'' : SessionRecord} (h : Moves r r')
    (h' : r''.standing = r'.standing) : Moves r r'' := by
  have hstatus := (standing_eq_iff.mp h').1
  refine ⟨?_, ?_, ?_⟩ <;> rw [hstatus]
  · exact h'.trans h.standing
  · exact h.stays
  · exact h.follows

theorem Moves.of_transition {target : SessionStatus} (ht : target.terminal = false)
    (h : r.transition now target = .ok r') :
    Moves r r' ∧ r'.status = target ∧ (r' = r ∨ target ∈ sessionTransitions r.status) := by
  rcases transition_ok h with ⟨hself, rfl⟩ | ⟨hedge, hstanding⟩
  · exact ⟨.refl r', hself, .inl rfl⟩
  · have hstatus : r'.status = target := congrArg Standing.status hstanding
    refine ⟨⟨?_, fun _ => ⟨not_terminal_of_edge hedge, hstatus ▸ ht⟩, ?_⟩, hstatus, .inr hedge⟩
    · rw [hstanding, hstatus, if_neg (by simp [ht])]
      rfl
    · rw [hstatus]
      exact .inr (.inl hedge)

theorem Moves.of_leaveCreated (h : r.leaveCreated now = .ok r') : Moves r r' := by
  unfold SessionRecord.leaveCreated at h
  split_ifs at h
  · exact (Moves.of_transition rfl h).1
  · cases h
    exact .refl r

theorem Moves.of_enter {action : String} {r₁ : SessionRecord} (h₁ : r.leaveCreated now = .ok r₁)
    (h : r₁.enterRunning now action = .ok r') : Moves r r' := by
  unfold SessionRecord.enterRunning at h
  split_ifs at h with hstarting hrunning
  · obtain ⟨hsecond, hstatus, -⟩ := Moves.of_transition rfl h
    unfold SessionRecord.leaveCreated at h₁
    split_ifs at h₁ with hcreated
    · obtain ⟨hfirst, -, -⟩ := Moves.of_transition rfl h₁
      refine ⟨?_, fun _ => ?_, .inr (.inr ⟨.starting, ?_, ?_⟩)⟩
      · rw [hsecond.standing, hfirst.standing]
      · rw [hcreated, hstatus]
        exact ⟨rfl, rfl⟩
      · rw [hcreated]
        decide
      · rw [hstatus]
        decide
    · cases h₁
      exact hsecond
  · cases h
    exact .of_leaveCreated h₁

theorem Moves.of_startReplay {hls : Bool}
    (h : (Operation.startReplay hls).apply now r = .ok r') : Moves r r' := by
  obtain ⟨r₂, hstart, hsource⟩ := bind_eq_ok.mp h
  obtain ⟨r₁, hfirst, hsecond⟩ : ∃ r₁, r.leaveCreated now = .ok r₁ ∧
    r₁.enterRunning now "replay" = .ok r₂ := bind_eq_ok.mp hstart
  refine (Moves.of_enter hfirst hsecond).of_standing ?_
  rw [pure_eq_ok] at hsource
  rw [← hsource]
  split_ifs
  · rfl
  · unfold SessionRecord.markSourceRunning
    split_ifs <;> rfl

theorem Moves.of_markTranscribing {provider model : String}
    (h : r.markTranscribing now provider model = .ok r') : Moves r r' := by
  obtain ⟨_, -, hchecked⟩ := bind_eq_ok.mp h
  obtain ⟨_, -, hchecked⟩ := bind_eq_ok.mp hchecked
  obtain ⟨r₁, hfirst, hrest⟩ := bind_eq_ok.mp hchecked
  obtain ⟨r₂, hsecond, hwrite⟩ := bind_eq_ok.mp hrest
  refine (Moves.of_enter hfirst hsecond).of_standing ?_
  rw [pure_eq_ok] at hwrite
  rw [← hwrite]
  rfl

/-- A move is proper over every sound record with the status that it was made from. -/
theorem Proper.of_moves {s s' : SessionRecord} (hs : Sound s) (h : Moves r r')
    (hstatus : r.status = s.status)
    (hs' : s'.standing = { s.standing with status := r'.status }) : Proper op s s' := by
  by_cases hself : r'.status = r.status
  · refine .of_standing hs (hs'.trans ?_)
    rw [hself, hstatus]
    rfl
  · obtain ⟨hopen, hstays⟩ := h.stays hself
    have hnew : s'.status = r'.status := congrArg Standing.status hs'
    refine ⟨⟨?_, ?_, ?_, ?_⟩, ?_, ?_, ?_⟩
    · rw [show s'.endedAt = s.endedAt from congrArg Standing.endedAt hs', hs.ended, hnew, hstays,
        ← hstatus, hopen]
    · exact fun hfailed => absurd hstays (by rw [← hnew, hfailed]; decide)
    · exact fun hcancelled => absurd hstays (by rw [← hnew, hcancelled]; decide)
    · rintro (hended | hended) <;> exact absurd hstays (by rw [← hnew, hended]; decide)
    · rw [← hstatus, hnew]
      exact h.follows
    · intro hterminal
      rw [← hstatus, hopen] at hterminal
      cases hterminal
    · exact fun _ x hx => (congrArg Standing.stopReason hs').trans hx

/-- A transition to a terminal status: the record has an end then, and had one before only if it
had that status. -/
theorem transition_terminal {target : SessionStatus} (ht : target.terminal = true) (hr : Sound r)
    (h : r.transition now target = .ok r') :
    r'.status = target ∧ r'.endedAt.isSome = true ∧ Follows r.status target ∧
      r'.stopReason = r.stopReason ∧ (r.status.terminal = true → r.status = target ∧ r' = r) := by
  rcases transition_ok h with ⟨rfl, rfl⟩ | ⟨hedge, hstanding⟩
  · exact ⟨rfl, hr.ended.trans ht, .inl rfl, rfl, fun _ => ⟨rfl, rfl⟩⟩
  · refine ⟨congrArg Standing.status hstanding, ?_, .inr (.inl hedge),
      congrArg Standing.stopReason hstanding, fun hterminal => ?_⟩
    · rw [show r'.endedAt = _ from congrArg Standing.endedAt hstanding, if_pos ht]
      rfl
    · rw [not_terminal_of_edge hedge] at hterminal
      cases hterminal

theorem Proper.of_complete {metrics : RunMetrics} (hr : Sound r)
    (h : r.complete now metrics none = .ok r') : Proper (.complete metrics) r r' := by
  obtain ⟨_, -, hchecked⟩ := bind_eq_ok.mp h
  obtain ⟨r₁, htransition, hwrite⟩ := bind_eq_ok.mp hchecked
  obtain ⟨hstatus, hended, hfollows, hreason, hstands⟩ := transition_terminal rfl hr htransition
  rw [pure_eq_ok] at hwrite
  subst hwrite
  refine ⟨⟨?_, ?_, ?_, ?_⟩, ?_, ?_, ?_⟩
  · rw [hended, hstatus]
    rfl
  · exact fun hfailed => nomatch hstatus.symm.trans hfailed
  · exact fun hcancelled => nomatch hstatus.symm.trans hcancelled
  · exact fun _ => ⟨rfl, rfl, rfl, rfl⟩
  · rw [show r₁.status = .completed from hstatus]
    exact hfollows
  · intro hterminal _
    obtain ⟨hcompleted, rfl⟩ := hstands hterminal
    obtain ⟨hcode, hmessage, hfailure, hdetail⟩ := hr.faultless (.inl hcompleted)
    unfold SessionRecord.standing
    simp only [hcode, hmessage, hfailure, hdetail, Option.none_or]
  · exact fun _ x hx => hreason.trans hx

theorem Proper.of_fail {code message : String} (hr : Sound r) (hdrains : op.drains = false)
    (hop : r.status = .failed → ¬ op.rewrites r →
      r.errorCode = some code ∧ r.errorMessage = some message)
    (h : r.fail now code message = .ok r') : Proper op r r' := by
  obtain ⟨_, -, hchecked⟩ := bind_eq_ok.mp h
  obtain ⟨_, -, hchecked⟩ := bind_eq_ok.mp hchecked
  obtain ⟨r₁, htransition, hwrite⟩ := bind_eq_ok.mp hchecked
  obtain ⟨hstatus, hended, hfollows, hreason, hstands⟩ := transition_terminal rfl hr htransition
  rw [pure_eq_ok] at hwrite
  subst hwrite
  refine ⟨⟨?_, ?_, ?_, ?_⟩, ?_, ?_, ?_⟩
  · rw [hended, hstatus]
    rfl
  · exact fun _ => ⟨rfl, rfl, rfl⟩
  · exact fun hcancelled => nomatch hstatus.symm.trans hcancelled
  · rintro (hcompleted | hcancelled)
    · exact nomatch hstatus.symm.trans hcompleted
    · exact nomatch hstatus.symm.trans hcancelled
  · rw [show r₁.status = .failed from hstatus]
    exact hfollows
  · intro hterminal hrewrites
    obtain ⟨hfailed, rfl⟩ := hstands hterminal
    obtain ⟨hcode, hmessage⟩ := hop hfailed hrewrites
    obtain ⟨hfailure, hdetail, hnone⟩ := hr.failed hfailed
    unfold SessionRecord.standing
    simp only [hcode, hmessage, hfailure, hdetail, hnone]
  · intro hdrained
    rw [hdrains] at hdrained
    cases hdrained

theorem Proper.of_cancel {reason : String} (hr : Sound r)
    (hop : r.status = .cancelled → ¬ op.rewrites r →
      r.stopReason = some reason ∨ reason = "worker_cancelled")
    (hdrains : op.drains = true → reason = "worker_cancelled")
    (h : r.cancel now reason = .ok r') : Proper op r r' := by
  obtain ⟨r₁, htransition, hwrite⟩ := bind_eq_ok.mp h
  obtain ⟨hstatus, hended, hfollows, hreason, hstands⟩ := transition_terminal rfl hr htransition
  rw [pure_eq_ok] at hwrite
  subst hwrite
  -- The reason stays where there is one and the worker is cancelled.
  have hkept : ∀ x, r.stopReason = some x → r.stopReason = some reason ∨
    reason = "worker_cancelled" →
      (if r₁.stopReason = none ∨ reason ≠ "worker_cancelled" then some reason
        else r₁.stopReason) = r.stopReason := by
    intro x hx hsame
    rw [hreason]
    split_ifs with hwrites
    · rcases hsame with hsame | hworker
      · exact hsame.symm
      · rcases hwrites with hnone | hne
        · rw [hx] at hnone
          cases hnone
        · exact (hne hworker).elim
    · rfl
  refine ⟨⟨?_, ?_, ?_, ?_⟩, ?_, ?_, ?_⟩
  · rw [hended, hstatus]
    rfl
  · exact fun hfailed => nomatch hstatus.symm.trans hfailed
  · intro _
    show (if r₁.stopReason = none ∨ reason ≠ "worker_cancelled" then some reason
        else r₁.stopReason) ≠ none
    split_ifs with hwrites
    · exact nofun
    · exact fun hnone => hwrites (.inl hnone)
  · exact fun _ => ⟨rfl, rfl, rfl, rfl⟩
  · rw [show r₁.status = .cancelled from hstatus]
    exact hfollows
  · intro hterminal hrewrites
    obtain ⟨hcancelled, rfl⟩ := hstands hterminal
    obtain ⟨hcode, hmessage, hfailure, hdetail⟩ := hr.faultless (.inr hcancelled)
    obtain ⟨x, hx⟩ := Option.ne_none_iff_exists'.mp (hr.cancelled hcancelled)
    unfold SessionRecord.standing
    simp only [hcode, hmessage, hfailure, hdetail, hkept x hx (hop hcancelled hrewrites)]
  · exact fun hdrained x hx => (hkept x hx (.inr (hdrains hdrained))).trans hx

/-- The intent to stop is recorded on any record that has not failed. -/
theorem Proper.of_requestStop (hr : Sound r) (h : Operation.requestStop.apply now r = .ok r') :
    Proper .requestStop r r' := by
  have hwrite : (if r.status ≠ .failed ∧ r.stopReason = none then
      { r with stopReason := some "user_requested" } else r) = r' := pure_eq_ok.mp h
  split_ifs at hwrite with hstops
  · obtain ⟨hfailed, hnone⟩ := hstops
    subst hwrite
    refine ⟨⟨hr.ended, fun h => (hfailed h).elim, fun _ => nofun, hr.faultless⟩, .inl rfl, ?_,
      nofun⟩
    intro hterminal hrewrites
    have hcompleted : r.status ≠ .completed := fun h => hrewrites ⟨h, hnone⟩
    have hcancelled : r.status ≠ .cancelled := fun h => hr.cancelled h hnone
    cases hstatus : r.status <;> simp_all [SessionStatus.terminal]
  · subst hwrite
    exact .of_standing hr rfl

theorem standing_markSourceRunning (r : SessionRecord) :
    r.markSourceRunning.standing = r.standing := by
  unfold SessionRecord.markSourceRunning
  split_ifs <;> rfl

theorem standing_markSourceStopping (r : SessionRecord) :
    r.markSourceStopping.standing = r.standing := by
  unfold SessionRecord.markSourceStopping
  split_ifs <;> rfl

theorem standing_markSourceStopped (now : Timestamp) (r : SessionRecord)
    (detail : Option String) : (r.markSourceStopped now detail).standing = r.standing := by
  unfold SessionRecord.markSourceStopped
  split_ifs <;> rfl

theorem standing_markSourceCleanupFailed {detail : String}
    (h : r.markSourceCleanupFailed now detail = .ok r') : r'.standing = r.standing := by
  obtain ⟨_, -, hwrite⟩ := bind_eq_ok.mp h
  rw [pure_eq_ok] at hwrite
  subst hwrite
  split_ifs <;> rfl

theorem standing_markSourceLost {detail : String}
    (h : r.markSourceLost now detail = .ok r') : r'.standing = r.standing := by
  obtain ⟨_, -, hwrite⟩ := bind_eq_ok.mp h
  rw [pure_eq_ok] at hwrite
  subst hwrite
  rfl

theorem Proper.unless_terminal {p : Except SessionError SessionRecord} (hr : Sound r)
    (hp : r.status.terminal = false → p = .ok r' → Proper op r r')
    (h : (if r.status.terminal then return r else p) = .ok r') : Proper op r r' := by
  cases hterminal : r.status.terminal with
  | true =>
    rw [hterminal] at h
    cases h
    exact .of_standing hr rfl
  | false =>
    rw [hterminal] at h
    exact hp hterminal h

/-- The operations on the source of a session. -/
def Operation.onSource : Operation → Bool
  | .completeSourceCleanup | .failSourceCleanup _ | .lifecycle .. | .abortSource .. => true
  | _ => false

/-- What is done to the source leaves the session as it stands. -/
theorem standing_onSource (hop : op.onSource = true) (h : op.apply now r = .ok r') :
    r'.standing = r.standing := by
  cases op with
  | completeSourceCleanup =>
    cases h
    exact standing_markSourceStopped ..
  | failSourceCleanup errorType => exact standing_markSourceCleanupFailed h
  | lifecycle status detail =>
    cases status with
    | running =>
      cases h
      exact standing_markSourceRunning r
    | stopping =>
      cases h
      exact standing_markSourceStopping r
    | stopped =>
      cases h
      exact standing_markSourceStopped ..
    | failed => exact standing_markSourceCleanupFailed h
    | starting | lost =>
      cases h
      rfl
  | abortSource released detail =>
    cases released with
    | true =>
      cases h
      exact standing_markSourceStopped ..
    | false =>
      have hpending : (if r.sourceStatus = .stopped then return r
        else r.markSourceCleanupFailed now detail) = .ok r' := h
      split_ifs at hpending
      · cases hpending
        rfl
      · exact standing_markSourceCleanupFailed hpending
  | _ => cases hop

/-- The operations that keep an open session open. -/
def Operation.moves : Operation → Bool
  | .startReplay _ | .markTranscribing .. | .beginFinalizing | .markRoomReady => true
  | _ => false

theorem apply_moves (hop : op.moves = true) (h : op.apply now r = .ok r') : Moves r r' := by
  cases op with
  | startReplay hls => exact .of_startReplay h
  | markTranscribing provider model => exact .of_markTranscribing h
  | beginFinalizing => exact (Moves.of_transition rfl h).1
  | markRoomReady => exact .of_leaveCreated h
  | _ => cases hop

theorem apply_proper (hr : Sound r) (h : op.apply now r = .ok r') : Proper op r r' := by
  have hopen : ∀ {t : SessionStatus}, t.terminal = true → r.status.terminal = false →
      r.status ≠ t := by
    intro t ht hterminal heq
    rw [heq, ht] at hterminal
    cases hterminal
  cases op with
  | startReplay | markTranscribing | beginFinalizing | markRoomReady =>
    have hmoves := apply_moves rfl h
    exact .of_moves hr hmoves rfl hmoves.standing
  | completeSourceCleanup | failSourceCleanup | lifecycle | abortSource =>
    exact .of_standing hr (standing_onSource rfl h)
  | complete metrics => exact .of_complete hr h
  | fail code message =>
    refine .of_fail hr rfl (fun hfailed hrewrites => ?_) h
    by_contra hdiffers
    exact hrewrites ⟨hfailed, not_and_or.mp hdiffers⟩
  | cancel => exact .of_cancel hr (fun _ _ => .inr rfl) (fun _ => rfl) h
  | reportFailed code message =>
    refine .of_fail hr rfl (fun hfailed hrewrites => ?_) h
    by_contra hdiffers
    exact hrewrites ⟨hfailed, not_and_or.mp hdiffers⟩
  | reportCancelled =>
    refine .of_cancel hr (fun hcancelled hrewrites => .inl ?_) nofun h
    by_contra hdiffers
    exact hrewrites ⟨hcancelled, hdiffers⟩
  | cancelRun =>
    refine .unless_terminal hr (fun hterminal hcancel => ?_) h
    exact .of_cancel hr (fun hcancelled => (hopen rfl hterminal hcancelled).elim) nofun hcancel
  | closeRoom =>
    refine .unless_terminal hr (fun hterminal hcancel => ?_) h
    exact .of_cancel hr (fun hcancelled => (hopen rfl hterminal hcancelled).elim) nofun hcancel
  | failStart =>
    refine .of_fail hr rfl (fun hfailed hrewrites => ?_) h
    by_contra hdiffers
    exact hrewrites ⟨hfailed, not_and_or.mp hdiffers⟩
  | requestStop => exact .of_requestStop hr h
  | failSource code message =>
    refine .unless_terminal hr (fun hterminal hfail => ?_) h
    exact .of_fail hr rfl (fun hfailed => (hopen rfl hterminal hfailed).elim) hfail
  | reconcile =>
    refine .unless_terminal hr (fun hterminal hlost => ?_) h
    obtain ⟨r₁, hfail, hsource⟩ := bind_eq_ok.mp hlost
    have hfirst : Proper .reconcile r r₁ :=
      .of_fail hr rfl (fun hfailed => (hopen rfl hterminal hfailed).elim) hfail
    exact hfirst.congr rfl (standing_markSourceLost hsource)

theorem transition_reason {target : SessionStatus} (h : r.transition now target = .ok r')
    (x : Option String) :
    ({ r with stopReason := x } : SessionRecord).transition now target =
      .ok { r' with stopReason := x } := by
  obtain ⟨next, hnext, hwrite⟩ := bind_eq_ok.mp h
  refine bind_eq_ok.mpr ⟨next, hnext, pure_eq_ok.mpr ?_⟩
  rw [pure_eq_ok] at hwrite
  subst hwrite
  dsimp only
  split_ifs <;> rfl

/-- A completion neither reads nor writes the reason of a stop. -/
theorem complete_reason {metrics : RunMetrics} (h : r.complete now metrics none = .ok r')
    (x : Option String) :
    r'.stopReason = r.stopReason ∧
      ({ r with stopReason := x } : SessionRecord).complete now metrics none =
        .ok { r' with stopReason := x } := by
  obtain ⟨_, hmetrics, hchecked⟩ := bind_eq_ok.mp h
  obtain ⟨r₁, htransition, hwrite⟩ := bind_eq_ok.mp hchecked
  rw [pure_eq_ok] at hwrite
  subst hwrite
  constructor
  · rcases transition_ok htransition with ⟨-, rfl⟩ | ⟨-, hstanding⟩
    · rfl
    · exact congrArg Standing.stopReason hstanding
  · exact bind_eq_ok.mpr ⟨_, hmetrics, bind_eq_ok.mpr ⟨_, transition_reason htransition x, rfl⟩⟩

variable {stored : SessionRecord}

theorem Proper.of_same (hs : Sound stored) (hsame : r.standing = stored.standing)
    (h : op.apply now r = .ok r') : Proper op stored (SessionRecord.flush r r' stored) := by
  refine (apply_proper (hs.of_standing hsame) h).congr hsame.symm ?_
  rw [standing_flush, hsame, Standing.flush_fresh]

/-- The writer of an operation on open sessions may have seen the session end. -/
theorem Proper.of_seen (hs : Sound stored)
    (hseen : r.status.terminal = true ∨ r.standing = stored.standing)
    (hkeeps : r.status.terminal = true → op.apply now r = .ok r)
    (h : op.apply now r = .ok r') : Proper op stored (SessionRecord.flush r r' stored) := by
  rcases hseen with hterminal | hsame
  · obtain rfl := Except.ok.inj ((hkeeps hterminal).symm.trans h)
    exact .of_standing hs (Standing.flush_kept r.standing stored.standing)
  · exact .of_same hs hsame h

/-- Where its writer agrees with the stored record, an operation is proper over that record. -/
theorem flush_proper (hs : Sound stored) (hagrees : op.Agrees r stored)
    (h : op.apply now r = .ok r') : Proper op stored (SessionRecord.flush r r' stored) := by
  cases op with
  | startReplay | markTranscribing | beginFinalizing | markRoomReady =>
    have hmoves := apply_moves rfl h
    refine .of_moves hs hmoves hagrees ?_
    rw [standing_flush, hmoves.standing]
    exact Standing.flush_status (a := r.standing) (c := stored.standing) hagrees r'.status
  | completeSourceCleanup | failSourceCleanup | lifecycle | abortSource =>
    refine .of_standing hs ?_
    rw [standing_flush, standing_onSource rfl h, Standing.flush_kept]
  | complete metrics =>
    obtain ⟨hreason, hcomplete⟩ := complete_reason h stored.stopReason
    have hsame : ({ r with stopReason := stored.stopReason } : SessionRecord).standing =
        stored.standing := congrArg (fun s : Standing =>
      { s with stopReason := stored.stopReason }) hagrees
    have hproper : Proper (.complete metrics) { r with stopReason := stored.stopReason }
        { r' with stopReason := stored.stopReason } := .of_complete (hs.of_standing hsame) hcomplete
    refine hproper.congr hsame.symm ?_
    exact Standing.flush_reasonless (a := r.standing) (b := r'.standing) hagrees hreason
  | requestStop =>
    obtain ⟨hstatus, hreason⟩ := hagrees
    have hproper := apply_proper hs (show Operation.requestStop.apply now stored = .ok _ from rfl)
    refine hproper.congr rfl ?_
    have hwrite : (if r.status ≠ .failed ∧ r.stopReason = none then
        { r with stopReason := some "user_requested" } else r) = r' := pure_eq_ok.mp h
    by_cases hstops : r.status ≠ .failed ∧ r.stopReason = none
    · rw [if_pos hstops] at hwrite
      rw [standing_flush, ← hwrite, if_pos (hstatus ▸ hreason ▸ hstops)]
      exact Standing.flush_stopReason (a := r.standing) (c := stored.standing) hreason _
    · rw [if_neg hstops] at hwrite
      rw [standing_flush, ← hwrite, if_neg (hstatus ▸ hreason ▸ hstops)]
      exact Standing.flush_kept ..
  | cancelRun | closeRoom | failSource | reconcile =>
    exact .of_seen hs hagrees (fun hterminal => if_pos hterminal) h
  | fail | cancel | reportFailed | reportCancelled | failStart => exact .of_same hs hagrees h

end operations

/-- What undisputed commits keep: the stored record is sound, the history is lawful, and a record
that was terminal stands as it was. -/
structure Settles (d : SessionDb) : Prop where
  sound : Sound d.stored
  lawful : Lawful d.commits
  stands : ∀ c ∈ d.commits, c.after.status.terminal = true → d.stored.standing = c.after.standing

theorem Sound.create (targetLanguage : Option String) : Sound (.create targetLanguage) :=
  ⟨rfl, nofun, nofun, nofun⟩

theorem Lawful.nil : Lawful [] := ⟨by simp, .nil, by simp, by simp⟩

theorem Lawful.snoc {commits : List Commit} {c : Commit} (h : Lawful commits)
    (hc : Proper c.operation c.before c.after) (hop : ¬ c.operation.rewrites c.before)
    (hstands : ∀ b ∈ commits, b.after.status.terminal = true →
      c.before.standing = b.after.standing) : Lawful (commits ++ [c]) := by
  refine ⟨?_, ?_, ?_, ?_⟩
  · exact List.forall_mem_append.mpr ⟨h.follows, List.forall_mem_singleton.mpr hc.follows⟩
  · refine List.pairwise_append.mpr ⟨h.stands, List.pairwise_singleton _ _, ?_⟩
    intro b hb c' hc' hterminal
    rw [List.mem_singleton.mp hc']
    have hbefore := hstands b hb hterminal
    rw [← hbefore]
    refine hc.stands ?_ hop
    rw [show c.before.status = b.after.status from congrArg Standing.status hbefore]
    exact hterminal
  · exact List.forall_mem_append.mpr ⟨h.ended, List.forall_mem_singleton.mpr hc.sound.ended⟩
  · exact List.forall_mem_append.mpr ⟨h.survives, List.forall_mem_singleton.mpr hc.survives⟩

theorem Settles.next {d d' : SessionDb} {l : Label} (h : Settles d) (hl : d.Undisputed l)
    (hstep : d.next l = some d') : Settles d' := by
  cases l with
  | load w op reload =>
    simp only [SessionDb.next] at hstep
    split_ifs at hstep <;> cases hstep <;> exact ⟨h.sound, h.lawful, h.stands⟩
  | settle w =>
    cases hstep
    exact ⟨h.sound, h.lawful, h.stands⟩
  | commit w now =>
    cases hbusy : d.busy w with
    | none => simp [SessionDb.next, hbusy] at hstep
    | some op =>
      cases hloaded : d.loaded w with
      | none => simp [SessionDb.next, hbusy, hloaded] at hstep
      | some r =>
        obtain ⟨hrewrites, hagrees⟩ := hl op hbusy
        simp only [SessionDb.next, hbusy, hloaded] at hstep
        cases happly : op.apply now r with
        | error e =>
          rw [happly] at hstep
          cases hstep
          exact ⟨h.sound, h.lawful, h.stands⟩
        | ok r' =>
          rw [happly] at hstep
          simp only [Option.some.injEq] at hstep
          have hproper := flush_proper h.sound (hagrees r hloaded) happly
          have hstored : d'.stored = SessionRecord.flush r r' d.stored := by rw [← hstep]
          have hcommits : d'.commits = d.commits ++ [⟨op, d.stored, d'.stored⟩] := by
            rw [← hstep]
          rw [← hstored] at hproper
          refine ⟨hproper.sound, ?_, ?_⟩
          · rw [hcommits]
            exact h.lawful.snoc hproper hrewrites h.stands
          · rw [hcommits]
            intro c hc hterminal
            rcases List.mem_append.mp hc with hc | hc
            · have hstands := h.stands c hc hterminal
              rw [← hstands]
              refine hproper.stands ?_ hrewrites
              rw [show d.stored.status = c.after.status from congrArg Standing.status hstands]
              exact hterminal
            · rw [List.mem_singleton.mp hc]

/-- Where every commit is undisputed, the history of a session is lawful. -/
theorem session_lawful (targetLanguage : Option String) {ls : List Label} {d : SessionDb}
    (h : Run (Under SessionDb.Undisputed fun d l d' => d.next l = some d')
      (.start targetLanguage) ls d) : Lawful d.commits := by
  have hstart : Settles (.start targetLanguage) :=
    ⟨.create targetLanguage, .nil, fun c hc => by cases hc⟩
  exact (h.invariant (fun _ _ _ hd hstep => hd.next hstep.1 hstep.2) hstart).lawful

/-- A run that its user stops while it drains: the worker, which has loaded the record before,
completes it and keeps the reason. -/
def drainedRun : List Label :=
  [.load 0 (.startReplay true) true, .commit 0 1, .load 0 .beginFinalizing true, .commit 0 2,
    .load 0 (.complete ⟨1, none, none, 0, 4, 640⟩) true, .load 1 .requestStop true, .commit 1 3,
    .commit 0 4, .load 1 .closeRoom true, .commit 1 5]

theorem drainedRun_lawful :
    ∃ d, Run (Under SessionDb.Undisputed fun d l d' => d.next l = some d') (.start none)
      drainedRun d ∧ Lawful d.commits :=
  ⟨_, run_under_to_get SessionDb.Undisputed SessionDb.next drainedRun (.start none)
      (by decide +kernel),
    session_lawful none (run_under_to_get SessionDb.Undisputed SessionDb.next drainedRun
      (.start none) (by decide +kernel))⟩

/-- The worker fails a run that the user cancels between its reading and its writing. -/
def lostCancellation : List Label :=
  [.load 0 (.startReplay false) true, .commit 0 1,
    .load 0 (.fail "asr_stream_error" "Speech recognition stopped before completion.") true,
    .load 1 .cancelRun true, .commit 1 2, .commit 0 3]

theorem lostCancellation_unlawful :
    ∃ d, Run (fun d l d' => SessionDb.next d l = some d') (.start none) lostCancellation d ∧
      ¬ Lawful d.commits :=
  ⟨_, run_to_get SessionDb.next lostCancellation (.start none) (by decide +kernel),
    fun h => absurd h.stands (by decide +kernel)⟩

end Sessions
end Matinier
