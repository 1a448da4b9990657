import Matinier.MeetingAssistant.ViewVersions

/-!
# A meeting view that is kept current

The worker of a session stops where a refresh that began behind the last hint has succeeded and is
shown by the host, or where three refreshes failed in a row. It is so where a refresh of the worker
or of the opening fails only while there is reason to go on, and where an answer that was lost is
not relied on.
-/

namespace Matinier
namespace MeetingAssistant

variable {V : Type} {build : MeetingShown → Option V} {w w' : MeetingWorld V}
  {p q : MeetingSession V} {a : MeetingAction} {hostView : Option V} {task : LockTask}

namespace MeetingSession

/-- There is reason to go on behind a refresh that failed: a later one has succeeded or another will
be made, or it is the third in a row. -/
def Persists (p : MeetingSession V) (failures failedRounds : ℕ) : Prop :=
  p.history.fresh = true ∨ p.dirty = true ∨ 3 ≤ failedRounds ∨
    failures < 3 ∧ p.pollWanted = true

/-- A call may fail of a refresh of the worker or of the opening. -/
def MayFail (p : MeetingSession V) : Prop :=
  ∀ refresher readSucceeded call,
    p.holder = some (.calling (.refresh refresher readSucceeded) call) → refresher ≠ .command →
      p.Persists (p.failures + 1) (p.history.failedRounds + if readSucceeded then 1 else 0)

def MayFailToRead (p : MeetingSession V) (scope : Bool) : Prop :=
  ∀ refresher, p.holder = some (.reading refresher) → refresher ≠ .command →
    p.Persists (if scope then 3 else p.failures + 1) (p.history.failedRounds + 1)

def MayFailToBuild (build : MeetingShown → Option V) (p : MeetingSession V)
    (readSucceeded : Bool) : Prop :=
  p.view build = none → ∀ refresher, p.holder = some (.reading refresher) →
    refresher ≠ .command →
      p.Persists (p.failures + 1) (p.history.failedRounds + if readSucceeded then 1 else 0)

/-- To save the pointers is to put them. -/
def SavePuts (p : MeetingSession V) : Prop := p.saved ≠ some p.savedPointers

/-- To publish the view is to put the pointers first. -/
def PublishPuts (build : MeetingShown → Option V) (p : MeetingSession V) : Prop :=
  ∃ view, p.view build = some view ∧ (p.published = some view ∧ p.SavePuts ∨
    p.published ≠ some view ∧
      ({ p with viewVersion := p.viewVersion + 1 } : MeetingSession V).SavePuts)

def Puts (build : MeetingShown → Option V) (p : MeetingSession V) : MeetingAction → Prop
  | .confirms =>
    ({ p with notice := some .confirmationRequired } : MeetingSession V).PublishPuts build
  | .selects command => (p.move command).2 = false ∧
      ({ p with pointers := (p.move command).1, notice := none, failures := 0 } :
        MeetingSession V).SavePuts
  | .reads reading => (p.take reading).PublishPuts build
  | .failsToRead scope => (p.failRead scope).PublishPuts build
  | .admits operationId => (p.admitOperation operationId).SavePuts
  | .admitsUnknown =>
    ({ p with notice := some .operationUnknown } : MeetingSession V).PublishPuts build
  | _ => False

end MeetingSession

/-- No put is begun behind one whose answer was lost, no view is taken for published behind a
publication whose answer was lost, and no refresh of the worker or of the opening fails but with
reason to go on. -/
structure Orderly (build : MeetingShown → Option V) (w : MeetingWorld V) (p : MeetingSession V)
    (a : MeetingAction) : Prop where
  puts : p.Puts build a → w.lostPut = false
  shown : ∀ reading view, a = .reads reading → (p.take reading).view build = some view →
    p.published = some view → w.lostView = false
  builds : ∀ reading, a = .reads reading → (p.take reading).MayFailToBuild build true
  failsToRead : ∀ scope, a = .failsToRead scope →
    p.MayFailToRead scope ∧ (p.failRead scope).MayFailToBuild build false
  fails : a = .refuses ∨ a = .loses → p.MayFail

def MeetingWorld.Orderly (build : MeetingShown → Option V) (w : MeetingWorld V)
    (a : MeetingAction) : Prop :=
  ∀ p, w.session = some p → MeetingAssistant.Orderly build w p a

namespace MeetingSession

/-- There is reason to go on, or none is needed. -/
def Good (p : MeetingSession V) : Prop :=
  p.history.fresh = true ∨ p.dirty = true ∨ 3 ≤ p.history.failedRounds ∨ p.pollNeeded = true

/-- A refresh that succeeded, or three that failed, are behind a worker that has stopped. -/
def Stopped (p : MeetingSession V) : Prop :=
  p.opened = true → p.worker = none → p.history.fresh = true ∨ 3 ≤ p.history.failedRounds

/-- What holds while a refresh is under way: no hint came since it began, or there is a worker that
will make another; and behind a failed reading there is reason to go on. -/
def Ready (p : MeetingSession V) : LockTask → Prop
  | .refresh .worker true =>
    p.worker = some .refreshing ∧ (p.history.since = true ∨ p.dirty = true)
  | .refresh .worker false => p.worker = some .refreshing ∧ p.Good
  | .refresh .opening false => p.worker = none → p.Good
  | .refresh .command false => True
  | .refresh _ true => p.history.since = true ∨ p.worker ≠ none
  | _ => True

end MeetingSession

structure Attended (p : MeetingSession V) : Prop where
  calling : ∀ task call, p.holder = some (.calling task call) → p.Ready task
  reading : ∀ refresher, p.holder = some (.reading refresher) → p.Ready (.refresh refresher true)
  starting : p.worker = some .starting → p.dirty = true
  stopped : p.Stopped

namespace Attended

theorem free (hholder : q.holder = none) (hstarting : q.worker = some .starting → q.dirty = true)
    (hstopped : q.Stopped) : Attended q := by
  refine ⟨fun task call h => ?_, fun refresher h => ?_, hstarting, hstopped⟩
  · rw [hholder] at h
    cases h
  · rw [hholder] at h
    cases h

theorem schedule (dirty : Bool) (hholder : p.holder = none)
    (hstarting : p.worker = some .starting → p.dirty = true)
    (hstopped : p.dirty = false → p.pollNeeded = false → p.Stopped) :
    Attended (p.schedule dirty) := by
  simp only [MeetingSession.schedule]
  split_ifs with hworker hdirty hpoll
  · refine free hholder (fun h => ?_) fun hopened hnone => ?_
    · simp [hstarting h]
    · simp only at hnone
      rw [hnone] at hworker
      cases hworker
  · exact free hholder (fun _ => hdirty) fun hopened hnone => by cases hnone
  · exact free hholder (fun h => by cases h) fun hopened hnone => by cases hnone
  · have hclean : p.dirty = false := by
      simp only [Bool.or_eq_true, not_or, Bool.not_eq_true] at hdirty
      exact hdirty.1
    refine free hholder (fun h => ?_) ?_
    · have hstarting' : p.worker = some .starting := h
      simp [hstarting'] at hworker
    · exact hstopped hclean (by simpa using hpoll)

theorem loopHead (hholder : p.holder = none) (hgood : p.Good) : Attended p.loopHead := by
  unfold MeetingSession.loopHead
  split_ifs with hdirty hpoll
  · exact free hholder (fun h => by cases h) fun hopened hnone => by cases hnone
  · exact free hholder (fun h => by cases h) fun hopened hnone => by cases hnone
  · refine free hholder (fun h => by cases h) fun hopened hnone => ?_
    rcases hgood with hfresh | hgood | hrounds | hgood
    · exact Or.inl hfresh
    · exact absurd hgood hdirty
    · exact Or.inr hrounds
    · exact absurd hgood hpoll

theorem finishRefresh (refresher : Refresher)
    (hstarting : p.worker = some .starting → p.dirty = true) (hstopped : p.Stopped)
    (hworker : refresher = .worker → p.Good)
    (hopening : refresher = .opening → p.worker = none → p.Good) :
    Attended (p.finishRefresh refresher) := by
  cases refresher with
  | worker => exact loopHead rfl (hworker rfl)
  | command => exact schedule false rfl hstarting fun _ _ => hstopped
  | opening =>
    refine schedule false rfl hstarting fun hdirty hpoll hopened hnone => ?_
    rcases hopening rfl hnone with hfresh | hgood | hrounds | hgood
    · exact Or.inl hfresh
    · exact absurd (hgood.symm.trans hdirty) (by simp)
    · exact Or.inr hrounds
    · exact absurd (hgood.symm.trans hpoll) (by simp)

theorem fail (hstarting : p.worker = some .starting → p.dirty = true) (hstopped : p.Stopped)
    (hpersists : ∀ refresher readSucceeded, task = .refresh refresher readSucceeded →
      refresher ≠ .command →
        p.Persists (p.failures + 1) (p.history.failedRounds + if readSucceeded then 1 else 0)) :
    Attended (p.fail task) := by
  cases task with
  | refresh refresher readSucceeded =>
    have hgood : refresher ≠ .command → ({ p with
        failures := p.failures + 1
        errorCode := some .viewUnavailable
        history := { p.history with
          failedRounds := p.history.failedRounds + if readSucceeded then 1 else 0 } } :
        MeetingSession V).Good := by
      intro hcommand
      rcases hpersists refresher readSucceeded rfl hcommand with hfresh | hdirty | hrounds |
          ⟨hfailures, hwanted⟩
      · exact Or.inl hfresh
      · exact Or.inr (Or.inl hdirty)
      · exact Or.inr (Or.inr (Or.inl hrounds))
      · refine Or.inr (Or.inr (Or.inr ?_))
        have hwanted' : ({ p with failures := p.failures + 1 } :
          MeetingSession V).pollWanted = true :=
          hwanted
        exact Bool.and_eq_true_iff.mpr ⟨decide_eq_true hfailures, hwanted'⟩
    refine finishRefresh refresher hstarting (fun hopened hnone => ?_) (fun h => ?_) fun h _ => ?_
    · exact (hstopped hopened hnone).imp id fun h => Nat.le_add_right_of_le h
    · exact hgood (by simp [h])
    · exact hgood (by simp [h])
  | admitted =>
    exact schedule true rfl hstarting fun _ _ => hstopped
  | confirmation | unknown | selection => exact free rfl hstarting hstopped

/-- A batch of events is a hint, behind which the worker makes a refresh. -/
theorem eventBatch (h : Attended p) (sequences : List ℕ) : Attended (p.eventBatch sequences) := by
  simp only [MeetingSession.eventBatch, MeetingSession.schedule, Bool.or_true, if_true]
  split_ifs with hnew hworker
  · have hsome : p.worker ≠ none := by
      intro hnone
      simp [hnone] at hworker
    have hready : ∀ task, p.Ready task → ({ p with
        sequence := sequences.foldl max p.sequence
        dirty := true
        history := { p.history with fresh := false, since := false } } :
        MeetingSession V).Ready task := by
      intro task hready
      cases task with
      | refresh refresher readSucceeded =>
        cases refresher <;> cases readSucceeded
        · exact fun _ => Or.inr (Or.inl rfl)
        · exact Or.inr hsome
        · exact ⟨hready.1, Or.inr (Or.inl rfl)⟩
        · exact ⟨hready.1, Or.inr rfl⟩
        · exact trivial
        · exact Or.inr hsome
      | _ => trivial
    exact ⟨fun task call hcall => hready task (h.calling task call hcall),
      fun refresher hreading => hready _ (h.reading refresher hreading), fun _ => rfl,
      fun _ hnone => absurd hnone hsome⟩
  · have hnone : p.worker = none := by simpa using hworker
    -- The worker is made that was not there.
    have hready : ∀ task, p.Ready task → ({ p with
        sequence := sequences.foldl max p.sequence
        dirty := true
        worker := some .starting
        history := { p.history with fresh := false, since := false } } :
        MeetingSession V).Ready task := by
      intro task hready
      cases task with
      | refresh refresher readSucceeded =>
        cases refresher <;> cases readSucceeded
        · exact fun _ => Or.inr (Or.inl rfl)
        · exact Or.inr (Option.some_ne_none _)
        · cases hnone.symm.trans hready.1
        · cases hnone.symm.trans hready.1
        · exact trivial
        · exact Or.inr (Option.some_ne_none _)
      | _ => trivial
    exact ⟨fun task call hcall => hready task (h.calling task call hcall),
      fun refresher hreading => hready _ (h.reading refresher hreading), fun _ => rfl,
      fun _ hnone' => by cases hnone'⟩
  · exact h

/-- The worker goes to the lock, where its refresh will answer to all hints. -/
theorem wake (h : Attended p) (hworker : p.worker ≠ some .refreshing) : Attended p.wake := by
  have hready : ∀ task, p.Ready task → p.wake.Ready task := by
    intro task hready
    cases task with
    | refresh refresher readSucceeded =>
      cases refresher <;> cases readSucceeded
      · exact fun hnone => by cases hnone
      · exact Or.inr (Option.some_ne_none _)
      · exact absurd hready.1 hworker
      · exact absurd hready.1 hworker
      · exact trivial
      · exact Or.inr (Option.some_ne_none _)
    | _ => trivial
  exact ⟨fun task call hcall => hready task (h.calling task call hcall),
    fun refresher hreading => hready _ (h.reading refresher hreading),
    fun hstarting => (by cases hstarting), fun _ hnone => (by cases hnone)⟩

theorem call {call : HostCall V} (hready : p.Ready task)
    (hstarting : p.worker = some .starting → p.dirty = true) (hstopped : p.Stopped) :
    Attended ({ p with holder := some (.calling task call) } : MeetingSession V) := by
  refine ⟨fun task' call' h => ?_, fun refresher h => ?_, hstarting, hstopped⟩
  · obtain ⟨rfl, rfl⟩ := Holder.calling.inj (Option.some.inj h)
    cases task with
    | refresh refresher readSucceeded => cases refresher <;> cases readSucceeded <;> exact hready
    | _ => trivial
  · cases Option.some.inj h

variable [DecidableEq V]

theorem succeed (hready : p.Ready task) (hstarting : p.worker = some .starting → p.dirty = true)
    (hstopped : p.Stopped)
    (hview : ∀ refresher, task = .refresh refresher true →
      ∃ view, p.view build = some view ∧ hostView = some view) :
    Attended (p.succeed build hostView task) := by
  cases task with
  | refresh refresher readSucceeded =>
    cases readSucceeded with
    | true =>
      obtain ⟨view, hbuilt, hhost⟩ := hview refresher rfl
      -- A refresh behind which no hint came is fresh.
      have hfresh : p.history.since = true →
          (p.history.fresh || p.history.since && (p.view build).any (hostView = some ·)) =
            true := by
        intro hsince
        simp [hsince, hbuilt, hhost]
      have hsince : refresher ≠ .worker → p.worker = none → p.history.since = true := by
        intro hother hnone
        cases refresher with
        | worker => exact absurd rfl hother
        | opening => exact hready.resolve_right (not_not.mpr hnone)
        | command => exact hready.resolve_right (not_not.mpr hnone)
      refine finishRefresh refresher hstarting (fun hopened hnone => ?_)
        (fun h => ?_) fun h hnone => ?_
      · by_cases hworker : refresher = .worker
        · subst hworker
          cases hready.1.symm.trans hnone
        · exact Or.inl (hfresh (hsince hworker hnone))
      · subst h
        exact hready.2.imp hfresh Or.inl
      · exact Or.inl (hfresh (hsince (by simp [h]) hnone))
    | false =>
      refine finishRefresh refresher hstarting hstopped (fun h => ?_) fun h hnone => ?_
      · subst h
        exact hready.2
      · subst h
        exact hready hnone
  | admitted => exact schedule true rfl hstarting fun _ _ => hstopped
  | confirmation | unknown | selection => exact free rfl hstarting hstopped

theorem behindPut {row : Option (ViewRow V)} (hready : p.Ready task)
    (hstarting : p.worker = some .starting → p.dirty = true) (hstopped : p.Stopped)
    (hview : row = none → ∀ refresher, task = .refresh refresher true →
      ∃ view, p.view build = some view ∧ hostView = some view) :
    Attended (p.behindPut build hostView task row) := by
  cases row with
  | none => exact succeed hready hstarting hstopped (hview rfl)
  | some row => exact call hready hstarting hstopped

theorem save {row : Option (ViewRow V)} (hready : p.Ready task)
    (hstarting : p.worker = some .starting → p.dirty = true) (hstopped : p.Stopped)
    (hview : row = none → ∀ refresher, task = .refresh refresher true →
      ∃ view, p.view build = some view ∧ hostView = some view) :
    Attended (p.save build hostView task row) := by
  unfold MeetingSession.save
  split_ifs
  · exact behindPut hready hstarting hstopped hview
  · exact call hready hstarting hstopped

theorem publish (hready : p.Ready task) (hstarting : p.worker = some .starting → p.dirty = true)
    (hstopped : p.Stopped)
    (hbuild : p.view build = none → ∀ refresher readSucceeded,
      task = .refresh refresher readSucceeded → refresher ≠ .command →
        p.Persists (p.failures + 1) (p.history.failedRounds + if readSucceeded then 1 else 0))
    (hview : ∀ view, p.view build = some view → p.published = some view → ∀ refresher,
      task = .refresh refresher true → hostView = some view) :
    Attended (p.publish build hostView task) := by
  unfold MeetingSession.publish
  cases hbuilt : p.view build with
  | none => exact fail hstarting hstopped (hbuild hbuilt)
  | some view =>
    dsimp only
    split_ifs with hpublished
    · exact save hready hstarting hstopped fun _ refresher htask =>
        ⟨view, hbuilt, hview view hbuilt hpublished refresher htask⟩
    · refine save ?_ hstarting hstopped (by simp)
      cases task with
      | refresh refresher readSucceeded => cases refresher <;> cases readSucceeded <;> exact hready
      | _ => trivial

end Attended

/-- A put is under way only where no answer to one was lost, and a refresh that publishes nothing
only where no answer to a publication was. -/
structure Trusted (w : MeetingWorld V) (p : MeetingSession V) : Prop where
  puts : ∀ task value expectedVersion row,
    p.holder = some (.calling task (.put value expectedVersion row)) → w.lostPut = false
  shown : ∀ refresher value expectedVersion,
    p.holder = some (.calling (.refresh refresher true) (.put value expectedVersion none)) →
      w.lostView = false

namespace Trusted

theorem of_holder {w : MeetingWorld V} (h : Trusted w p) (hholder : q.holder = p.holder) :
    Trusted w q :=
  ⟨fun task value expectedVersion row hcall =>
    h.puts task value expectedVersion row (hholder ▸ hcall),
    fun refresher value expectedVersion hcall =>
      h.shown refresher value expectedVersion (hholder ▸ hcall)⟩

theorem free (hholder : ∀ task value expectedVersion row,
    q.holder ≠ some (.calling task (.put value expectedVersion row))) : Trusted w q :=
  ⟨fun task value expectedVersion row hcall =>
    absurd hcall (hholder task value expectedVersion row),
    fun _ value expectedVersion hcall => absurd hcall (hholder _ value expectedVersion none)⟩

theorem ends (hends : Ends p q) : Trusted w q := by
  apply free
  intro task value expectedVersion row
  rw [hends.holder]
  exact nofun

variable [DecidableEq V]

theorem behindPut (row : Option (ViewRow V)) : Trusted w (p.behindPut build hostView task row) := by
  cases row with
  | none => exact ends (p.succeed_ends hostView task)
  | some row => exact free fun _ _ _ _ h => by cases Option.some.inj h

theorem save {row : Option (ViewRow V)} (hputs : p.SavePuts → w.lostPut = false)
    (hshown : row = none → ∀ refresher, task = .refresh refresher true → w.lostView = false) :
    Trusted w (p.save build hostView task row) := by
  unfold MeetingSession.save
  split_ifs with hsaved
  · exact behindPut row
  · refine ⟨fun _ _ _ _ _ => hputs hsaved, fun refresher _ _ h => ?_⟩
    cases Option.some.inj h
    exact hshown rfl refresher rfl

theorem publish (hputs : p.PublishPuts build → w.lostPut = false)
    (hshown : ∀ view, p.view build = some view → p.published = some view → ∀ refresher,
      task = .refresh refresher true → w.lostView = false) :
    Trusted w (p.publish build hostView task) := by
  unfold MeetingSession.publish
  cases hbuilt : p.view build with
  | none => exact ends (p.fail_ends task)
  | some view =>
    dsimp only
    split_ifs with hpublished
    · exact save (fun h => hputs ⟨view, hbuilt, Or.inl ⟨hpublished, h⟩⟩) fun _ =>
        hshown view hbuilt hpublished
    · exact save (fun h => hputs ⟨view, hbuilt, Or.inr ⟨hpublished, h⟩⟩) (by simp)

end Trusted

structure OrderlyWorld (build : MeetingShown → Option V) (w : MeetingWorld V) : Prop where
  sound : SoundWorld build w
  attended : ∀ p, w.session = some p → Attended p
  trusted : ∀ p, w.session = some p → Trusted w p

theorem OrderlyWorld.goOn (hsound : SoundWorld build { w with session := some q })
    (hattended : Attended q) (htrusted : Trusted w q) :
    OrderlyWorld build { w with session := some q } := by
  refine ⟨hsound, fun q' hq' => ?_, fun q' hq' => ?_⟩
  · obtain rfl := Option.some.inj hq'
    exact hattended
  · obtain rfl := Option.some.inj hq'
    exact ⟨htrusted.puts, htrusted.shown⟩

theorem OrderlyWorld.initial : OrderlyWorld build ({} : MeetingWorld V) :=
  ⟨.initial, fun _ hp => (nomatch hp), fun _ hp => (nomatch hp)⟩

/-- A view that is published has a version above all that the host accepted, a put is at the
version of the host, and a worker that has stopped is behind a refresh that is shown or three that
failed. -/
structure MeetingWorld.ViewCurrent (w : MeetingWorld V) : Prop where
  published : ∀ p task row, w.session = some p → p.holder = some (.calling task (.publish row)) →
    ∀ v ∈ w.accepted, v < row.version
  put : ∀ p task value expectedVersion row, w.session = some p →
    p.holder = some (.calling task (.put value expectedVersion row)) → expectedVersion = w.version
  stopped : ∀ p, w.session = some p → p.opened = true → p.worker = none →
    p.history.fresh = true ∨ 3 ≤ p.history.failedRounds

theorem OrderlyWorld.viewCurrent (h : OrderlyWorld build w) : w.ViewCurrent where
  published p task row hp hholder := ((h.sound.session p hp).call task _ hholder).2.1
  put p task value expectedVersion row hp hholder := by
    have hsound := h.sound.session p hp
    have htold := hsound.told ((h.trusted p hp).puts task value expectedVersion row hholder)
    have hdue := hsound.call task _ hholder
    cases row with
    | none => exact hdue.2.1.trans htold
    | some row => exact hdue.2.1.trans htold
  stopped p hp := (h.attended p hp).stopped

variable [DecidableEq V]

theorem OrderlyWorld.step (h : OrderlyWorld build w)
    (hstep : Under (MeetingWorld.Orderly build) (MeetingSteps build) w a w') :
    OrderlyWorld build w' := by
  obtain ⟨horderly, hstep⟩ := hstep
  have hsound := h.sound.step hstep
  cases hstep with
  | opening afterSequence hclosed hrestorable =>
    refine ⟨hsound, fun q hq => ?_, fun q hq => ?_⟩
    · obtain rfl := Option.some.inj hq
      refine ⟨fun task call hcall => ?_, fun refresher hreading => ?_, fun hstarting => ?_,
        fun hopened => ?_⟩
      · simp [MeetingSession.opening] at hcall
      · cases refresher with
        | opening => exact Or.inl rfl
        | worker => simp [MeetingSession.opening] at hreading
        | command => simp [MeetingSession.opening] at hreading
      · cases hstarting
      · cases hopened
    · obtain rfl := Option.some.inj hq
      exact .free (by simp [MeetingSession.opening])
  | hint sequences hsession hopened =>
    exact .goOn hsound ((h.attended _ hsession).eventBatch sequences)
      ((h.trusted _ hsession).of_holder (MeetingSession.eventBatch_keeps _ sequences).2.1)
  | starts hsession hworker =>
    rename_i p
    have hp := h.attended p hsession
    have hhead : p.loopHead = p.wake := by
      unfold MeetingSession.loopHead
      rw [if_pos (hp.starting hworker)]
      rfl
    rw [hhead] at hsound ⊢
    exact .goOn hsound (hp.wake (by simp [hworker])) ((h.trusted p hsession).of_holder rfl)
  | wakes hsession hworker =>
    exact .goOn hsound ((h.attended _ hsession).wake (by simp [hworker]))
      ((h.trusted _ hsession).of_holder rfl)
  | workerRefreshes hsession hlock hworker =>
    refine .goOn hsound ⟨fun task call hcall => ?_, fun refresher hreading => ?_,
      (fun h => by cases h),
      fun _ h => by cases h⟩ (.free (by simp))
    · simp at hcall
    · obtain rfl : Refresher.worker = refresher := by simpa using hreading
      exact ⟨rfl, Or.inl rfl⟩
  | commandRefreshes hsession hlock hwaits =>
    have hp := h.attended _ hsession
    refine .goOn hsound ⟨fun task call hcall => ?_, fun refresher hreading => ?_, hp.starting,
      hp.stopped⟩ (.free (by simp))
    · simp at hcall
    · obtain rfl : Refresher.command = refresher := by simpa using hreading
      exact Or.inl rfl
  | confirms hsession hopened hlock =>
    have hp := h.attended _ hsession
    refine .goOn hsound (.publish trivial hp.starting hp.stopped (by simp) (by simp))
      (.publish ?_ (by simp))
    exact (horderly _ hsession).puts
  | applies hsession hopened hlock hroom =>
    have hp := h.attended _ hsession
    refine .goOn hsound ⟨fun task call hcall => ?_, fun refresher hreading => ?_, hp.starting,
      hp.stopped⟩ (.free (by simp))
    · simp at hcall
    · simp at hreading
  | selects command hsession hopened hlock =>
    rename_i p
    have hp := h.attended p hsession
    have hputs := (horderly p hsession).puts
    apply OrderlyWorld.goOn hsound
    · unfold MeetingSession.selectCommand
      split
      · exact .free hlock hp.starting hp.stopped
      · exact .save trivial hp.starting hp.stopped fun _ _ heq => by cases heq
    · unfold MeetingSession.selectCommand
      split
      · exact .free (by simp [hlock])
      · rename_i pointers hmove
        refine .save (fun hsaves => hputs ⟨by rw [hmove], ?_⟩) fun _ _ heq => by cases heq
        rw [hmove]
        exact hsaves
  | reads reading hsession hholder hfits =>
    rename_i p refresher
    have hp := h.attended p hsession
    have hready : (p.take reading).Ready (.refresh refresher true) := by
      have hready := hp.reading refresher hholder
      cases refresher <;> exact hready
    have hshown := (horderly p hsession).shown reading
    apply OrderlyWorld.goOn hsound
    · refine .publish hready hp.starting hp.stopped ?_ fun view hbuilt hpublished _ _ => ?_
      · rintro hnone refresher' readSucceeded heq
        obtain ⟨rfl, rfl⟩ := LockTask.refresh.inj heq
        exact (horderly p hsession).builds reading rfl hnone refresher hholder
      · exact (h.sound.session p hsession).published (hshown view rfl hbuilt hpublished) view
          hpublished
    · exact .publish (horderly p hsession).puts fun view hbuilt hpublished _ _ =>
        hshown view rfl hbuilt hpublished
  | failsToRead scope hsession hholder =>
    rename_i p refresher
    have hp := h.attended p hsession
    obtain ⟨hread, hbuild⟩ := (horderly p hsession).failsToRead scope rfl
    have hmay := hread refresher hholder
    have hgood : refresher ≠ .command → (p.failRead scope).Good := by
      intro hcommand
      rcases hmay hcommand with hfresh | hdirty | hrounds | ⟨hfailures, hwanted⟩
      · exact Or.inl hfresh
      · exact Or.inr (Or.inl hdirty)
      · exact Or.inr (Or.inr (Or.inl hrounds))
      · have hwanted' : (p.failRead scope).pollWanted = true := hwanted
        exact Or.inr (Or.inr (Or.inr (Bool.and_eq_true_iff.mpr
          ⟨decide_eq_true hfailures, hwanted'⟩)))
    have hready : (p.failRead scope).Ready (.refresh refresher false) := by
      have hready := hp.reading refresher hholder
      cases refresher with
      | opening => exact fun _ => hgood (by simp)
      | worker => exact ⟨hready.1, hgood (by simp)⟩
      | command => trivial
    have hstopped : (p.failRead scope).Stopped := fun hopened hnone =>
      (hp.stopped hopened hnone).imp id Nat.le_succ_of_le
    apply OrderlyWorld.goOn hsound
    · refine .publish hready hp.starting hstopped ?_ (by simp)
      rintro hnone refresher' readSucceeded heq
      obtain ⟨rfl, rfl⟩ := LockTask.refresh.inj heq
      exact hbuild hnone refresher hholder
    · exact .publish (horderly p hsession).puts (by simp)
  | admits operationId hsession hholder hidentifier =>
    have hp := h.attended _ hsession
    refine .goOn hsound (.save trivial hp.starting hp.stopped ?_) (.save ?_ ?_)
    · exact fun _ _ heq => by cases heq
    · exact (horderly _ hsession).puts
    · exact fun _ _ heq => by cases heq
  | admitsUnknown hsession hholder =>
    have hp := h.attended _ hsession
    refine .goOn hsound (.publish trivial hp.starting hp.stopped (by simp) (by simp))
      (.publish ?_ (by simp))
    exact (horderly _ hsession).puts
  | answers hsession hholder haccepts hreadable =>
    rename_i p task call
    have hp := h.attended p hsession
    have hready := hp.calling task call hholder
    have hdue := (h.sound.session p hsession).call task call hholder
    apply OrderlyWorld.goOn hsound
    · cases call with
      | put value expectedVersion row =>
        have hready' : ({ p with stateVersion := expectedVersion + 1, saved := some value } :
            MeetingSession V).Ready task := by
          cases task with
          | refresh refresher readSucceeded =>
            cases refresher <;> cases readSucceeded <;> exact hready
          | _ => trivial
        refine .behindPut hready' hp.starting hp.stopped fun hrow refresher htask => ?_
        subst hrow htask
        exact hdue.2.2 ⟨refresher, rfl⟩ ((h.trusted p hsession).shown refresher _ _ hholder)
      | publish row =>
        have hready' : ({ p with published := some row.view } : MeetingSession V).Ready task := by
          cases task with
          | refresh refresher readSucceeded =>
            cases refresher <;> cases readSucceeded <;> exact hready
          | _ => trivial
        refine .succeed hready' hp.starting hp.stopped fun _ _ => ?_
        exact ⟨row.view, hdue.2.2.2, rfl⟩
    · cases call with
      | put value expectedVersion row => exact .behindPut row
      | publish row => exact .ends (MeetingSession.succeed_ends _ _ _)
  | refuses hsession hholder =>
    rename_i p task call
    have hp := h.attended p hsession
    have hmay := (horderly p hsession).fails (Or.inl rfl)
    refine .goOn hsound (.fail hp.starting hp.stopped fun refresher readSucceeded htask => ?_)
      (.ends (p.fail_ends task))
    exact hmay refresher readSucceeded call (htask ▸ hholder)
  | loses hsession hholder haccepts =>
    rename_i p task call
    have hp := h.attended p hsession
    have hmay := (horderly p hsession).fails (Or.inr rfl)
    refine .goOn hsound (.fail hp.starting hp.stopped fun refresher readSucceeded htask => ?_)
      (.ends (p.fail_ends task))
    exact hmay refresher readSucceeded call (htask ▸ hholder)
  | closes => exact ⟨hsound, fun q hq => (by cases hq), fun q hq => (by cases hq)⟩
  | closesBehind hsession hholder haccepts =>
    exact ⟨hsound, fun q hq => (by cases hq), fun q hq => (by cases hq)⟩

theorem view_current {actions : List MeetingAction}
    (hrun : Run (Under (MeetingWorld.Orderly build) (MeetingSteps build)) {} actions w) :
    w.ViewCurrent :=
  (hrun.invariant (fun _ _ _ h hstep => OrderlyWorld.step h hstep) OrderlyWorld.initial).viewCurrent

/-- A view shows all that it is built of. -/
def showAll : MeetingShown → Option MeetingShown := some

def quietSnapshot : MeetingSnapshot where
  processing := .inactive
  candidates := []
  marks := []
  executions := []
  nextOffset := 0
  nextCursor := 0
  hasMore := false
  hasMoreEvents := false
  data := ""

def quietReading : MeetingReading where
  snapshot := quietSnapshot
  liveExecutions := []
  operations := []
  selected := none

def laterReading : MeetingReading := { quietReading with
  snapshot := { quietSnapshot with data := "later" } }

def MeetingAction.fails : MeetingAction → Bool
  | .failsToRead _ | .refuses | .loses => true
  | _ => false

/-- Where no answer to a put was lost, a step is orderly that takes no view for published, and that
fails only where a hint is waiting. -/
theorem orderly_of {w : MeetingWorld MeetingShown} (hputs : w.lostPut = false)
    (hshown : w.lostView = false ∨ ∀ reading, a = .reads reading → ∀ p, w.session = some p →
      p.published ≠ some (p.take reading).shown)
    (hfails : a.fails = false ∨ ∀ p, w.session = some p → p.dirty = true) :
    w.Orderly showAll a := by
  intro p hp
  have hdirty : a.fails = true → p.dirty = true := fun h =>
    hfails.elim (fun hnone => absurd (h.symm.trans hnone) (by decide)) fun hdirty => hdirty p hp
  refine ⟨fun _ => hputs, fun reading view ha hview hpublished => ?_, fun _ _ => nofun, ?_, ?_⟩
  · rcases hshown with hshown | hshown
    · exact hshown
    · obtain rfl : (p.take reading).shown = view := Option.some.inj hview
      exact absurd hpublished (hshown reading ha p hp)
  · rintro scope rfl
    exact ⟨fun _ _ _ => .inr (.inl (hdirty rfl)), nofun⟩
  · rintro (rfl | rfl) <;> exact fun _ _ _ _ _ => .inr (.inl (hdirty rfl))

/-- A hint is followed by a refresh whose reading fails, and the answer to its publication is lost;
after another hint the worker finds something new, and stops behind it. -/
def quietTrace : List MeetingAction :=
  [.opening 0, .reads quietReading, .answers, .answers, .hint [1], .starts, .workerRefreshes,
    .hint [2], .failsToRead false, .answers, .loses, .workerRefreshes, .reads laterReading,
    .answers, .answers]

theorem quiet_viewCurrent :
    ∃ w, Run (Under (MeetingWorld.Orderly showAll) (MeetingSteps showAll)) {} quietTrace w ∧
      (∃ p, w.session = some p ∧ p.opened = true ∧ p.worker = none ∧ p.history.fresh = true) ∧
      w.accepted = [3, 2, 1] ∧ w.ViewCurrent := by
  have hreadable : ∀ {n}, n < 5 → n + 1 ≤ maxInteger := fun hn => hn.trans (by decide)
  have hrun : ∃ w,
      Run (Under (MeetingWorld.Orderly showAll) (MeetingSteps showAll)) {} quietTrace w ∧
      (∃ p, w.session = some p ∧ p.opened = true ∧ p.worker = none ∧ p.history.fresh = true) ∧
      w.accepted = [3, 2, 1] := by
    refine ⟨_, .more ⟨fun p hp => (nomatch hp), .opening 0 rfl rfl⟩ <|
      .more ⟨orderly_of rfl (.inl rfl) (.inl rfl), .reads _ rfl rfl ⟨rfl, rfl⟩⟩ <|
      .more ⟨orderly_of rfl (.inl rfl) (.inl rfl),
        .answers rfl rfl rfl (hreadable (by decide))⟩ <|
      .more ⟨orderly_of rfl (.inl rfl) (.inl rfl), .answers rfl rfl rfl trivial⟩ <|
      .more ⟨orderly_of rfl (.inl rfl) (.inl rfl), .hint _ rfl rfl⟩ <|
      .more ⟨orderly_of rfl (.inl rfl) (.inl rfl), .starts rfl rfl⟩ <|
      .more ⟨orderly_of rfl (.inl rfl) (.inl rfl), .workerRefreshes rfl rfl rfl⟩ <|
      .more ⟨orderly_of rfl (.inl rfl) (.inl rfl), .hint _ rfl rfl⟩ <|
      .more ⟨orderly_of rfl (.inl rfl) (.inr fun p hp => ?_), .failsToRead false rfl rfl⟩ <|
      .more ⟨orderly_of rfl (.inl rfl) (.inl rfl),
        .answers rfl rfl rfl (hreadable (by decide))⟩ <|
      .more ⟨orderly_of rfl (.inl rfl) (.inr fun p hp => ?_), .loses rfl rfl rfl⟩ <|
      .more ⟨orderly_of rfl (.inr nofun) (.inl rfl), .workerRefreshes rfl rfl rfl⟩ <|
      .more ⟨orderly_of rfl (.inr ?_) (.inl rfl), .reads _ rfl rfl ⟨rfl, rfl⟩⟩ <|
      .more ⟨orderly_of rfl (.inr nofun) (.inl rfl),
        .answers rfl rfl rfl (hreadable (by decide))⟩ <|
      .single ⟨orderly_of rfl (.inr nofun) (.inl rfl), .answers rfl rfl rfl trivial⟩,
      ⟨_, rfl, rfl, rfl, rfl⟩, rfl⟩
    · rw [← Option.some.inj hp]
      rfl
    · rw [← Option.some.inj hp]
      rfl
    · rintro _ ⟨⟩ p hp
      rw [← Option.some.inj hp]
      decide
  obtain ⟨w, hrun, hstopped, haccepted⟩ := hrun
  exact ⟨w, hrun, hstopped, haccepted, view_current hrun⟩

/-- The first reading fails and the view that says so is published: the worker is not made. Or the
answer to the put behind it is lost: the next put is at version 0 while the host is at version 1. -/
theorem quiet_not_viewCurrent :
    (∃ w, Run (MeetingSteps showAll) {}
        [.opening 0, .failsToRead false, .answers, .answers] w ∧
      (∃ p, w.session = some p ∧ p.opened = true ∧ p.worker = none ∧ p.history.fresh = false ∧
        p.history.failedRounds = 1) ∧ ¬ w.ViewCurrent) ∧
    ∃ w, Run (MeetingSteps showAll) {}
        [.opening 0, .reads quietReading, .loses, .selects .refresh] w ∧
      w.version = 1 ∧ ¬ w.ViewCurrent := by
  constructor
  · refine ⟨_, .more (.opening 0 rfl rfl) <| .more (.failsToRead false rfl rfl) <|
      .more (.answers rfl rfl rfl (by decide : 0 + 1 ≤ maxInteger)) <|
      .single (.answers rfl rfl rfl trivial), ⟨_, rfl, rfl, rfl, rfl, rfl⟩, fun hcurrent => ?_⟩
    have hstopped := hcurrent.stopped _ rfl rfl rfl
    exact absurd hstopped (by decide)
  · refine ⟨_, .more (.opening 0 rfl rfl) <| .more (.reads _ rfl rfl ⟨rfl, rfl⟩) <|
      .more (.loses rfl rfl rfl) <| .single (.selects .refresh rfl rfl rfl), rfl,
      fun hcurrent => ?_⟩
    have hput := hcurrent.put _ _ _ _ _ rfl rfl
    exact absurd hput (by decide)

end MeetingAssistant
end Matinier
