import Matinier.MeetingAssistant.SessionMachine

/-!
# Versions of what a meeting session stores and publishes

The version of a view is stored before the view is published, so that no version is used twice
whatever answers are lost. Where no answer to a put was lost, the session knows the version of its
state; where no answer to the last publication was lost, it knows the view that the host has.
-/

namespace Matinier
namespace MeetingAssistant

variable {V : Type} {build : MeetingShown → Option V} {w w' : MeetingWorld V}
  {p q : MeetingSession V} {a : MeetingAction} {hostView : Option V} {task : LockTask}

/-- The versions and what is known to be stored and published are the same. -/
structure Keeps (p q : MeetingSession V) : Prop where
  viewVersion : q.viewVersion = p.viewVersion
  stateVersion : q.stateVersion = p.stateVersion
  saved : q.saved = p.saved
  published : q.published = p.published

/-- Work is over, and the lock is free. -/
structure Ends (p q : MeetingSession V) : Prop extends Keeps p q where
  holder : q.holder = none

theorem Keeps.refl (p : MeetingSession V) : Keeps p p := ⟨rfl, rfl, rfl, rfl⟩

namespace MeetingSession

theorem schedule_keeps (p : MeetingSession V) (dirty : Bool) :
    Keeps p (p.schedule dirty) ∧ (p.schedule dirty).holder = p.holder ∧
      (p.schedule dirty).shown = p.shown := by
  simp only [schedule]
  split_ifs <;> exact ⟨⟨rfl, rfl, rfl, rfl⟩, rfl, rfl⟩

theorem loopHead_keeps (p : MeetingSession V) :
    Keeps p p.loopHead ∧ p.loopHead.holder = p.holder ∧ p.loopHead.shown = p.shown := by
  simp only [loopHead]
  split_ifs <;> exact ⟨⟨rfl, rfl, rfl, rfl⟩, rfl, rfl⟩

theorem eventBatch_keeps (p : MeetingSession V) (sequences : List ℕ) :
    Keeps p (p.eventBatch sequences) ∧ (p.eventBatch sequences).holder = p.holder ∧
      (p.eventBatch sequences).shown = p.shown := by
  simp only [eventBatch]
  split_ifs
  · obtain ⟨hkeeps, hholder, hshown⟩ := schedule_keeps ({ p with
      sequence := sequences.foldl max p.sequence
      history := { p.history with fresh := false, since := false } } : MeetingSession V) true
    exact ⟨⟨hkeeps.viewVersion, hkeeps.stateVersion, hkeeps.saved, hkeeps.published⟩, hholder,
      hshown⟩
  · exact ⟨.refl p, rfl, rfl⟩

theorem finishRefresh_ends (p : MeetingSession V) (refresher : Refresher) :
    Ends p (p.finishRefresh refresher) := by
  cases refresher with
  | opening =>
    obtain ⟨hkeeps, hholder, -⟩ :=
      schedule_keeps ({ p with holder := none, opened := true } : MeetingSession V) false
    exact ⟨⟨hkeeps.viewVersion, hkeeps.stateVersion, hkeeps.saved, hkeeps.published⟩, hholder⟩
  | worker =>
    obtain ⟨hkeeps, hholder, -⟩ := loopHead_keeps ({ p with holder := none } : MeetingSession V)
    exact ⟨⟨hkeeps.viewVersion, hkeeps.stateVersion, hkeeps.saved, hkeeps.published⟩, hholder⟩
  | command =>
    obtain ⟨hkeeps, hholder, -⟩ :=
      schedule_keeps ({ p with holder := none } : MeetingSession V) false
    exact ⟨⟨hkeeps.viewVersion, hkeeps.stateVersion, hkeeps.saved, hkeeps.published⟩, hholder⟩

theorem fail_ends (p : MeetingSession V) (task : LockTask) : Ends p (p.fail task) := by
  cases task with
  | refresh refresher readSucceeded =>
    obtain ⟨hkeeps, hholder⟩ := finishRefresh_ends ({ p with
      failures := p.failures + 1
      errorCode := some .viewUnavailable
      history := { p.history with
        failedRounds := p.history.failedRounds + if readSucceeded then 1 else 0 } } :
      MeetingSession V) refresher
    exact ⟨⟨hkeeps.viewVersion, hkeeps.stateVersion, hkeeps.saved, hkeeps.published⟩, hholder⟩
  | admitted =>
    obtain ⟨hkeeps, hholder, -⟩ := schedule_keeps
      ({ p with holder := none, errorCode := some .viewUnavailable } : MeetingSession V) true
    exact ⟨⟨hkeeps.viewVersion, hkeeps.stateVersion, hkeeps.saved, hkeeps.published⟩, hholder⟩
  | confirmation | unknown | selection => exact ⟨⟨rfl, rfl, rfl, rfl⟩, rfl⟩

end MeetingSession

namespace MeetingWorld

/-- Every version that the host accepted is below. -/
def Above (w : MeetingWorld V) (version : ℕ) : Prop := ∀ v ∈ w.accepted, v < version

/-- A version of the view is stored, or a higher one is. -/
def Reserves (w : MeetingWorld V) (version : ℕ) : Prop :=
  ∃ s, w.stored = some s ∧ version ≤ s.viewVersion

end MeetingWorld

/-- A call that is under way has the version of the view, which is above all that the host accepted
where a view is to be published. A refresh that publishes nothing has a view that the host has. -/
def Due (build : MeetingShown → Option V) (w : MeetingWorld V) (p : MeetingSession V)
    (task : LockTask) : HostCall V → Prop
  | .put value expectedVersion (some row) =>
    value.viewVersion = p.viewVersion ∧ expectedVersion = p.stateVersion ∧
      row.version = p.viewVersion ∧ w.Above row.version ∧ p.view build = some row.view
  | .put value expectedVersion none =>
    value.viewVersion = p.viewVersion ∧ expectedVersion = p.stateVersion ∧
      ((∃ refresher, task = .refresh refresher true) → w.lostView = false →
        ∃ view, p.view build = some view ∧ w.hostView = some view)
  | .publish row =>
    row.version = p.viewVersion ∧ w.Above row.version ∧ w.Reserves row.version ∧
      p.view build = some row.view

structure Sound (build : MeetingShown → Option V) (w : MeetingWorld V) (p : MeetingSession V) :
    Prop where
  stored : ∀ s, w.stored = some s → s.viewVersion ≤ p.viewVersion
  saved : ∀ s, p.saved = some s → w.Reserves s.viewVersion
  told : w.lostPut = false → p.stateVersion = w.version
  published : w.lostView = false → ∀ v, p.published = some v → w.hostView = some v
  call : ∀ task call, p.holder = some (.calling task call) → Due build w p task call

namespace Sound

theorem rest (h : Sound build w p) (hkeeps : Keeps p q)
    (hholder : ∀ task call, q.holder ≠ some (.calling task call)) : Sound build w q where
  stored s hs := (h.stored s hs).trans_eq hkeeps.viewVersion.symm
  saved s hs := h.saved s (hkeeps.saved ▸ hs)
  told hlost := hkeeps.stateVersion.trans (h.told hlost)
  published hlost v hv := h.published hlost v (hkeeps.published ▸ hv)
  call task call hcall := absurd hcall (hholder task call)

theorem ends (h : Sound build w p) (hends : Ends p q) : Sound build w q := by
  apply h.rest hends.toKeeps
  intro task call
  rw [hends.holder]
  exact nofun

theorem ended (h : Sound build w ({ p with holder := none } : MeetingSession V))
    (hends : Ends p q) :
    Sound build w q := by
  apply h.rest ⟨hends.viewVersion, hends.stateVersion, hends.saved, hends.published⟩
  intro task call
  rw [hends.holder]
  exact nofun

theorem within (h : Sound build w p) (session : Option (MeetingSession V)) :
    Sound build { w with session := session } p :=
  ⟨h.stored, h.saved, h.told, h.published, fun task call hcall => by
    have hdue := h.call task call hcall
    cases call with
    | put value expectedVersion row => cases row <;> exact hdue
    | publish row => exact hdue⟩

theorem goOn (h : Sound build w p) (hkeeps : Keeps p q) (hholder : q.holder = p.holder)
    (hshown : q.shown = p.shown) : Sound build w q := by
  have hview : q.view build = p.view build := by
    unfold MeetingSession.view
    rw [hshown]
  refine ⟨fun s hs => (h.stored s hs).trans_eq hkeeps.viewVersion.symm,
    fun s hs => h.saved s (hkeeps.saved ▸ hs),
    fun hlost => hkeeps.stateVersion.trans (h.told hlost),
    fun hlost v hv => h.published hlost v (hkeeps.published ▸ hv), fun task call hcall => ?_⟩
  have hdue := h.call task call (hholder ▸ hcall)
  cases call with
  | put value expectedVersion row =>
    cases row with
    | none =>
      rw [Due, hkeeps.viewVersion, hkeeps.stateVersion, hview]
      exact hdue
    | some row =>
      rw [Due, hkeeps.viewVersion, hkeeps.stateVersion, hview]
      exact hdue
  | publish row =>
    rw [Due, hkeeps.viewVersion, hview]
    exact hdue

end Sound

/-- A version that the host accepted is stored, or a higher one is, and the session is in order. -/
structure SoundWorld (build : MeetingShown → Option V) (w : MeetingWorld V) : Prop where
  accepted : ∀ v ∈ w.accepted, w.Reserves v
  session : ∀ p, w.session = some p → Sound build w p

theorem SoundWorld.applied {call : HostCall V} (h : SoundWorld build w)
    (hsession : w.session = some p) (hholder : p.holder = some (.calling task call)) :
    ∀ v ∈ (w.applied call).accepted, (w.applied call).Reserves v := by
  have hp := h.session p hsession
  have hdue := hp.call task call hholder
  intro v hv
  cases call with
  | put value expectedVersion row =>
    obtain ⟨stored, hstored, hle⟩ := h.accepted v hv
    have hversion : value.viewVersion = p.viewVersion := by
      cases row with
      | none => exact hdue.1
      | some row => exact hdue.1
    exact ⟨value, rfl, hle.trans ((hp.stored stored hstored).trans hversion.ge)⟩
  | publish row =>
    rcases List.mem_cons.mp hv with rfl | hv
    · exact hdue.2.2.1
    · exact h.accepted v hv

theorem Sound.loses {call : HostCall V} (h : Sound build w p)
    (hholder : p.holder = some (.calling task call)) :
    Sound build ((w.applied call).unheard call) (p.fail task) := by
  have hdue := h.call task call hholder
  cases call with
  | put value expectedVersion row =>
    have hversion : value.viewVersion = p.viewVersion := by
      cases row with
      | none => exact hdue.1
      | some row => exact hdue.1
    have hlater : Sound build
        ((w.applied (.put value expectedVersion row)).unheard (.put value expectedVersion row))
        ({ p with holder := none } : MeetingSession V) := by
      refine ⟨fun s hs => ?_, fun s hs => ?_, fun hlost =>
        absurd hlost (by simp [MeetingWorld.unheard]),
        h.published, fun task' call hcall => by cases hcall⟩
      · cases hs
        exact hversion.le
      · obtain ⟨stored, hstored, hle⟩ := h.saved s hs
        exact ⟨value, rfl, hle.trans ((h.stored stored hstored).trans hversion.ge)⟩
    exact hlater.ended (p.fail_ends task)
  | publish row =>
    have hlater : Sound build ((w.applied (.publish row)).unheard (.publish row))
        ({ p with holder := none } : MeetingSession V) :=
      ⟨h.stored, h.saved, h.told, fun hlost => absurd hlost (by simp [MeetingWorld.unheard]),
        fun task' call hcall => by cases hcall⟩
    exact hlater.ended (p.fail_ends task)

theorem SoundWorld.goOn (h : SoundWorld build w) (hq : Sound build w q) :
    SoundWorld build { w with session := some q } := by
  refine ⟨h.accepted, fun q' hq' => ?_⟩
  obtain rfl := Option.some.inj hq'
  exact hq.within _

theorem SoundWorld.initial : SoundWorld build ({} : MeetingWorld V) :=
  ⟨fun _ hv => (nomatch hv), fun _ hp => (nomatch hp)⟩

variable [DecidableEq V]

theorem MeetingSession.succeed_ends (p : MeetingSession V) (hostView : Option V) (task : LockTask) :
    Ends p (p.succeed build hostView task) := by
  cases task with
  | refresh refresher readSucceeded =>
    cases readSucceeded with
    | true =>
      obtain ⟨hkeeps, hholder⟩ := finishRefresh_ends ({ p with
        failures := 0
        history := { p.history with
          failedRounds := 0
          fresh := p.history.fresh ||
            p.history.since && (p.view build).any (hostView = some ·) } } :
        MeetingSession V) refresher
      exact ⟨⟨hkeeps.viewVersion, hkeeps.stateVersion, hkeeps.saved, hkeeps.published⟩, hholder⟩
    | false => exact finishRefresh_ends p refresher
  | admitted =>
    obtain ⟨hkeeps, hholder, -⟩ :=
      schedule_keeps ({ p with holder := none } : MeetingSession V) true
    exact ⟨⟨hkeeps.viewVersion, hkeeps.stateVersion, hkeeps.saved, hkeeps.published⟩, hholder⟩
  | confirmation | unknown | selection => exact ⟨⟨rfl, rfl, rfl, rfl⟩, rfl⟩

namespace Sound

theorem save (h : Sound build w p)
    (hview : (∃ refresher, task = .refresh refresher true) → w.lostView = false →
      ∃ view, p.view build = some view ∧ w.hostView = some view) :
    Sound build w (p.save build hostView task none) := by
  unfold MeetingSession.save
  split_ifs with hsaved
  · exact h.ends (p.succeed_ends hostView task)
  · refine ⟨h.stored, h.saved, h.told, h.published, fun task' call hcall => ?_⟩
    cases hcall
    exact ⟨rfl, rfl, hview⟩

/-- The view is published, under a version that is above all there were. -/
theorem publish (h : Sound build w p) (haccepted : ∀ v ∈ w.accepted, w.Reserves v) :
    Sound build w (p.publish build hostView task) := by
  unfold MeetingSession.publish
  cases hview : p.view build with
  | none => exact h.ends (p.fail_ends task)
  | some view =>
    dsimp only
    split_ifs with hpublished
    · exact h.save fun _ hlost => ⟨view, hview, h.published hlost view hpublished⟩
    · have habove : w.Above (p.viewVersion + 1) := by
        intro v hv
        obtain ⟨s, hs, hle⟩ := haccepted v hv
        exact Nat.lt_succ_of_le (hle.trans (h.stored s hs))
      have hstored : ∀ s, w.stored = some s → s.viewVersion ≤ p.viewVersion + 1 := fun s hs =>
        (h.stored s hs).trans (Nat.le_succ _)
      unfold MeetingSession.save
      split_ifs with hsaved
      · refine ⟨hstored, h.saved, h.told, h.published, fun task' call hcall => ?_⟩
        cases hcall
        exact ⟨rfl, habove, h.saved _ hsaved, hview⟩
      · refine ⟨hstored, h.saved, h.told, h.published, fun task' call hcall => ?_⟩
        cases hcall
        exact ⟨rfl, rfl, rfl, habove, hview⟩

theorem answers {call : HostCall V} (h : Sound build w p)
    (hholder : p.holder = some (.calling task call)) (haccepts : w.accepts call = true) :
    Sound build ((w.applied call).heard call)
      (p.answered build (w.applied call).hostView task call) := by
  have hdue := h.call task call hholder
  cases call with
  | put value expectedVersion row =>
    have hexpected : expectedVersion = w.version := of_decide_eq_true haccepts
    have hversion : value.viewVersion = p.viewVersion := by
      cases row with
      | none => exact hdue.1
      | some row => exact hdue.1
    have hreserves : (w.applied (.put value expectedVersion row)).Reserves p.viewVersion :=
      ⟨value, rfl, hversion.ge⟩
    -- What was stored before had no higher version.
    have hlater : Sound build (w.applied (.put value expectedVersion row))
        ({ p with
          stateVersion := expectedVersion + 1
          saved := some value
          holder := none } : MeetingSession V) := by
      refine ⟨fun s hs => ?_, fun s hs => ?_, fun _ => by rw [hexpected]; rfl, h.published,
        fun task' call hcall => by cases hcall⟩
      · cases hs
        exact hversion.le
      · cases hs
        exact ⟨value, rfl, le_rfl⟩
    cases row with
    | none =>
      exact hlater.ends (MeetingSession.succeed_ends _ _ _)
    | some row =>
      obtain ⟨-, -, hrow, habove, hview⟩ := hdue
      refine ⟨hlater.stored, hlater.saved, hlater.told, hlater.published,
        fun task' call hcall => ?_⟩
      cases hcall
      exact ⟨hrow, habove, hrow ▸ hreserves, hview⟩
  | publish row =>
    have hlater : Sound build ((w.applied (.publish row)).heard (.publish row))
        ({ p with published := some row.view, holder := none } : MeetingSession V) := by
      refine ⟨h.stored, h.saved, h.told, fun _ v hv => ?_, fun task' call hcall => by cases hcall⟩
      cases hv
      rfl
    exact hlater.ends (MeetingSession.succeed_ends _ _ _)

end Sound

theorem SoundWorld.step (h : SoundWorld build w) (hstep : MeetingSteps build w a w') :
    SoundWorld build w' := by
  cases hstep with
  | opening afterSequence hclosed hrestorable =>
    refine ⟨h.accepted, fun q hq => ?_⟩
    obtain rfl := Option.some.inj hq
    refine ⟨fun s hs => ?_, fun s hs => (by cases hs), fun _ => rfl, fun _ v hv => (by cases hv),
      fun task call hcall => by simp [MeetingSession.opening] at hcall⟩
    have hstored : w.stored = some s := hs
    simp [MeetingSession.opening, hstored]
  | hint sequences hsession hopened =>
    obtain ⟨hkeeps, hholder, hshown⟩ := MeetingSession.eventBatch_keeps _ sequences
    exact h.goOn ((h.session _ hsession).goOn hkeeps hholder hshown)
  | starts hsession hworker =>
    obtain ⟨hkeeps, hholder, hshown⟩ := MeetingSession.loopHead_keeps _
    exact h.goOn ((h.session _ hsession).goOn hkeeps hholder hshown)
  | wakes hsession hworker =>
    exact h.goOn ((h.session _ hsession).goOn ⟨rfl, rfl, rfl, rfl⟩ rfl rfl)
  | workerRefreshes hsession hlock hworker =>
    exact h.goOn ((h.session _ hsession).rest ⟨rfl, rfl, rfl, rfl⟩ (by simp))
  | commandRefreshes hsession hlock hwaits =>
    exact h.goOn ((h.session _ hsession).rest ⟨rfl, rfl, rfl, rfl⟩ (by simp))
  | confirms hsession hopened hlock =>
    apply h.goOn
    apply Sound.publish _ h.accepted
    exact (h.session _ hsession).rest ⟨rfl, rfl, rfl, rfl⟩ (by simp [hlock])
  | applies hsession hopened hlock hroom =>
    exact h.goOn ((h.session _ hsession).rest ⟨rfl, rfl, rfl, rfl⟩ (by simp))
  | selects command hsession hopened hlock =>
    apply h.goOn
    unfold MeetingSession.selectCommand
    split
    · exact (h.session _ hsession).rest ⟨rfl, rfl, rfl, rfl⟩ (by simp [hlock])
    · apply Sound.save
      · exact (h.session _ hsession).rest ⟨rfl, rfl, rfl, rfl⟩ (by simp [hlock])
      · rintro ⟨refresher, heq⟩
        cases heq
  | reads reading hsession hholder hfits =>
    apply h.goOn
    apply Sound.publish _ h.accepted
    exact (h.session _ hsession).rest ⟨rfl, rfl, rfl, rfl⟩ (by simp [MeetingSession.take, hholder])
  | failsToRead scope hsession hholder =>
    apply h.goOn
    apply Sound.publish _ h.accepted
    exact (h.session _ hsession).rest ⟨rfl, rfl, rfl, rfl⟩
      (by simp [MeetingSession.failRead, hholder])
  | admits operationId hsession hholder hidentifier =>
    apply h.goOn
    apply Sound.save
    · exact (h.session _ hsession).rest ⟨rfl, rfl, rfl, rfl⟩
        (by simp [MeetingSession.admitOperation, hholder])
    · rintro ⟨refresher, heq⟩
      cases heq
  | admitsUnknown hsession hholder =>
    apply h.goOn
    apply Sound.publish _ h.accepted
    exact (h.session _ hsession).rest ⟨rfl, rfl, rfl, rfl⟩ (by simp [hholder])
  | answers hsession hholder haccepts hreadable =>
    rename_i p task call
    have haccepted := h.applied hsession hholder
    have hsound := (h.session p hsession).answers hholder haccepts
    refine ⟨?_, fun q hq => ?_⟩
    · cases call <;> exact haccepted
    · obtain rfl := Option.some.inj hq
      exact hsound.within _
  | refuses hsession hholder =>
    apply h.goOn
    apply Sound.ended _ (MeetingSession.fail_ends _ _)
    exact (h.session _ hsession).rest ⟨rfl, rfl, rfl, rfl⟩ (by simp)
  | loses hsession hholder haccepts =>
    rename_i p task call
    have haccepted := h.applied hsession hholder
    have hsound := (h.session p hsession).loses hholder
    refine ⟨?_, fun q hq => ?_⟩
    · cases call <;> exact haccepted
    · obtain rfl := Option.some.inj hq
      exact hsound.within _
  | closes => exact ⟨h.accepted, fun q hq => by cases hq⟩
  | closesBehind hsession hholder haccepts =>
    exact ⟨h.applied hsession hholder, fun q hq => by cases hq⟩

end MeetingAssistant
end Matinier
