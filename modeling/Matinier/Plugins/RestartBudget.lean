import Matinier.Plugins.ContainerLife
import Mathlib.Data.List.TakeWhile

/-!
# Restarts of a plugin that crashes

A plugin whose process ends is launched again after a while, unless it has crashed too often within
the window of the policy; it is quarantined then. A relaunch that fails is not followed by another
one, and nothing watches the plugin any more.
-/

namespace Matinier
namespace Plugins

open Assistant

def SupervisorAction.about : SupervisorAction → Option PluginIdentity
  | .enable identity _ | .launch identity _ | .restore identity _ | .ready identity _
  | .openSession identity _ _ _ | .deliverEvents identity _ _ _
  | .acknowledgeThrough identity _ _ | .heartbeat identity _ _ | .exit identity
  | .crash identity _ _ | .restart identity | .disable identity _ => some identity
  | .shutdown => none

/-- The crashes that count when one more happens. -/
def RestartPolicy.recent (policy : RestartPolicy) (crashTimes : List Instant) (now : Instant) :
    List Instant :=
  crashTimes.dropWhile (fun t => t + policy.windowSeconds < now) ++ [now]

def RestartPolicy.crashed (policy : RestartPolicy) (m : ManagedPlugin) (now : Instant) :
    ManagedPlugin :=
  let crashTimes := policy.recent m.crashTimes now
  let quarantined := policy.maxRestarts < crashTimes.length
  { m with
    process := false
    peer := false
    monitored := none
    exited := false
    crashTimes := crashTimes
    status := if quarantined then .quarantined else .crashed
    phase := if quarantined then .idle else .restarting }

namespace ManagedPlugin

/-- What a step makes of the plugin it is about. -/
def Turned (policy : RestartPolicy) (stopping : Bool) (m : ManagedPlugin) (m' : ManagedPlugin) :
    SupervisorAction → Prop
  | .enable _ _ => m.phase = .idle ∧ (m' = { m with desiredEnabled := true } ∨
      m.process = false ∧ m.status ≠ .quarantined ∧
        ∃ sessions, m' = { m with
          desiredEnabled := true, sessions := sessions, phase := .launching })
  | .launch _ outcome => m.phase = .launching ∧
      (outcome = .initialized ∧ m' = { m with
          process := true
          peer := true
          status := .starting
          generation := m.generation + 1
          sessions := []
          phase := .restoring m.sessions } ∨
        outcome ≠ .initialized ∧ ∃ status, status ≠ .quarantined ∧
          m' = { m with status := status, phase := .idle })
  | .restore _ outcome => ∃ previous left sessions, m.phase = .restoring (previous :: left) ∧
      m' = { m with
        sessions := sessions
        phase := if outcome = .opened then .restoring left else .idle }
  | .ready _ monitored => m.phase = .restoring [] ∧ m' = { m with
      status := .ready
      monitored := if monitored then some m.generation else none
      exited := false
      phase := .idle }
  | .openSession _ _ _ _ | .deliverEvents _ _ _ _ | .acknowledgeThrough _ _ _ =>
    m.phase = .idle ∧ ∃ sessions, m' = { m with sessions := sessions }
  | .heartbeat _ _ answered => m.phase = .idle ∧ m.peer = true ∧
      m' = { m with status := if answered then .ready else .degraded }
  | .exit _ => m.desiredEnabled = true ∧ m.monitored.isSome = true ∧ m' = { m with exited := true }
  | .crash _ now cut => (m.phase = .idle ∧ m.exited = true ∧ m.process = true) ∧
      m' = if cut = none then policy.crashed m now
        else { m with status := .crashed, monitored := none, exited := false }
  | .restart _ => m.phase = .restarting ∧ m' = { m with
      phase := if m.desiredEnabled = true ∧ stopping = false then .launching else .idle }
  | .disable _ cut => m.phase = .idle ∧
      m' = if cut = none then { m with
          desiredEnabled := false
          process := false
          peer := false
          status := .disabled
          monitored := none
          exited := false }
        else { m with desiredEnabled := false }
  | .shutdown => m' = m

end ManagedPlugin

namespace SupervisorWorld

variable {policy : RestartPolicy} {w w' : SupervisorWorld} {a : SupervisorAction}
  {identity : PluginIdentity} {m m' : ManagedPlugin}

theorem enableStep_turns {loaded : Option (List RestoredSession)}
    (h : w.enableStep identity loaded = some w') :
    ∃ m', w.Turns w' identity m' ∧
      (w.plugin identity).Turned policy w.shuttingDown m' (.enable identity loaded) := by
  unfold enableStep at h
  dsimp only at h
  split_ifs at h with hidle hdown hfresh
  · cases loaded with
    | none =>
      cases h
      exact ⟨_, turns_setPlugin, hidle, .inl rfl⟩
    | some loaded =>
      cases h
      obtain ⟨sessions, hload⟩ := ManagedPlugin.loadPersistedSessions_eq identity loaded
        { w.plugin identity with desiredEnabled := true }
      refine ⟨_, turns_setPlugin, hidle, .inr ⟨hdown.1, hdown.2, sessions, ?_⟩⟩
      rw [hload]
  · cases h
    exact ⟨_, turns_setPlugin, hidle, .inr ⟨hdown.1, hdown.2, _, rfl⟩⟩
  · cases h
    exact ⟨_, turns_setPlugin, hidle, .inl rfl⟩

theorem launchStep_turns {outcome : LaunchOutcome} (h : w.launchStep identity outcome = some w') :
    ∃ m', w.Turns w' identity m' ∧
      (w.plugin identity).Turned policy w.shuttingDown m' (.launch identity outcome) := by
  obtain ⟨m, hsome, h⟩ := Option.bind_eq_some_iff.mp h
  rw [plugin_of_some hsome]
  obtain ⟨hphase, h⟩ := Option.ite_none_right_eq_some.mp h
  cases outcome with
  | hostIncompatible | negotiationFailed =>
    cases h
    exact ⟨_, turns_setPlugin, hphase, .inr ⟨nofun, .incompatible, nofun, rfl⟩⟩
  | failed =>
    cases h
    exact ⟨_, turns_setPlugin, hphase, .inr ⟨nofun, .starting, nofun, rfl⟩⟩
  | initialized =>
    cases h
    exact ⟨_, turns_setPlugin, hphase, .inl ⟨rfl, rfl⟩⟩

theorem restoreStep_turns {outcome : OpenOutcome} (h : w.restoreStep identity outcome = some w') :
    ∃ m', w.Turns w' identity m' ∧
      (w.plugin identity).Turned policy w.shuttingDown m' (.restore identity outcome) := by
  obtain ⟨m, hsome, h⟩ := Option.bind_eq_some_iff.mp h
  rw [plugin_of_some hsome]
  split at h
  case h_2 => cases h
  case h_1 previous left hphase =>
    cases h
    obtain ⟨sessions, hturns⟩ := turns_openBinding w identity
      { m with phase := if outcome = .opened then .restoring left else .idle }
      (w.newBinding identity m previous.mediaSessionId previous.lastAcknowledgedSequence) outcome
    exact ⟨_, hturns, previous, left, sessions, hphase, rfl⟩

theorem acknowledge_turns (hidle : m.phase = .idle) (binding : SessionBinding) (sequence : ℤ) :
    ∃ m', w.Turns (w.acknowledge identity m binding sequence) identity m' ∧
      m.phase = .idle ∧ ∃ sessions, m' = { m with sessions := sessions } := by
  obtain ⟨sessions, hturns⟩ := turns_acknowledge w identity m binding sequence
  exact ⟨_, hturns, hidle, sessions, rfl⟩

theorem openStep_turns {media : MediaSessionId} {lastAcknowledged : ℤ} {outcome : OpenOutcome}
    (h : w.openStep identity media lastAcknowledged outcome = some w') :
    ∃ m', w.Turns w' identity m' ∧ (w.plugin identity).Turned policy w.shuttingDown m'
      (.openSession identity media lastAcknowledged outcome) := by
  obtain ⟨m, hsome, h⟩ := Option.bind_eq_some_iff.mp h
  rw [plugin_of_some hsome]
  split_ifs at h with hguard
  · cases h
    exact ⟨m, turns_refl hsome, hguard.1, m.sessions, rfl⟩
  · cases h
    obtain ⟨sessions, hturns⟩ := turns_openBinding w identity m
      (w.newBinding identity m media lastAcknowledged) outcome
    exact ⟨_, hturns, hguard.1, sessions, rfl⟩

theorem deliverStep_turns {media : MediaSessionId} {sequences : List ℤ} {acknowledged : Option ℤ}
    (h : w.deliverStep identity media sequences acknowledged = some w') :
    ∃ m', w.Turns w' identity m' ∧ (w.plugin identity).Turned policy w.shuttingDown m'
      (.deliverEvents identity media sequences acknowledged) := by
  obtain ⟨m, hsome, h⟩ := Option.bind_eq_some_iff.mp h
  rw [plugin_of_some hsome]
  split_ifs at h with hguard
  obtain ⟨binding, _, h⟩ := Option.bind_eq_some_iff.mp h
  split at h
  · split_ifs at h
    · cases h
      exact acknowledge_turns hguard.1 binding _
    · cases h
      exact ⟨m, turns_refl hsome, hguard.1, m.sessions, rfl⟩
  · cases h
    exact ⟨m, turns_refl hsome, hguard.1, m.sessions, rfl⟩

theorem acknowledgeStep_turns {media : MediaSessionId} {sequence : ℤ}
    (h : w.acknowledgeStep identity media sequence = some w') :
    ∃ m', w.Turns w' identity m' ∧ (w.plugin identity).Turned policy w.shuttingDown m'
      (.acknowledgeThrough identity media sequence) := by
  obtain ⟨m, hsome, h⟩ := Option.bind_eq_some_iff.mp h
  rw [plugin_of_some hsome]
  split_ifs at h with hidle
  obtain ⟨binding, _, h⟩ := Option.bind_eq_some_iff.mp h
  split_ifs at h
  · cases h
    exact ⟨m, turns_refl hsome, hidle, m.sessions, rfl⟩
  · cases h
    exact acknowledge_turns hidle binding sequence

/-- What is in the way of a crash or of a stop leaves a plugin as it is but for a few fields. -/
theorem crashStep_turns {now : Instant} {cut : Option ℕ}
    (h : w.crashStep policy identity now cut = some w') :
    ∃ m', w.Turns w' identity m' ∧
      (w.plugin identity).Turned policy w.shuttingDown m' (.crash identity now cut) := by
  obtain ⟨m, hsome, h⟩ := Option.bind_eq_some_iff.mp h
  rw [plugin_of_some hsome]
  obtain ⟨⟨hidle, hexited, hprocess, -⟩, h⟩ := Option.ite_none_right_eq_some.mp h
  cases cut with
  | none =>
    cases h
    exact ⟨_, turns_invalidateScopes, ⟨hidle, hexited, hprocess⟩, rfl⟩
  | some k =>
    cases h
    exact ⟨_, turns_invalidateScopes, ⟨hidle, hexited, hprocess⟩, rfl⟩

theorem disableStep_turns {cut : Option ℕ} (h : w.disableStep identity cut = some w') :
    ∃ m', w.Turns w' identity m' ∧
      (w.plugin identity).Turned policy w.shuttingDown m' (.disable identity cut) := by
  obtain ⟨m, hsome, h⟩ := Option.bind_eq_some_iff.mp h
  rw [plugin_of_some hsome]
  obtain ⟨hidle, h⟩ := Option.ite_none_right_eq_some.mp h
  cases cut with
  | none =>
    cases h
    exact ⟨_, turns_invalidateScopes, hidle, rfl⟩
  | some k =>
    cases h
    exact ⟨_, turns_invalidateScopes, hidle, rfl⟩

/-- A step turns the plugin it is about as it can, and leaves the others as they are. -/
theorem turned_of_next (h : w.next policy a = some w') (identity : PluginIdentity) :
    (w.plugin identity).Turned policy w.shuttingDown (w'.plugin identity) a ∧
        a.about = some identity ∨
      w'.plugin identity = w.plugin identity ∧ a.about ≠ some identity := by
  have hturn : ∀ {other}, a.about = some other → (∃ m', w.Turns w' other m' ∧
      (w.plugin other).Turned policy w.shuttingDown m' a) →
      (w.plugin identity).Turned policy w.shuttingDown (w'.plugin identity) a ∧
          a.about = some identity ∨
        w'.plugin identity = w.plugin identity ∧ a.about ≠ some identity := by
    rintro other habout ⟨m', hturns, hm'⟩
    by_cases hother : identity = other
    · rw [hother, hturns.self]
      exact .inl ⟨hm', habout⟩
    · refine .inr ⟨hturns.others hother, ?_⟩
      rw [habout]
      exact fun heq => hother (Option.some.inj heq).symm
  cases a with
  | enable other loaded => exact hturn rfl (enableStep_turns h)
  | launch other outcome => exact hturn rfl (launchStep_turns h)
  | restore other outcome => exact hturn rfl (restoreStep_turns h)
  | ready other monitored =>
    obtain ⟨m, hsome, h⟩ := Option.bind_eq_some_iff.mp h
    obtain ⟨hphase, h⟩ := Option.ite_none_right_eq_some.mp h
    cases h
    refine hturn rfl ⟨_, turns_setPlugin, ?_⟩
    rw [plugin_of_some hsome]
    exact ⟨hphase, rfl⟩
  | openSession other media lastAcknowledged outcome => exact hturn rfl (openStep_turns h)
  | deliverEvents other media sequences acknowledged => exact hturn rfl (deliverStep_turns h)
  | acknowledgeThrough other media sequence => exact hturn rfl (acknowledgeStep_turns h)
  | heartbeat other generation answered =>
    obtain ⟨m, hsome, h⟩ := Option.bind_eq_some_iff.mp h
    obtain ⟨⟨hidle, -, hpeer⟩, h⟩ := Option.ite_none_right_eq_some.mp h
    cases h
    refine hturn rfl ⟨_, turns_setPlugin, ?_⟩
    rw [plugin_of_some hsome]
    exact ⟨hidle, hpeer, rfl⟩
  | exit other =>
    obtain ⟨m, hsome, h⟩ := Option.bind_eq_some_iff.mp h
    obtain ⟨⟨-, hdesired, hmonitored⟩, h⟩ := Option.ite_none_right_eq_some.mp h
    cases h
    refine hturn rfl ⟨_, turns_setPlugin, ?_⟩
    rw [plugin_of_some hsome]
    exact ⟨hdesired, hmonitored, rfl⟩
  | crash other now cut => exact hturn rfl (crashStep_turns h)
  | restart other =>
    obtain ⟨m, hsome, h⟩ := Option.bind_eq_some_iff.mp h
    obtain ⟨hphase, h⟩ := Option.ite_none_right_eq_some.mp h
    cases h
    refine hturn rfl ⟨_, turns_setPlugin, ?_⟩
    rw [plugin_of_some hsome]
    exact ⟨hphase, rfl⟩
  | disable other cut => exact hturn rfl (disableStep_turns h)
  | shutdown =>
    cases h
    exact .inr ⟨rfl, nofun⟩

end SupervisorWorld

namespace ManagedPlugin

variable {policy : RestartPolicy} {stopping : Bool} {m m' : ManagedPlugin}
  {a : SupervisorAction} {identity : PluginIdentity}

/-- A plugin that is at rest, disabled and without a process. -/
structure Down (m : ManagedPlugin) : Prop where
  disabled : m.desiredEnabled = false
  stopped : m.process = false
  idle : m.phase = .idle

/-- The plugin has a process, and its end is watched for. -/
def Watched (m : ManagedPlugin) : Prop :=
  m.process = true ∧ m.monitored = some m.generation

/-- A process is watched but while its sessions are restored, and a plugin that is launched or
quarantined is without one. -/
structure Standing (m : ManagedPlugin) : Prop where
  waiting : m.phase = .launching ∨ m.phase = .restarting → m.process = false
  restoring : ∀ left, m.phase = .restoring left → m.process = true
  watched : m.process = true → m.phase = .idle → m.monitored = some m.generation
  monitored : m.monitored.isSome = true → m.process = true ∧ m.phase = .idle
  exited : m.exited = true → m.monitored.isSome = true
  quarantined : m.status = .quarantined →
    m.process = false ∧ m.peer = false ∧ m.phase = .idle

theorem standing_of_stopped (hprocess : m.process = false) (hmonitored : m.monitored = none)
    (hexited : m.exited = false) (hphase : ∀ left, m.phase ≠ .restoring left)
    (hquarantined : m.status = .quarantined → m.peer = false ∧ m.phase = .idle) : m.Standing where
  waiting _ := hprocess
  restoring left h := absurd h (hphase left)
  watched h := by
    rw [hprocess] at h
    cases h
  monitored h := by
    rw [hmonitored] at h
    cases h
  exited h := by
    rw [hexited] at h
    cases h
  quarantined h := ⟨hprocess, hquarantined h⟩

theorem standing_fresh : Standing {} := standing_of_stopped rfl rfl rfl nofun nofun

/-- Nothing watches a plugin without a process. -/
theorem Standing.of_stopped (hm : m.Standing) (hprocess : m.process = false) :
    m.monitored = none ∧ m.exited = false := by
  have hmonitored : m.monitored = none := by
    cases h : m.monitored with
    | none => rfl
    | some generation =>
      have hup := (hm.monitored (by rw [h]; rfl)).1
      rw [hprocess] at hup
      cases hup
  refine ⟨hmonitored, ?_⟩
  cases h : m.exited with
  | false => rfl
  | true =>
    have hsome := hm.exited h
    rw [hmonitored] at hsome
    cases hsome

theorem Standing.of_busy (hm : m.Standing) (hphase : m.phase ≠ .idle) : m.monitored = none := by
  cases h : m.monitored with
  | none => rfl
  | some generation => exact absurd (hm.monitored (by rw [h]; rfl)).2 hphase

end ManagedPlugin

/-- The host goes on after what it does for a plugin: what it opens and records is opened and
recorded, and none of it fails where the plugin has crashed or is disabled. -/
def SupervisorAction.Smooth : SupervisorAction → Prop
  | .restore _ outcome => outcome = .opened
  | .ready _ monitored => monitored = true
  | .crash _ _ cut | .disable _ cut => cut = none
  | _ => True

instance : DecidablePred SupervisorAction.Smooth := by
  intro a
  unfold SupervisorAction.Smooth
  split <;> infer_instance

/-- The action is a launch that fails before the plugin's process is recorded. -/
def SupervisorAction.LaunchFails : SupervisorAction → Prop
  | .launch _ .initialized => False
  | .launch _ _ => True
  | _ => False

instance : DecidablePred SupervisorAction.LaunchFails := by
  intro a
  unfold SupervisorAction.LaunchFails
  split <;> infer_instance

namespace ManagedPlugin

variable {policy : RestartPolicy} {stopping : Bool} {m m' : ManagedPlugin}
  {a : SupervisorAction}

theorem Standing.turned (hm : m.Standing) (h : m.Turned policy stopping m' a) (ha : a.Smooth) :
    m'.Standing := by
  cases a with
  | enable other loaded =>
    obtain ⟨-, rfl | ⟨hprocess, hstatus, sessions, rfl⟩⟩ := h
    · exact ⟨hm.waiting, hm.restoring, hm.watched, hm.monitored, hm.exited, hm.quarantined⟩
    · obtain ⟨hmonitored, hexited⟩ := hm.of_stopped hprocess
      exact standing_of_stopped hprocess hmonitored hexited nofun fun hq => absurd hq hstatus
  | launch other outcome =>
    obtain ⟨hphase, hlaunch⟩ := h
    have hprocess := hm.waiting (.inl hphase)
    obtain ⟨hmonitored, hexited⟩ := hm.of_stopped hprocess
    rcases hlaunch with ⟨-, rfl⟩ | ⟨-, status, hstatus, rfl⟩
    · refine ⟨?_, fun _ _ => rfl, nofun, fun hsome => ?_, fun h => ?_, nofun⟩
      · rintro (h | h) <;> cases h
      · rw [show _ = none from hmonitored] at hsome
        cases hsome
      · rw [show _ = false from hexited] at h
        cases h
    · exact standing_of_stopped hprocess hmonitored hexited nofun fun hq => absurd hq hstatus
  | restore other outcome =>
    obtain ⟨previous, left, sessions, hphase, rfl⟩ := h
    obtain rfl : outcome = .opened := ha
    have hbusy := hm.of_busy (by rw [hphase]; exact nofun)
    have hprocess := hm.restoring _ hphase
    refine ⟨?_, fun _ _ => hprocess, nofun, ?_, hm.exited, ?_⟩
    · rintro (h | h) <;> cases h
    · intro hsome
      rw [show _ = none from hbusy] at hsome
      cases hsome
    · intro hq
      have hidle := (hm.quarantined hq).2.2
      rw [hphase] at hidle
      cases hidle
  | ready other monitored =>
    obtain ⟨hphase, rfl⟩ := h
    obtain rfl : monitored = true := ha
    have hprocess := hm.restoring _ hphase
    refine ⟨?_, nofun, fun _ _ => rfl, fun _ => ⟨hprocess, rfl⟩, nofun, nofun⟩
    rintro (h | h) <;> cases h
  | openSession | deliverEvents | acknowledgeThrough =>
    obtain ⟨-, sessions, rfl⟩ := h
    exact ⟨hm.waiting, hm.restoring, hm.watched, hm.monitored, hm.exited, hm.quarantined⟩
  | heartbeat other generation answered =>
    obtain ⟨-, hpeer, rfl⟩ := h
    refine ⟨hm.waiting, hm.restoring, hm.watched, hm.monitored, hm.exited, fun hq => ?_⟩
    cases answered <;> cases hq
  | exit other =>
    obtain ⟨-, hmonitored, rfl⟩ := h
    exact ⟨hm.waiting, hm.restoring, hm.watched, hm.monitored, fun _ => hmonitored,
      hm.quarantined⟩
  | crash other now cut =>
    obtain ⟨-, rfl⟩ := h
    obtain rfl : cut = none := ha
    rw [if_pos rfl]
    refine standing_of_stopped rfl rfl rfl ?_ ?_
    · intro left h
      unfold RestartPolicy.crashed at h
      dsimp only at h
      split_ifs at h
    · intro h
      unfold RestartPolicy.crashed at h ⊢
      dsimp only at h ⊢
      split_ifs at h with hover
      exact ⟨rfl, if_pos hover⟩
  | restart other =>
    obtain ⟨hphase, rfl⟩ := h
    have hprocess := hm.waiting (.inr hphase)
    obtain ⟨hmonitored, hexited⟩ := hm.of_stopped hprocess
    refine standing_of_stopped hprocess hmonitored hexited ?_ ?_
    · intro left h
      dsimp only at h
      split_ifs at h
    · intro hq
      have hidle := (hm.quarantined hq).2.2
      rw [hphase] at hidle
      cases hidle
  | disable other cut =>
    obtain ⟨hidle, rfl⟩ := h
    obtain rfl : cut = none := ha
    rw [if_pos rfl]
    refine standing_of_stopped rfl rfl rfl ?_ nofun
    intro left h
    rw [show _ = LaunchPhase.idle from hidle] at h
    cases h
  | shutdown =>
    obtain rfl : m' = m := h
    exact hm

end ManagedPlugin

/-- The supervisor, when a plugin has crashed so far, which of its crashes were answered by a
relaunch, and whether its last launch is one. -/
structure RestartHistory where
  world : SupervisorWorld := {}
  crashes : List Instant := []
  answered : List Instant := []
  automatic : Bool := false

namespace RestartHistory

def plugin (h : RestartHistory) (identity : PluginIdentity) : ManagedPlugin :=
  h.world.plugin identity

/-- What an action about the plugin adds to its history. -/
def record (h : RestartHistory) (m : ManagedPlugin) : SupervisorAction → RestartHistory
  | .enable _ _ => { h with automatic := false }
  | .crash _ now none => { h with crashes := h.crashes ++ [now] }
  | .restart _ =>
    if m.phase = .launching then
      { h with answered := h.answered ++ h.crashes.getLast?.toList, automatic := true }
    else h
  | _ => h

def next (policy : RestartPolicy) (identity : PluginIdentity) (h : RestartHistory)
    (a : SupervisorAction) : Option RestartHistory := do
  let w ← h.world.next policy a
  let recorded := if a.about = some identity then h.record (w.plugin identity) a else h
  return { recorded with world := w }

/-- The clock does not go back from one crash to the next. -/
def ClockOnward (h : RestartHistory) : SupervisorAction → Prop
  | .crash _ now none => ∀ crash ∈ h.crashes, crash ≤ now
  | _ => True

abbrev Steps (policy : RestartPolicy) (identity : PluginIdentity) :
    RestartHistory → SupervisorAction → RestartHistory → Prop :=
  Under ClockOnward fun h a h' => h.next policy identity a = some h'

/-- A relaunch of the plugin does not fail, and the host goes on after what it does for it. -/
def Orderly (identity : PluginIdentity) (h : RestartHistory) (a : SupervisorAction) : Prop :=
  a.about = some identity → a.Smooth ∧ (h.automatic = true → ¬ a.LaunchFails)

instance (h : RestartHistory) : DecidablePred h.ClockOnward := by
  intro a
  unfold ClockOnward
  split <;> infer_instance

instance (identity : PluginIdentity) (h : RestartHistory) : DecidablePred (h.Orderly identity) :=
  fun _ => inferInstanceAs (Decidable (_ → _))

/-- What the restart policy demands of a step. -/
structure Policed (policy : RestartPolicy) (identity : PluginIdentity) (h : RestartHistory)
    (a : SupervisorAction) (h' : RestartHistory) : Prop where
  /-- In no interval as long as the window more crashes are answered than the policy allows. -/
  bounded : ∀ t, h'.answered.countP (fun crash => t ≤ crash ∧ crash ≤ t + policy.windowSeconds) ≤
    policy.maxRestarts
  /-- The crash that exceeds the limit quarantines the plugin. -/
  quarantines : ∀ now, a = .crash identity now none →
    policy.maxRestarts < h'.crashes.countP (fun crash => now ≤ crash + policy.windowSeconds) →
    (h'.plugin identity).status = .quarantined
  /-- A quarantined plugin stays so and is not launched before it is disabled. -/
  stays : (h.plugin identity).status = .quarantined → (∀ cut, a ≠ .disable identity cut) →
    (h'.plugin identity).status = .quarantined ∧ (h'.plugin identity).process = false ∧
      (h'.plugin identity).phase = .idle
  /-- A plugin is down once a disable has returned, and until it is enabled again. -/
  down : a = .disable identity none ∨
    (h.plugin identity).Down ∧ (∀ loaded, a ≠ .enable identity loaded) →
    (h'.plugin identity).Down
  /-- A crash is followed by quarantine or by a relaunch that is pending. -/
  answers : ∀ now cut, a = .crash identity now cut →
    (h'.plugin identity).status = .quarantined ∨ (h'.plugin identity).phase = .restarting
  /-- A pending relaunch of an enabled plugin is made. -/
  relaunches : a = .restart identity → (h.plugin identity).desiredEnabled = true →
    h.world.shuttingDown = false → (h'.plugin identity).phase = .launching
  /-- A relaunch that is over has a process that is watched, or it is followed by quarantine or by
  another relaunch. -/
  revives : h.automatic = true → (h.plugin identity).phase ≠ .restarting →
    (h.plugin identity).phase ≠ .idle →
    (h'.plugin identity).phase ≠ .idle ∨ (h'.plugin identity).Watched ∨
      (h'.plugin identity).status = .quarantined
  /-- No plugin is left at rest with a process that is not watched. -/
  watches : (h'.plugin identity).process = true → (h'.plugin identity).phase = .idle →
    (h'.plugin identity).Watched
  /-- A crash that is seen can be seen to. -/
  handles : (h'.plugin identity).exited = true → ∀ now,
    ∃ w, h'.world.crashStep policy identity now none = some w

end RestartHistory

/-- Where the crashes that count are as many as are allowed at most, the last of them may be
answered. -/
theorem countP_answered_le {old recent answered : List ℕ} {last width limit : ℕ}
    (hsub : (answered ++ [last]).Sublist (old ++ recent))
    (hold : ∀ crash ∈ old, crash + width < last) (hrecent : recent.length ≤ limit)
    (hanswered : ∀ t, answered.countP (fun crash => t ≤ crash ∧ crash ≤ t + width) ≤ limit)
    (t : ℕ) :
    (answered ++ [last]).countP (fun crash => t ≤ crash ∧ crash ≤ t + width) ≤ limit := by
  by_cases hlast : t ≤ last ∧ last ≤ t + width
  · have hnone : old.countP (fun crash => t ≤ crash ∧ crash ≤ t + width) = 0 := by
      rw [List.countP_eq_zero]
      intro crash hcrash hwithin
      have hlt := hold crash hcrash
      rw [decide_eq_true_eq] at hwithin
      omega
    calc (answered ++ [last]).countP (fun crash => t ≤ crash ∧ crash ≤ t + width)
        ≤ (old ++ recent).countP (fun crash => t ≤ crash ∧ crash ≤ t + width) := hsub.countP_le
      _ = recent.countP (fun crash => t ≤ crash ∧ crash ≤ t + width) := by
          rw [List.countP_append, hnone, Nat.zero_add]
      _ ≤ recent.length := List.countP_le_length
      _ ≤ limit := hrecent
  · rw [List.countP_append, List.countP_singleton, if_neg (by simpa using hlast), Nat.add_zero]
    exact hanswered t

namespace RestartHistory

variable {policy : RestartPolicy} {identity : PluginIdentity} {h h' : RestartHistory}
  {a : SupervisorAction}

/-- The crashes that count are the last ones, and the others are out of their window; none but the
last is still to be answered. -/
structure Counted (policy : RestartPolicy) (m : ManagedPlugin) (crashes answered : List Instant) :
    Prop where
  recent : ∃ old, crashes = old ++ m.crashTimes ∧
    ∀ crash ∈ old, ∀ last ∈ crashes.getLast?, crash + policy.windowSeconds < last
  among : answered.Sublist crashes
  pending : m.phase = .restarting → m.crashTimes.length ≤ policy.maxRestarts ∧
    ∃ last, crashes.getLast? = some last ∧ (answered ++ [last]).Sublist crashes
  bounded : ∀ t, answered.countP (fun crash => t ≤ crash ∧ crash ≤ t + policy.windowSeconds) ≤
    policy.maxRestarts

theorem counted_fresh (policy : RestartPolicy) : Counted policy {} [] [] where
  recent := ⟨[], rfl, nofun⟩
  among := .slnil
  pending := nofun
  bounded _ := Nat.zero_le _

theorem Counted.congr {m m' : ManagedPlugin} {crashes answered : List Instant}
    (hm : Counted policy m crashes answered) (htimes : m'.crashTimes = m.crashTimes)
    (hphase : m'.phase = .restarting → m.phase = .restarting) :
    Counted policy m' crashes answered where
  recent := by
    rw [htimes]
    exact hm.recent
  among := hm.among
  pending hrestarting := by
    rw [htimes]
    exact hm.pending (hphase hrestarting)
  bounded := hm.bounded

/-- Out of the window stay all crashes that were, and those that are no longer counted. -/
theorem Counted.recent_crash {m : ManagedPlugin} {crashes answered : List Instant} {now : Instant}
    (hm : Counted policy m crashes answered) (hclock : ∀ crash ∈ crashes, crash ≤ now) :
    ∃ old, crashes ++ [now] = old ++ policy.recent m.crashTimes now ∧
      ∀ crash ∈ old, crash + policy.windowSeconds < now := by
  obtain ⟨old, hold, hout⟩ := hm.recent
  let dropped := m.crashTimes.takeWhile fun t => t + policy.windowSeconds < now
  refine ⟨old ++ dropped, ?_, ?_⟩
  · rw [hold, RestartPolicy.recent, List.append_assoc, List.append_assoc,
      ← List.append_assoc dropped, List.takeWhile_append_dropWhile]
  · intro crash hcrash
    rcases List.mem_append.mp hcrash with hcrash | hcrash
    · obtain ⟨last, hlast⟩ : ∃ last, crashes.getLast? = some last := by
        apply Option.isSome_iff_exists.mp
        rw [List.getLast?_isSome, hold]
        exact List.append_ne_nil_of_left_ne_nil (List.ne_nil_of_mem hcrash) _
      exact (hout crash hcrash last hlast).trans_le (hclock last (List.mem_of_getLast? hlast))
    · have hdropped := List.mem_takeWhile_imp hcrash
      rwa [decide_eq_true_eq] at hdropped

theorem Counted.crash {m : ManagedPlugin} {crashes answered : List Instant} {now : Instant}
    (hm : Counted policy m crashes answered) (hclock : ∀ crash ∈ crashes, crash ≤ now) :
    Counted policy (policy.crashed m now) (crashes ++ [now]) answered where
  recent := by
    obtain ⟨old, hold, hout⟩ := hm.recent_crash hclock
    refine ⟨old, hold, fun crash hcrash last hlast => ?_⟩
    obtain rfl : now = last := by simpa using hlast
    exact hout crash hcrash
  among := hm.among.trans (List.sublist_append_left _ _)
  pending hphase := by
    unfold RestartPolicy.crashed at hphase
    dsimp only at hphase
    split_ifs at hphase with hover
    exact ⟨not_lt.mp hover, now, List.getLast?_concat, hm.among.append_right _⟩
  bounded := hm.bounded

theorem Counted.answer {m m' : ManagedPlugin} {crashes answered : List Instant}
    (hm : Counted policy m crashes answered) (hphase : m.phase = .restarting)
    (htimes : m'.crashTimes = m.crashTimes) (hphase' : m'.phase ≠ .restarting) :
    Counted policy m' crashes (answered ++ crashes.getLast?.toList) := by
  obtain ⟨hlimit, last, hlast, hsub⟩ := hm.pending hphase
  obtain ⟨old, hold, hout⟩ := hm.recent
  rw [hlast, Option.toList_some]
  refine ⟨?_, hsub, fun hrestarting => absurd hrestarting hphase', ?_⟩
  · rw [htimes]
    exact hm.recent
  · exact countP_answered_le (hold ▸ hsub) (fun crash hcrash => hout crash hcrash last hlast)
      hlimit hm.bounded

/-- A step is about another plugin, and changes nothing of this one; or it turns this one, and is
recorded. -/
theorem next_cases (hnext : h.next policy identity a = some h') :
    a.about = some identity ∧
        (h.plugin identity).Turned policy h.world.shuttingDown (h'.plugin identity) a ∧
        h' = { h.record (h'.plugin identity) a with world := h'.world } ∨
      a.about ≠ some identity ∧ h'.plugin identity = h.plugin identity ∧
        h' = { h with world := h'.world } := by
  obtain ⟨w, hw, hrecorded⟩ := Option.bind_eq_some_iff.mp hnext
  cases hrecorded
  rcases SupervisorWorld.turned_of_next hw identity with ⟨hturned, habout⟩ | ⟨hsame, habout⟩
  · refine .inl ⟨habout, hturned, ?_⟩
    simp only [if_pos habout, plugin]
  · refine .inr ⟨habout, hsame, ?_⟩
    simp only [if_neg habout]

theorem Counted.turned {m m' : ManagedPlugin} {stopping : Bool}
    (hm : Counted policy m h.crashes h.answered) (hturned : m.Turned policy stopping m' a)
    (ha : a.Smooth) (hclock : h.ClockOnward a) :
    Counted policy m' (h.record m' a).crashes (h.record m' a).answered := by
  cases a with
  | enable other loaded =>
    obtain ⟨-, rfl | ⟨-, -, sessions, rfl⟩⟩ := hturned
    · exact hm.congr rfl id
    · exact hm.congr rfl nofun
  | launch other outcome =>
    obtain ⟨-, ⟨-, rfl⟩ | ⟨-, status, -, rfl⟩⟩ := hturned
    · exact hm.congr rfl nofun
    · exact hm.congr rfl nofun
  | restore other outcome =>
    obtain ⟨previous, left, sessions, -, rfl⟩ := hturned
    refine hm.congr rfl fun hphase => ?_
    dsimp only at hphase
    split_ifs at hphase
  | ready other monitored =>
    obtain ⟨-, rfl⟩ := hturned
    exact hm.congr rfl nofun
  | openSession | deliverEvents | acknowledgeThrough =>
    obtain ⟨-, sessions, rfl⟩ := hturned
    exact hm.congr rfl id
  | heartbeat other generation answered =>
    obtain ⟨-, -, rfl⟩ := hturned
    exact hm.congr rfl id
  | exit other =>
    obtain ⟨-, -, rfl⟩ := hturned
    exact hm.congr rfl id
  | crash other now cut =>
    obtain ⟨-, rfl⟩ := hturned
    obtain rfl : cut = none := ha
    exact hm.crash hclock
  | restart other =>
    obtain ⟨hphase, hm'⟩ := hturned
    unfold record
    split_ifs with hlaunching
    · exact hm.answer hphase (by rw [hm']) (by rw [hlaunching]; exact nofun)
    · rw [hm'] at hlaunching ⊢
      refine hm.congr rfl fun hrestarting => ?_
      dsimp only at hlaunching hrestarting
      split_ifs at hlaunching hrestarting
  | disable other cut =>
    obtain ⟨hidle, rfl⟩ := hturned
    split_ifs
    · exact hm.congr rfl id
    · exact hm.congr rfl id
  | shutdown =>
    obtain rfl : m' = m := hturned
    exact hm

structure Sound (policy : RestartPolicy) (identity : PluginIdentity) (h : RestartHistory) :
    Prop where
  standing : (h.plugin identity).Standing
  counted : Counted policy (h.plugin identity) h.crashes h.answered

theorem sound_start (policy : RestartPolicy) (identity : PluginIdentity) :
    Sound policy identity {} :=
  ⟨ManagedPlugin.standing_fresh, counted_fresh policy⟩

theorem Sound.step (hs : h.Sound policy identity) (hclock : h.ClockOnward a)
    (horderly : h.Orderly identity a) (hnext : h.next policy identity a = some h') :
    h'.Sound policy identity := by
  rcases next_cases hnext with ⟨habout, hturned, hrecorded⟩ | ⟨-, hsame, hkept⟩
  · have hsmooth := (horderly habout).1
    refine ⟨hs.standing.turned hturned hsmooth, ?_⟩
    have hcounted := hs.counted.turned hturned hsmooth hclock
    rw [hrecorded]
    exact hcounted
  · refine ⟨hsame ▸ hs.standing, ?_⟩
    rw [hsame, hkept]
    exact hs.counted

/-- A plugin that is at rest without a process stays so but where it is enabled. -/
theorem turned_at_rest {m m' : ManagedPlugin} {stopping : Bool} (hidle : m.phase = .idle)
    (hprocess : m.process = false) (hturned : m.Turned policy stopping m' a) :
    (∃ identity loaded, a = .enable identity loaded ∧
        (m.status = .quarantined → m' = { m with desiredEnabled := true })) ∨
      m'.phase = .idle ∧ m'.process = false ∧
        ((∃ identity cut, a = .disable identity cut) ∧ m'.desiredEnabled = false ∨
          m'.desiredEnabled = m.desiredEnabled ∧ (m.peer = false → m'.status = m.status)) := by
  cases a with
  | enable other loaded =>
    refine .inl ⟨other, loaded, rfl, fun hquarantined => ?_⟩
    obtain ⟨-, hm | ⟨-, hopen, -⟩⟩ := hturned
    · exact hm
    · exact absurd hquarantined hopen
  | launch other outcome =>
    rw [hturned.1] at hidle
    cases hidle
  | restore other outcome =>
    obtain ⟨_, _, _, hphase, -⟩ := hturned
    rw [hphase] at hidle
    cases hidle
  | ready other monitored =>
    rw [hturned.1] at hidle
    cases hidle
  | openSession | deliverEvents | acknowledgeThrough =>
    obtain ⟨-, sessions, rfl⟩ := hturned
    exact .inr ⟨hidle, hprocess, .inr ⟨rfl, fun _ => rfl⟩⟩
  | heartbeat other generation answered =>
    obtain ⟨-, hpeer, rfl⟩ := hturned
    refine .inr ⟨hidle, hprocess, .inr ⟨rfl, fun hnone => ?_⟩⟩
    rw [hnone] at hpeer
    cases hpeer
  | exit other =>
    obtain ⟨-, -, rfl⟩ := hturned
    exact .inr ⟨hidle, hprocess, .inr ⟨rfl, fun _ => rfl⟩⟩
  | crash other now cut =>
    rw [hturned.1.2.2] at hprocess
    cases hprocess
  | restart other =>
    rw [hturned.1] at hidle
    cases hidle
  | disable other cut =>
    obtain ⟨-, rfl⟩ := hturned
    split_ifs
    · exact .inr ⟨hidle, rfl, .inl ⟨⟨other, cut, rfl⟩, rfl⟩⟩
    · exact .inr ⟨hidle, hprocess, .inl ⟨⟨other, cut, rfl⟩, rfl⟩⟩
  | shutdown =>
    obtain rfl : m' = m := hturned
    exact .inr ⟨hidle, hprocess, .inr ⟨rfl, fun _ => rfl⟩⟩

theorem Sound.stays (hs : h.Sound policy identity) (hnext : h.next policy identity a = some h')
    (hstatus : (h.plugin identity).status = .quarantined)
    (hno : ∀ cut, a ≠ .disable identity cut) :
    (h'.plugin identity).status = .quarantined ∧ (h'.plugin identity).process = false ∧
      (h'.plugin identity).phase = .idle := by
  obtain ⟨hprocess, hpeer, hidle⟩ := hs.standing.quarantined hstatus
  rcases next_cases hnext with ⟨habout, hturned, -⟩ | ⟨-, hsame, -⟩
  · rcases turned_at_rest hidle hprocess hturned with ⟨other, loaded, -, hm⟩ |
      ⟨hidle', hprocess', ⟨⟨other, cut, rfl⟩, -⟩ | ⟨-, hkept⟩⟩
    · rw [hm hstatus]
      exact ⟨hstatus, hprocess, hidle⟩
    · obtain rfl : other = identity := Option.some.inj habout
      exact absurd rfl (hno cut)
    · exact ⟨(hkept hpeer).trans hstatus, hprocess', hidle'⟩
  · rw [hsame]
    exact ⟨hstatus, hprocess, hidle⟩

theorem down_next (hnext : h.next policy identity a = some h')
    (hdown : (h.plugin identity).Down) (hno : ∀ loaded, a ≠ .enable identity loaded) :
    (h'.plugin identity).Down := by
  rcases next_cases hnext with ⟨habout, hturned, -⟩ | ⟨-, hsame, -⟩
  · rcases turned_at_rest hdown.idle hdown.stopped hturned with ⟨other, loaded, rfl, -⟩ |
      ⟨hidle, hprocess, ⟨-, hdisabled⟩ | ⟨hdisabled, -⟩⟩
    · obtain rfl : other = identity := Option.some.inj habout
      exact absurd rfl (hno loaded)
    · exact ⟨hdisabled, hprocess, hidle⟩
    · exact ⟨hdisabled.trans hdown.disabled, hprocess, hidle⟩
  · exact hsame ▸ hdown

theorem turned_of_about (hnext : h.next policy identity a = some h')
    (habout : a.about = some identity) :
    (h.plugin identity).Turned policy h.world.shuttingDown (h'.plugin identity) a := by
  rcases next_cases hnext with ⟨-, hturned, -⟩ | ⟨hother, -, -⟩
  · exact hturned
  · exact absurd habout hother

theorem Sound.quarantines (hs : h.Sound policy identity)
    (hnext : h.next policy identity a = some h') (hclock : h.ClockOnward a) {now : Instant}
    (ha : a = .crash identity now none)
    (hover : policy.maxRestarts <
      h'.crashes.countP (fun crash => now ≤ crash + policy.windowSeconds)) :
    (h'.plugin identity).status = .quarantined := by
  subst ha
  rcases next_cases hnext with ⟨-, ⟨-, hcrashed⟩, hrecorded⟩ | ⟨hother, -⟩
  · obtain ⟨old, hold, hout⟩ := hs.counted.recent_crash hclock
    have hcrashes : h'.crashes = old ++ policy.recent (h.plugin identity).crashTimes now := by
      rw [hrecorded]
      exact hold
    have hnone : old.countP (fun crash => now ≤ crash + policy.windowSeconds) = 0 := by
      rw [List.countP_eq_zero]
      intro crash hcrash
      rw [decide_eq_true_eq, not_le]
      exact hout crash hcrash
    rw [hcrashes, List.countP_append, hnone, Nat.zero_add] at hover
    rw [hcrashed, if_pos rfl]
    exact if_pos (hover.trans_le List.countP_le_length)
  · exact absurd rfl hother

theorem answers (hnext : h.next policy identity a = some h') (horderly : h.Orderly identity a)
    {now : Instant} {cut : Option ℕ} (ha : a = .crash identity now cut) :
    (h'.plugin identity).status = .quarantined ∨ (h'.plugin identity).phase = .restarting := by
  subst ha
  obtain ⟨-, hcrashed⟩ := turned_of_about hnext rfl
  obtain rfl : cut = none := (horderly rfl).1
  rw [hcrashed, if_pos rfl]
  unfold RestartPolicy.crashed
  dsimp only
  split_ifs
  · exact .inl rfl
  · exact .inr rfl

theorem Sound.revives (hs : h.Sound policy identity) (hnext : h.next policy identity a = some h')
    (horderly : h.Orderly identity a) (hautomatic : h.automatic = true)
    (hrestarting : (h.plugin identity).phase ≠ .restarting)
    (hbusy : (h.plugin identity).phase ≠ .idle) (hidle : (h'.plugin identity).phase = .idle) :
    (h'.plugin identity).process = true := by
  rcases next_cases hnext with ⟨habout, hturned, -⟩ | ⟨-, hsame, -⟩
  · obtain ⟨hsmooth, hinitialized⟩ := horderly habout
    cases a with
    | launch other outcome =>
      obtain rfl : other = identity := Option.some.inj habout
      obtain ⟨-, ⟨-, hm⟩ | ⟨hfailed, -⟩⟩ := hturned
      · rw [hm]
      · cases outcome with
        | initialized => exact absurd rfl hfailed
        | hostIncompatible | failed | negotiationFailed =>
          exact absurd trivial (hinitialized hautomatic)
    | restore other outcome =>
      obtain ⟨previous, left, sessions, -, hm⟩ := hturned
      obtain rfl : outcome = .opened := hsmooth
      rw [hm] at hidle
      cases hidle
    | ready other monitored =>
      rw [hturned.2]
      exact hs.standing.restoring _ hturned.1
    | restart other => exact absurd hturned.1 hrestarting
    | exit other =>
      rw [hturned.2.2] at hidle
      exact absurd hidle hbusy
    | crash other now cut => exact absurd hturned.1.1 hbusy
    | enable | openSession | deliverEvents | acknowledgeThrough | heartbeat | disable =>
      exact absurd hturned.1 hbusy
    | shutdown => cases habout
  · rw [hsame] at hidle
    exact absurd hidle hbusy

/-- The crash of a process whose end was seen can be seen to. -/
theorem Sound.handles (hs : h.Sound policy identity) (hexited : (h.plugin identity).exited = true)
    (now : Instant) : ∃ w, h.world.crashStep policy identity now none = some w := by
  have hmonitored := hs.standing.exited hexited
  obtain ⟨hprocess, hidle⟩ := hs.standing.monitored hmonitored
  have hwatched := hs.standing.watched hprocess hidle
  unfold plugin SupervisorWorld.plugin at hexited hprocess hidle hwatched
  cases hsome : h.world.plugins identity with
  | none =>
    rw [hsome] at hexited
    cases hexited
  | some m =>
    rw [hsome] at hexited hprocess hidle hwatched
    unfold SupervisorWorld.crashStep
    rw [hsome]
    exact ⟨_, if_pos ⟨hidle, hexited, hprocess, hwatched⟩⟩

/-- In every run over a clock that does not go back, in which no relaunch of a plugin fails and the
host goes on after what it does for it, every step does what the restart policy demands. -/
theorem restarts_policed {actions : List SupervisorAction}
    (hrun : Run (Under (Orderly identity) (Steps policy identity)) {} actions h)
    (hstep : Under (Orderly identity) (Steps policy identity) h a h') :
    Policed policy identity h a h' := by
  have hs : h.Sound policy identity :=
    hrun.invariant (fun _ _ _ hs hstep => hs.step hstep.2.1 hstep.1 hstep.2.2)
      (sound_start policy identity)
  obtain ⟨horderly, hclock, hnext⟩ := hstep
  have hs' := hs.step hclock horderly hnext
  have hwatched : (h'.plugin identity).process = true → (h'.plugin identity).phase = .idle →
      (h'.plugin identity).Watched :=
    fun hprocess hidle => ⟨hprocess, hs'.standing.watched hprocess hidle⟩
  refine
    { bounded := hs'.counted.bounded
      quarantines := fun now ha hover => hs.quarantines hnext hclock ha hover
      stays := hs.stays hnext
      down := ?_
      answers := fun now cut ha => answers hnext horderly ha
      relaunches := ?_
      revives := fun hautomatic hrestarting hbusy => or_iff_not_imp_left.mpr fun hidle =>
        .inl (hwatched (hs.revives hnext horderly hautomatic hrestarting hbusy (not_not.mp hidle))
          (not_not.mp hidle))
      watches := hwatched
      handles := hs'.handles }
  · rintro (rfl | ⟨hdown, hno⟩)
    · obtain ⟨hidle, hm⟩ := turned_of_about hnext rfl
      rw [hm, if_pos rfl]
      exact ⟨rfl, rfl, hidle⟩
    · exact down_next hnext hdown hno
  · rintro rfl hdesired hstopping
    rw [(turned_of_about hnext rfl).2]
    exact if_pos ⟨hdesired, hstopping⟩

section Example

def notesPlugin : PluginIdentity := ⟨"notes", "1"⟩

def crashActions : List SupervisorAction :=
  [.enable notesPlugin (some []), .launch notesPlugin .initialized, .ready notesPlugin true,
    .exit notesPlugin, .crash notesPlugin 1 none, .restart notesPlugin]

def OnwardOrderly (h : RestartHistory) (a : SupervisorAction) : Prop :=
  h.Orderly notesPlugin a ∧ h.ClockOnward a

instance (h : RestartHistory) : DecidablePred h.OnwardOrderly :=
  fun _ => inferInstanceAs (Decidable (_ ∧ _))

def relaunching : RestartHistory :=
  (follow (guarded OnwardOrderly (next {} notesPlugin)) crashActions {}).get (by decide)

theorem relaunching_run :
    Run (Under (Orderly notesPlugin) (Steps {} notesPlugin)) {} crashActions relaunching :=
  (run_under_to_get OnwardOrderly (next {} notesPlugin) crashActions {} (by decide)).mono
    fun _ _ _ hstep => ⟨hstep.1.1, hstep.1.2, hstep.2⟩

def relaunched (outcome : LaunchOutcome) : RestartHistory :=
  (relaunching.next {} notesPlugin (.launch notesPlugin outcome)).getD {}

/-- A relaunch that gets through does what the policy demands. -/
theorem relaunched_policed :
    Policed {} notesPlugin relaunching (.launch notesPlugin .initialized)
      (relaunched .initialized) := by
  have hnext : relaunching.next {} notesPlugin (.launch notesPlugin .initialized) =
      some (relaunched .initialized) := rfl
  exact restarts_policed relaunching_run ⟨by decide, trivial, hnext⟩

/-- A relaunch that fails leaves a plugin enabled, without a process and at rest. -/
theorem failed_relaunch_not_policed : ¬ ∀ policy identity actions h a h',
    Run (Steps policy identity) {} actions h → Steps policy identity h a h' →
      Policed policy identity h a h' := by
  intro hall
  have hnext : relaunching.next {} notesPlugin (.launch notesPlugin .failed) =
      some (relaunched .failed) := rfl
  have hpoliced := hall {} notesPlugin crashActions relaunching (.launch notesPlugin .failed)
    (relaunched .failed) relaunching_run.forget ⟨trivial, hnext⟩
  rcases hpoliced.revives (by decide) (by decide) (by decide) with hbusy | hwatched | hquarantined
  · exact absurd hbusy (by decide)
  · exact absurd hwatched.1 (by decide)
  · exact absurd hquarantined (by decide)

end Example

end RestartHistory

end Plugins
end Matinier
