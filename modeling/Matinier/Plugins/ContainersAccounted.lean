import Matinier.Plugins.ContainerLife

/-!
# Every container is accounted for

What each step of the supervisor does to one plugin and its containers, where no launch fails
behind the start of its container but by a wrong answer; and from this what holds in every run.
-/

namespace Matinier
namespace Plugins

open Assistant ManagedPlugin SupervisorWorld

variable {policy : RestartPolicy} {w w' : SupervisorWorld} {identity : PluginIdentity}
  {m m' : ManagedPlugin} {running : List ℕ} {recorded : Option ℕ}

theorem enableStep_attended {loaded : Option (List RestoredSession)}
    (h : w.enableStep identity loaded = some w')
    (hm : (w.plugin identity).Attended running recorded) :
    ∃ m', w.Turns w' identity m' ∧ m'.Attended running recorded := by
  unfold enableStep at h
  dsimp only at h
  split_ifs at h with hidle hdown hfresh
  · cases loaded with
    | none =>
      cases h
      exact ⟨_, turns_setPlugin, hm.congr rfl rfl rfl rfl rfl⟩
    | some loaded =>
      cases h
      obtain ⟨sessions, hload⟩ := loadPersistedSessions_eq identity loaded
        { w.plugin identity with desiredEnabled := true }
      obtain ⟨hmonitored, hexited, _, rfl, rfl⟩ := hm.of_process hdown.1
      refine ⟨_, turns_setPlugin, ?_⟩
      rw [hload]
      exact .down hdown.1 hmonitored hexited nofun
  · cases h
    obtain ⟨hmonitored, hexited, _, rfl, rfl⟩ := hm.of_process hdown.1
    exact ⟨_, turns_setPlugin, .down hdown.1 hmonitored hexited nofun⟩
  · cases h
    exact ⟨_, turns_setPlugin, hm.congr rfl rfl rfl rfl rfl⟩

theorem launchStep_attended {outcome : LaunchOutcome} (container : ℕ)
    (h : w.launchStep identity outcome = some w')
    (hm : (w.plugin identity).Attended running recorded) :
    running = [] ∧ recorded = none ∧ ∃ m', w.Turns w' identity m' ∧
      (outcome = .initialized → m'.Attended [container] (some container)) ∧
      (outcome ≠ .initialized → m'.Attended [] none) := by
  obtain ⟨m, hsome, h⟩ := Option.bind_eq_some_iff.mp h
  rw [plugin_of_some hsome] at hm
  obtain ⟨hphase, h⟩ := Option.ite_none_right_eq_some.mp h
  obtain ⟨hprocess, hmonitored, hexited, rfl, rfl⟩ := hm.of_launching (.inl hphase)
  refine ⟨rfl, rfl, ?_⟩
  cases outcome with
  | hostIncompatible =>
    cases h
    exact ⟨_, turns_setPlugin, nofun, fun _ => .down hprocess hmonitored hexited nofun⟩
  | failed =>
    cases h
    exact ⟨_, turns_setPlugin, nofun, fun _ => .down hprocess hmonitored hexited nofun⟩
  | negotiationFailed =>
    cases h
    exact ⟨_, turns_setPlugin, nofun, fun _ => .down hprocess hmonitored hexited nofun⟩
  | initialized =>
    cases h
    refine ⟨_, turns_setPlugin, fun _ => ?_, fun hne => absurd rfl hne⟩
    refine .up container rfl (.inr rfl) ?_ (.inr ⟨_, rfl⟩)
    intro he
    exact absurd (he.symm.trans hexited) (by decide)

theorem restoreStep_attended (h : w.restoreStep identity .opened = some w')
    (hm : (w.plugin identity).Attended running recorded) :
    ∃ m', w.Turns w' identity m' ∧ m'.Attended running recorded := by
  obtain ⟨m, hsome, h⟩ := Option.bind_eq_some_iff.mp h
  rw [plugin_of_some hsome] at hm
  split at h
  case h_2 => cases h
  case h_1 previous left hphase =>
    cases h
    obtain ⟨sessions, hturns⟩ := turns_openBinding w identity
      { m with phase := .restoring left }
      (w.newBinding identity m previous.mediaSessionId previous.lastAcknowledgedSequence) .opened
    refine ⟨_, hturns, ?_⟩
    cases hm with
    | down _ _ _ hph => exact absurd hphase (hph _)
    | up container hp hr he _ => exact .up container hp hr he (.inr ⟨left, rfl⟩)

theorem readyStep_attended (h : w.readyStep identity true = some w')
    (hm : (w.plugin identity).Attended running recorded) :
    ∃ m', w.Turns w' identity m' ∧ m'.Attended running recorded := by
  obtain ⟨m, hsome, h⟩ := Option.bind_eq_some_iff.mp h
  rw [plugin_of_some hsome] at hm
  obtain ⟨hphase, h⟩ := Option.ite_none_right_eq_some.mp h
  cases h
  refine ⟨_, turns_setPlugin, ?_⟩
  cases hm with
  | down _ _ _ hph => exact absurd hphase (hph _)
  | up container hp hr _ _ => exact .up container hp hr nofun (.inl ⟨rfl, rfl⟩)

theorem openStep_attended {media : MediaSessionId} {lastAcknowledged : ℤ} {outcome : OpenOutcome}
    (h : w.openStep identity media lastAcknowledged outcome = some w')
    (hm : (w.plugin identity).Attended running recorded) :
    ∃ m', w.Turns w' identity m' ∧ m'.Attended running recorded := by
  obtain ⟨m, hsome, h⟩ := Option.bind_eq_some_iff.mp h
  rw [plugin_of_some hsome] at hm
  split_ifs at h
  · cases h
    exact ⟨m, turns_refl hsome, hm⟩
  · cases h
    obtain ⟨sessions, hturns⟩ := turns_openBinding w identity m
      (w.newBinding identity m media lastAcknowledged) outcome
    exact ⟨_, hturns, hm.congr rfl rfl rfl rfl rfl⟩

theorem acknowledge_attended (hm : m.Attended running recorded) (binding : SessionBinding)
    (sequence : ℤ) : ∃ m', w.Turns (w.acknowledge identity m binding sequence) identity m' ∧
      m'.Attended running recorded := by
  obtain ⟨sessions, hturns⟩ := turns_acknowledge w identity m binding sequence
  exact ⟨_, hturns, hm.congr rfl rfl rfl rfl rfl⟩

theorem deliverStep_attended {media : MediaSessionId} {sequences : List ℤ}
    {acknowledged : Option ℤ} (h : w.deliverStep identity media sequences acknowledged = some w')
    (hm : (w.plugin identity).Attended running recorded) :
    ∃ m', w.Turns w' identity m' ∧ m'.Attended running recorded := by
  obtain ⟨m, hsome, h⟩ := Option.bind_eq_some_iff.mp h
  rw [plugin_of_some hsome] at hm
  split_ifs at h
  obtain ⟨binding, _, h⟩ := Option.bind_eq_some_iff.mp h
  split at h
  · split_ifs at h
    · cases h
      exact acknowledge_attended hm binding _
    · cases h
      exact ⟨m, turns_refl hsome, hm⟩
  · cases h
    exact ⟨m, turns_refl hsome, hm⟩

theorem acknowledgeStep_attended {media : MediaSessionId} {sequence : ℤ}
    (h : w.acknowledgeStep identity media sequence = some w')
    (hm : (w.plugin identity).Attended running recorded) :
    ∃ m', w.Turns w' identity m' ∧ m'.Attended running recorded := by
  obtain ⟨m, hsome, h⟩ := Option.bind_eq_some_iff.mp h
  rw [plugin_of_some hsome] at hm
  split_ifs at h
  obtain ⟨binding, _, h⟩ := Option.bind_eq_some_iff.mp h
  split_ifs at h
  · cases h
    exact ⟨m, turns_refl hsome, hm⟩
  · cases h
    exact acknowledge_attended hm binding sequence

theorem heartbeatStep_attended {generation : ℕ} {answered : Bool}
    (h : w.heartbeatStep identity generation answered = some w')
    (hm : (w.plugin identity).Attended running recorded) :
    ∃ m', w.Turns w' identity m' ∧ m'.Attended running recorded := by
  obtain ⟨m, hsome, h⟩ := Option.bind_eq_some_iff.mp h
  rw [plugin_of_some hsome] at hm
  obtain ⟨_, h⟩ := Option.ite_none_right_eq_some.mp h
  cases h
  exact ⟨_, turns_setPlugin, hm.congr rfl rfl rfl rfl rfl⟩

/-- A monitor that sees the end of a process finds its container gone. -/
theorem exitStep_attended (h : w.exitStep identity = some w')
    (hm : (w.plugin identity).Attended running recorded)
    (hended : ∀ container ∈ recorded, container ∉ running) :
    ∃ m', w.Turns w' identity m' ∧ m'.Attended running recorded := by
  obtain ⟨m, hsome, h⟩ := Option.bind_eq_some_iff.mp h
  rw [plugin_of_some hsome] at hm
  split_ifs at h with hguard
  cases h
  refine ⟨_, turns_setPlugin, ?_⟩
  cases hm with
  | down _ hmonitored _ _ =>
    rw [hmonitored] at hguard
    cases hguard.2.2
  | up container hp hr _ hph =>
    have hgone : running = [] := by
      rcases hr with hr | hr
      · exact hr
      · exact absurd (hr ▸ List.mem_singleton_self container) (hended container rfl)
    exact .up container hp (.inl hgone) (fun _ => hgone) hph

theorem crashStep_attended {now : Instant} (h : w.crashStep policy identity now none = some w')
    (hm : (w.plugin identity).Attended running recorded) :
    running = [] ∧ ∃ m', w.Turns w' identity m' ∧ m'.Attended [] none := by
  obtain ⟨m, hsome, h⟩ := Option.bind_eq_some_iff.mp h
  rw [plugin_of_some hsome] at hm
  obtain ⟨⟨_, hexited, hprocess, _⟩, h⟩ := Option.ite_none_right_eq_some.mp h
  cases h
  refine ⟨?_, _, turns_invalidateScopes, .down rfl rfl rfl ?_⟩
  · cases hm with
    | down hp _ _ _ => exact absurd (hp.symm.trans hprocess) (by decide)
    | up _ _ _ he _ => exact he hexited
  · intro left hphase
    dsimp only at hphase
    split_ifs at hphase

theorem restartStep_attended (h : w.restartStep identity = some w')
    (hm : (w.plugin identity).Attended running recorded) :
    ∃ m', w.Turns w' identity m' ∧ m'.Attended running recorded := by
  obtain ⟨m, hsome, h⟩ := Option.bind_eq_some_iff.mp h
  rw [plugin_of_some hsome] at hm
  obtain ⟨hphase, h⟩ := Option.ite_none_right_eq_some.mp h
  cases h
  obtain ⟨hprocess, hmonitored, hexited, rfl, rfl⟩ := hm.of_launching (.inr hphase)
  refine ⟨_, turns_setPlugin, .down hprocess hmonitored hexited ?_⟩
  intro left hleft
  dsimp only at hleft
  split_ifs at hleft

theorem disableStep_attended (h : w.disableStep identity none = some w')
    (hm : (w.plugin identity).Attended running recorded) :
    ∃ m', w.Turns w' identity m' ∧
      m'.Attended (running.filter fun container => some container ≠ recorded) none := by
  obtain ⟨m, hsome, h⟩ := Option.bind_eq_some_iff.mp h
  rw [plugin_of_some hsome] at hm
  obtain ⟨hphase, h⟩ := Option.ite_none_right_eq_some.mp h
  cases h
  have hgone : (running.filter fun container => some container ≠ recorded) = [] := by
    cases hm with
    | down _ _ _ _ => rfl
    | up container _ hr _ _ => rcases hr with rfl | rfl <;> simp
  rw [hgone]
  refine ⟨_, turns_invalidateScopes, .down rfl rfl rfl ?_⟩
  intro left hleft
  rw [show _ = LaunchPhase.idle from hphase] at hleft
  cases hleft

namespace SupervisedContainers

variable {s s' : SupervisedContainers}

/-- How each plugin stands with its containers. -/
def AllAttended (s : SupervisedContainers) : Prop :=
  ∀ identity, (s.world.plugin identity).Attended (s.running identity) (s.recorded identity)

theorem allAttended_empty : AllAttended {} := fun _ => attended_fresh

theorem AllAttended.turn (hs : s.AllAttended) (hturns : s.world.Turns s'.world identity m')
    (hrunning : ∀ other, other ≠ identity → s'.running other = s.running other)
    (hrecorded : ∀ other, other ≠ identity → s'.recorded other = s.recorded other)
    (hm : m'.Attended (s'.running identity) (s'.recorded identity)) : s'.AllAttended := by
  intro other
  by_cases hother : other = identity
  · rw [hother, hturns.self]
    exact hm
  · rw [hturns.others hother, hrunning other hother, hrecorded other hother]
    exact hs other

theorem AllAttended.turn_world (hs : s.AllAttended) (h : ∃ m', s.world.Turns w' identity m' ∧
      m'.Attended (s.running identity) (s.recorded identity)) :
    AllAttended { s with world := w' } := by
  obtain ⟨m', hturns, hm⟩ := h
  apply AllAttended.turn hs hturns
  · intro _ _
    rfl
  · intro _ _
    rfl
  · exact hm

theorem AllAttended.ended (hs : s.AllAttended) (kept : ℕ → Bool) :
    (s.keep identity kept).AllAttended := by
  intro other
  rw [world_keep, recorded_keep]
  by_cases hother : other = identity
  · rw [hother, running_keep_self]
    exact (hs identity).keep kept
  · rw [running_keep_of_ne kept hother]
    exact hs other

theorem AllAttended.launch (hs : s.AllAttended) {outcome : LaunchOutcome}
    (h : s.world.launchStep identity outcome = some w')
    (hafter : s.after false (.launch identity outcome) = some s') :
    AllAttended { s' with world := w' } := by
  obtain ⟨hrunning, hrecorded, m', hturns, hup, hdown⟩ :=
    launchStep_attended s.started h (hs identity)
  cases outcome with
  | initialized =>
    cases hafter
    apply AllAttended.turn hs hturns
    · intro other hother
      exact running_start_of_ne hother
    · intro other hother
      exact recorded_record_of_ne _ hother
    · simp only [running_record, running_start_self, recorded_record_self, hrunning,
        List.nil_append]
      exact hup rfl
  | failed =>
    cases hafter
    apply AllAttended.turn_world hs ⟨m', hturns, ?_⟩
    rw [hrunning, hrecorded]
    exact hdown nofun
  | hostIncompatible =>
    cases hafter
    apply AllAttended.turn_world hs ⟨m', hturns, ?_⟩
    rw [hrunning, hrecorded]
    exact hdown nofun
  | negotiationFailed =>
    cases hafter
    apply AllAttended.turn hs hturns
    · intro _ _
      rfl
    · intro _ _
      rfl
    · simp only [hrunning, hrecorded]
      exact hdown nofun

theorem AllAttended.crash (hs : s.AllAttended) {now : Instant}
    (h : s.world.crashStep policy identity now none = some w') :
    AllAttended { s.record identity none with world := w' } := by
  obtain ⟨hrunning, m', hturns, hm⟩ := crashStep_attended h (hs identity)
  apply AllAttended.turn hs hturns
  · intro _ _
    rfl
  · intro other hother
    exact recorded_record_of_ne _ hother
  · simp only [running_record, recorded_record_self, hrunning]
    exact hm

theorem AllAttended.disable (hs : s.AllAttended)
    (h : s.world.disableStep identity none = some w') :
    AllAttended { (s.keep identity fun container =>
      some container ≠ s.recorded identity).record identity none with world := w' } := by
  obtain ⟨m', hturns, hm⟩ := disableStep_attended h (hs identity)
  apply AllAttended.turn hs hturns
  · intro other hother
    exact running_keep_of_ne _ hother
  · intro other hother
    exact recorded_record_of_ne _ hother
  · simp only [running_record, recorded_record_self, running_keep_self]
    exact hm

/-- One step, where no launch fails behind the start of its container. -/
theorem AllAttended.step {a : ContainerAction} (hs : s.AllAttended) (ha : a.Contained)
    (h : s.next policy a = some s') : s'.AllAttended := by
  cases a with
  | ended identity container =>
    cases h
    exact hs.ended _
  | supervised action lingers =>
    obtain ⟨w', hnext, h⟩ := Option.bind_eq_some_iff.mp h
    obtain ⟨t, hafter, h⟩ := Option.bind_eq_some_iff.mp h
    cases h
    cases action with
    | enable identity loaded =>
      cases hafter
      exact hs.turn_world (enableStep_attended hnext (hs identity))
    | launch identity outcome =>
      have hlingers : s.after false (.launch identity outcome) = some t := by
        cases outcome with
        | failed =>
          rw [show lingers = false from ha] at hafter
          exact hafter
        | hostIncompatible => exact hafter
        | negotiationFailed => exact hafter
        | initialized => exact hafter
      exact hs.launch hnext hlingers
    | restore identity outcome =>
      cases hafter
      rw [show outcome = .opened from ha] at hnext
      exact hs.turn_world (restoreStep_attended hnext (hs identity))
    | ready identity monitored =>
      cases hafter
      rw [show monitored = true from ha] at hnext
      exact hs.turn_world (readyStep_attended hnext (hs identity))
    | openSession identity media lastAcknowledged outcome =>
      cases hafter
      exact hs.turn_world (openStep_attended hnext (hs identity))
    | deliverEvents identity media sequences acknowledged =>
      cases hafter
      exact hs.turn_world (deliverStep_attended hnext (hs identity))
    | acknowledgeThrough identity media sequence =>
      cases hafter
      exact hs.turn_world (acknowledgeStep_attended hnext (hs identity))
    | heartbeat identity generation answered =>
      cases hafter
      exact hs.turn_world (heartbeatStep_attended hnext (hs identity))
    | exit identity =>
      obtain ⟨hended, hsame⟩ := Option.ite_none_right_eq_some.mp hafter
      cases hsame
      exact hs.turn_world (exitStep_attended hnext (hs identity) hended)
    | crash identity now cut =>
      rw [show cut = none from ha] at hnext hafter
      cases hafter
      exact hs.crash hnext
    | restart identity =>
      cases hafter
      exact hs.turn_world (restartStep_attended hnext (hs identity))
    | disable identity cut =>
      obtain ⟨hcut, hlingers⟩ := ha
      rw [hcut] at hnext hafter
      rw [hlingers] at hafter
      cases hafter
      exact hs.disable hnext
    | shutdown => exact absurd ha id

theorem AllAttended.accounted (hs : s.AllAttended)
    (hidle : (s.world.plugin identity).phase = .idle) : s.Accounted identity := by
  generalize hm : s.world.plugin identity = m at hidle
  have hattended := hs identity
  generalize hr : s.running identity = running at hattended
  generalize hc : s.recorded identity = recorded at hattended
  rw [hm] at hattended
  cases hattended with
  | down hprocess hmonitored _ _ =>
    constructor
    · rw [hr]
      exact Nat.zero_le 1
    · intro container hcontainer
      rw [hr] at hcontainer
      cases hcontainer
    · intro hstatus _ loaded
      rw [hm] at hstatus
      unfold SupervisorWorld.enableStep
      dsimp only
      rw [hm, if_pos hidle, if_pos ⟨hprocess, hstatus⟩]
      split_ifs
      · exact ⟨_, rfl, congrArg _ turns_setPlugin.self⟩
      · exact ⟨_, rfl, congrArg _ turns_setPlugin.self⟩
  | up container hprocess hrunning _ hphase =>
    have hwatched : m.monitored = some m.generation := by
      rcases hphase with ⟨_, hwatched⟩ | ⟨left, hleft⟩
      · exact hwatched
      · rw [hidle] at hleft
        cases hleft
    constructor
    · rw [hr]
      rcases hrunning with rfl | rfl
      · exact Nat.zero_le 1
      · exact Nat.le_refl 1
    · intro c hcontainer
      rw [hr] at hcontainer
      rw [hm, hc]
      rcases hrunning with rfl | rfl
      · cases hcontainer
      · rw [List.mem_singleton.mp hcontainer]
        exact ⟨rfl, hprocess, hwatched⟩
    · intro _ hdead
      rw [hm] at hdead
      exact absurd ⟨hprocess, hwatched⟩ hdead

end SupervisedContainers

/-- In every run in which no launch fails behind the start of its container, but by a wrong
answer, the containers of a plugin are accounted for whenever its lock is free. -/
theorem containers_accounted {labels : List ContainerAction} {s : SupervisedContainers}
    (h : Run (Under (fun _ a => a.Contained) (ContainerSteps policy)) {} labels s)
    (hidle : (s.world.plugin identity).phase = .idle) : s.Accounted identity := by
  have hattended : s.AllAttended :=
    h.invariant (fun _ _ _ hs hstep => hs.step hstep.1 hstep.2)
      SupervisedContainers.allAttended_empty
  exact hattended.accounted hidle

def notesIdentity : PluginIdentity := ⟨"org.example.notes", "1.0.0"⟩

def notesLaunch : List ContainerAction :=
  [.supervised (.enable notesIdentity (some [])) false,
    .supervised (.launch notesIdentity .initialized) false,
    .supervised (.ready notesIdentity true) false, .ended notesIdentity 0,
    .supervised (.exit notesIdentity) false, .supervised (.crash notesIdentity 1 none) false,
    .supervised (.restart notesIdentity) false,
    .supervised (.launch notesIdentity .initialized) false,
    .supervised (.ready notesIdentity true) false]

/-- Take a step if it is one where nothing goes wrong behind the start of a container. -/
def containedNext (s : SupervisedContainers) (a : ContainerAction) : Option SupervisedContainers :=
  guarded (fun _ (a : ContainerAction) => a.Contained) (SupervisedContainers.next · {}) s a

theorem notesLaunch_follows : (follow containedNext notesLaunch {}).isSome = true := by rfl

/-- A plugin that was launched again when its process had ended has the one container that runs. -/
theorem notesLaunch_accounted : ∃ s : SupervisedContainers,
    s.running notesIdentity = [1] ∧ s.Accounted notesIdentity :=
  ⟨_, rfl, containers_accounted (run_under_to_get (fun _ (a : ContainerAction) => a.Contained)
    (SupervisedContainers.next · {}) notesLaunch {} notesLaunch_follows) rfl⟩

def notesTimeout : List ContainerAction :=
  [.supervised (.enable notesIdentity (some [])) false,
    .supervised (.launch notesIdentity .failed) true]

theorem notesTimeout_follows :
    (follow (SupervisedContainers.next · {}) notesTimeout {}).isSome = true := by rfl

/-- The container of a launch whose request for initialization is not answered in time goes on
running, and nobody knows of it. -/
theorem initialize_timeout_orphans :
    ¬ ∀ policy labels s, Run (ContainerSteps policy) {} labels s →
      ∀ identity, (s.world.plugin identity).phase = .idle → s.Accounted identity := by
  intro h
  have hrun := run_to_get _ _ _ notesTimeout_follows
  obtain ⟨hrecorded, _⟩ := (h {} _ _ hrun notesIdentity rfl).watched 0 (by decide +kernel)
  exact absurd hrecorded (by decide +kernel)

end Plugins
end Matinier
