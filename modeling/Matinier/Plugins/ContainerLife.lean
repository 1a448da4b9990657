import Matinier.Plugins.Supervisor

/-!
# Containers of supervised plugins

A launch starts a container, and what was started goes on running until it ends or is stopped. The
supervisor knows of the one it recorded as the plugin's process. A launch that fails once its
container was started leaves that running, unless the plugin answered wrongly; one that fails
while sessions are restored leaves it recorded, with no monitor.
-/

namespace Matinier
namespace Plugins

/-- The containers that run for each plugin, the one that is recorded as its process, and how many
were started so far. -/
structure SupervisedContainers where
  world : SupervisorWorld := {}
  running : PluginIdentity → List ℕ := fun _ => []
  recorded : PluginIdentity → Option ℕ := fun _ => none
  started : ℕ := 0

/-- What the supervisor does, or the end of a container. A container lingers that a failed launch
started, or that could not be stopped. -/
inductive ContainerAction where
  | supervised (action : SupervisorAction) (lingers : Bool)
  | ended (identity : PluginIdentity) (container : ℕ)

namespace SupervisedContainers

variable (s : SupervisedContainers)

def start (identity : PluginIdentity) : SupervisedContainers :=
  { s with
    running := Function.update s.running identity (s.running identity ++ [s.started])
    started := s.started + 1 }

def record (identity : PluginIdentity) (container : Option ℕ) : SupervisedContainers :=
  { s with recorded := Function.update s.recorded identity container }

/-- Take away the containers of a plugin that are not kept. -/
def keep (identity : PluginIdentity) (kept : ℕ → Bool) : SupervisedContainers :=
  { s with running := Function.update s.running identity ((s.running identity).filter kept) }

variable {s} {identity other : PluginIdentity}

@[simp] theorem running_start_self :
    (s.start identity).running identity = s.running identity ++ [s.started] :=
  Function.update_self _ _ _

theorem running_start_of_ne (h : other ≠ identity) :
    (s.start identity).running other = s.running other :=
  Function.update_of_ne h _ _

@[simp] theorem recorded_record_self (container : Option ℕ) :
    (s.record identity container).recorded identity = container :=
  Function.update_self _ _ _

theorem recorded_record_of_ne (container : Option ℕ) (h : other ≠ identity) :
    (s.record identity container).recorded other = s.recorded other :=
  Function.update_of_ne h _ _

@[simp] theorem running_record (container : Option ℕ) :
    (s.record identity container).running = s.running := rfl

@[simp] theorem running_keep_self (kept : ℕ → Bool) :
    (s.keep identity kept).running identity = (s.running identity).filter kept :=
  Function.update_self _ _ _

theorem running_keep_of_ne (kept : ℕ → Bool) (h : other ≠ identity) :
    (s.keep identity kept).running other = s.running other :=
  Function.update_of_ne h _ _

@[simp] theorem recorded_keep (kept : ℕ → Bool) :
    (s.keep identity kept).recorded = s.recorded := rfl

@[simp] theorem world_keep (kept : ℕ → Bool) : (s.keep identity kept).world = s.world := rfl

variable (s)

/-- What a step of the supervisor does to containers. -/
def after (lingers : Bool) : SupervisorAction → Option SupervisedContainers
  | .launch identity .initialized => some ((s.start identity).record identity (some s.started))
  | .launch identity .failed => some (if lingers then s.start identity else s)
  | .launch _ .negotiationFailed => some { s with started := s.started + 1 }
  | .exit identity =>
    if ∀ container ∈ s.recorded identity, container ∉ s.running identity then some s else none
  | .crash identity _ none => some (s.record identity none)
  | .disable identity cut =>
    let stopped := if lingers then s
      else s.keep identity fun container => some container ≠ s.recorded identity
    some (if cut = none then stopped.record identity none else stopped)
  | _ => some s

def next (policy : RestartPolicy) : ContainerAction → Option SupervisedContainers
  | .ended identity container => some (s.keep identity fun c => c ≠ container)
  | .supervised action lingers => do
    let w ← s.world.next policy action
    let s' ← s.after lingers action
    return { s' with world := w }

end SupervisedContainers

abbrev ContainerSteps (policy : RestartPolicy) (s : SupervisedContainers) (a : ContainerAction)
    (s' : SupervisedContainers) : Prop :=
  s.next policy a = some s'

/-- No launch fails once its container was started but by a wrong answer, which is seen to; and
nothing of the host's own fails where a plugin is ready, crashes or is stopped. -/
def ContainerAction.Contained : ContainerAction → Prop
  | .supervised (.launch _ .failed) lingers => lingers = false
  | .supervised (.restore _ outcome) _ => outcome = .opened
  | .supervised (.ready _ monitored) _ => monitored = true
  | .supervised (.crash _ _ cut) _ => cut = none
  | .supervised (.disable _ cut) lingers => cut = none ∧ lingers = false
  | .supervised .shutdown _ => False
  | _ => True

instance : DecidablePred ContainerAction.Contained := by
  intro a
  unfold ContainerAction.Contained
  split <;> infer_instance

/-- One container runs at most, the supervisor knows of it and watches it; and where no process is
watched, the plugin is launched when it is enabled, unless it is quarantined. -/
structure SupervisedContainers.Accounted (s : SupervisedContainers) (identity : PluginIdentity) :
    Prop where
  single : (s.running identity).length ≤ 1
  watched : ∀ container ∈ s.running identity, s.recorded identity = some container ∧
    (s.world.plugin identity).process = true ∧
    (s.world.plugin identity).monitored = some (s.world.plugin identity).generation
  relaunched : (s.world.plugin identity).status ≠ .quarantined →
    ¬ ((s.world.plugin identity).process = true ∧
      (s.world.plugin identity).monitored = some (s.world.plugin identity).generation) →
    ∀ loaded, ∃ w, s.world.enableStep identity (some loaded) = some w ∧
      (w.plugin identity).phase = .launching

namespace ManagedPlugin

/-- How a plugin stands with its containers: without one; or with one that is recorded, whether it
still runs or not, while its sessions are restored or its end is watched for. -/
inductive Attended (m : ManagedPlugin) : List ℕ → Option ℕ → Prop
  | down (hprocess : m.process = false) (hmonitored : m.monitored = none)
      (hexited : m.exited = false) (hphase : ∀ left, m.phase ≠ .restoring left) : Attended m [] none
  | up {running : List ℕ} (container : ℕ) (hprocess : m.process = true)
      (hrunning : running = [] ∨ running = [container]) (hexited : m.exited = true → running = [])
      (hphase : m.phase = .idle ∧ m.monitored = some m.generation ∨
        ∃ left, m.phase = .restoring left) : Attended m running (some container)

variable {m m' : ManagedPlugin} {running : List ℕ} {recorded : Option ℕ}

theorem attended_fresh : Attended {} [] none := .down rfl rfl rfl nofun

theorem Attended.congr (h : m.Attended running recorded) (hprocess : m'.process = m.process)
    (hmonitored : m'.monitored = m.monitored) (hexited : m'.exited = m.exited)
    (hphase : m'.phase = m.phase) (hgeneration : m'.generation = m.generation) :
    m'.Attended running recorded := by
  cases h with
  | down hp hm he hph =>
    exact .down (hprocess.trans hp) (hmonitored.trans hm) (hexited.trans he)
      (fun left => hphase ▸ hph left)
  | up container hp hr he hph =>
    refine .up container (hprocess.trans hp) hr (fun h => he (hexited ▸ h)) ?_
    rw [hphase, hmonitored, hgeneration]
    exact hph

/-- A plugin that is being launched, or waits to be, is without a container. -/
theorem Attended.of_launching (h : m.Attended running recorded)
    (hphase : m.phase = .launching ∨ m.phase = .restarting) :
    m.process = false ∧ m.monitored = none ∧ m.exited = false ∧ running = [] ∧ recorded = none := by
  cases h with
  | down hp hm he _ => exact ⟨hp, hm, he, rfl, rfl⟩
  | up container _ _ _ hph =>
    rcases hph with ⟨hidle, _⟩ | ⟨left, hleft⟩
    · rcases hphase with h | h <;> rw [hidle] at h <;> cases h
    · rcases hphase with h | h <;> rw [hleft] at h <;> cases h

theorem Attended.of_process (h : m.Attended running recorded) (hprocess : m.process = false) :
    m.monitored = none ∧ m.exited = false ∧ (∀ left, m.phase ≠ .restoring left) ∧
      running = [] ∧ recorded = none := by
  cases h with
  | down _ hm he hph => exact ⟨hm, he, hph, rfl, rfl⟩
  | up _ hp _ _ _ =>
    rw [hprocess] at hp
    cases hp

theorem Attended.keep (h : m.Attended running recorded) (kept : ℕ → Bool) :
    m.Attended (running.filter kept) recorded := by
  cases h with
  | down hp hm he hph => exact .down hp hm he hph
  | up container hp hr he hph =>
    refine .up container hp ?_ (fun h => by rw [he h, List.filter_nil]) hph
    rcases hr with rfl | rfl
    · exact .inl rfl
    · cases hk : kept container with
      | true => exact .inr (by simp [hk])
      | false => exact .inl (by simp [hk])

theorem putSession_eq (m : ManagedPlugin) (binding : SessionBinding) :
    ∃ sessions, m.putSession binding = { m with sessions := sessions } := by
  unfold putSession
  split_ifs
  · exact ⟨_, rfl⟩
  · exact ⟨_, rfl⟩

theorem loadPersistedSessions_eq (identity : PluginIdentity) (loaded : List RestoredSession)
    (m : ManagedPlugin) :
    ∃ sessions, loadPersistedSessions identity loaded m = { m with sessions := sessions } := by
  induction loaded generalizing m with
  | nil => exact ⟨m.sessions, rfl⟩
  | cons item loaded ih =>
    unfold loadPersistedSessions
    split_ifs
    · exact ih m
    · exact ih _

end ManagedPlugin

namespace SupervisorWorld

variable {w w' : SupervisorWorld} {identity other : PluginIdentity} {m : ManagedPlugin}

theorem plugin_of_some (h : w.plugins identity = some m) : w.plugin identity = m := by
  simp [plugin, h]

@[simp] theorem plugins_setScope (binding : SessionBinding) (active : Bool) :
    (w.setScope binding active).plugins = w.plugins := rfl

@[simp] theorem plugins_invalidateScopes (bindings : List SessionBinding) :
    (w.invalidateScopes bindings).plugins = w.plugins := by
  induction bindings generalizing w with
  | nil => rfl
  | cons binding bindings ih => exact (ih (w := w.setScope binding false)).trans rfl

/-- A step makes one plugin another one and leaves the others alone. -/
def Turns (w w' : SupervisorWorld) (identity : PluginIdentity) (m : ManagedPlugin) : Prop :=
  w'.plugins = Function.update w.plugins identity (some m)

theorem Turns.self (h : w.Turns w' identity m) : w'.plugin identity = m := by
  rw [plugin, h, Function.update_self, Option.getD_some]

theorem Turns.others (h : w.Turns w' identity m) (hne : other ≠ identity) :
    w'.plugin other = w.plugin other := by
  rw [plugin, h, Function.update_of_ne hne, plugin]

theorem turns_setPlugin : w.Turns (w.setPlugin identity m) identity m := rfl

theorem turns_invalidateScopes {bindings : List SessionBinding} :
    w.Turns ((w.invalidateScopes bindings).setPlugin identity m) identity m := by
  rw [Turns, setPlugin, plugins_invalidateScopes]

theorem turns_refl (hsome : w.plugins identity = some m) : w.Turns w identity m := by
  rw [Turns, ← hsome, Function.update_eq_self]

variable (w identity m) in
/-- A session that is opened, as far as it is, only changes the sessions of the plugin. -/
theorem turns_openBinding (binding : SessionBinding) (outcome : OpenOutcome) :
    ∃ sessions, w.Turns (w.openBinding identity m binding outcome) identity
      { m with sessions := sessions } := by
  obtain ⟨sessions, hput⟩ := m.putSession_eq binding
  cases outcome with
  | opened => exact ⟨sessions, hput ▸ rfl⟩
  | persistFailed => exact ⟨sessions, hput ▸ rfl⟩
  | scopeFailed => exact ⟨m.sessions, rfl⟩
  | requestFailed => exact ⟨m.sessions, rfl⟩

variable (w identity m) in
theorem turns_acknowledge (binding : SessionBinding) (sequence : ℤ) :
    ∃ sessions, w.Turns (w.acknowledge identity m binding sequence) identity
      { m with sessions := sessions } := by
  obtain ⟨sessions, hput⟩ := m.putSession_eq { binding with lastAcknowledgedSequence := sequence }
  exact ⟨sessions, hput ▸ rfl⟩

end SupervisorWorld

end Plugins
end Matinier
