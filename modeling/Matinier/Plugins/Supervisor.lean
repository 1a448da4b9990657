import Mathlib.Data.Int.Order.Basic
import Matinier.Foundation.Machine
import Matinier.Plugins.Permissions

/-!
# The plugin supervisor

Each plugin has one process at most, and a generation that counts its processes. Media sessions
are open with a process under a scope token of its generation; a new process has them opened
again, one after the other, each from the sequence that was acknowledged last. What is done to a
plugin is done under its lock: a launch is taken apart into steps here, between which the lock is
kept but scopes may be validated. Any request to a plugin, and any sink of the host, may raise.
-/

namespace Matinier
namespace Plugins

open Assistant

structure PluginIdentity where
  pluginId : String
  version : String
  deriving DecidableEq, Repr

/-- A scope of a session: drawn for it, or what stands for one until it is restored. -/
inductive ScopeToken where
  | pendingRestore
  | issued (n : ℕ)
  deriving DecidableEq, Repr

structure SessionBinding where
  identity : PluginIdentity
  mediaSessionId : MediaSessionId
  scope : ScopeToken
  generation : ℕ
  lastAcknowledgedSequence : ℤ := 0
  deriving DecidableEq

structure RestoredSession where
  mediaSessionId : MediaSessionId
  lastAcknowledgedSequence : ℤ := 0

inductive SupervisedStatus where
  | disabled
  | starting
  | incompatible
  | ready
  | degraded
  | crashed
  | quarantined
  deriving DecidableEq, Repr

/-- What the holder of a plugin's lock is about; a restore has sessions left. -/
inductive LaunchPhase where
  | idle
  | launching
  | restoring (left : List SessionBinding)
  | restarting
  deriving DecidableEq

/-- A supervised plugin; it has a process and a peer or not. A monitor waits for the end of a
generation's process, or has seen it and waits for the lock. -/
structure ManagedPlugin where
  process : Bool := false
  peer : Bool := false
  status : SupervisedStatus := .disabled
  generation : ℕ := 0
  desiredEnabled : Bool := true
  sessions : List SessionBinding := []
  crashTimes : List Instant := []
  monitored : Option ℕ := none
  exited : Bool := false
  phase : LaunchPhase := .idle

structure RestartPolicy where
  maxRestarts : ℕ := 5
  windowSeconds : ℕ := 60

structure SupervisorWorld where
  plugins : PluginIdentity → Option ManagedPlugin := fun _ => none
  scopeIndex : ScopeToken → Option SessionBinding := fun _ => none
  /-- Every binding a scope was drawn for, in order. -/
  issued : List SessionBinding := []
  shuttingDown : Bool := false

def SupervisedStatus.Serves (status : SupervisedStatus) : Prop :=
  status = .ready ∨ status = .degraded

instance (status : SupervisedStatus) : Decidable status.Serves :=
  inferInstanceAs (Decidable (_ ∨ _))

namespace ManagedPlugin

variable (m : ManagedPlugin)

def getSession (media : MediaSessionId) : Option SessionBinding :=
  m.sessions.find? fun b => b.mediaSessionId = media

/-- Store the binding of a media session over its old one, or as the last one. -/
def putSession (binding : SessionBinding) : ManagedPlugin :=
  if m.sessions.any (fun b => b.mediaSessionId = binding.mediaSessionId) then
    { m with sessions := m.sessions.map fun b =>
        if b.mediaSessionId = binding.mediaSessionId then binding else b }
  else { m with sessions := m.sessions ++ [binding] }

end ManagedPlugin

def RestoredSession.binding (item : RestoredSession) (identity : PluginIdentity) :
    SessionBinding where
  identity := identity
  mediaSessionId := item.mediaSessionId
  scope := .pendingRestore
  generation := 0
  lastAcknowledgedSequence := item.lastAcknowledgedSequence

/-- Take in the sessions a plugin had open when the host last ran. -/
def ManagedPlugin.loadPersistedSessions (identity : PluginIdentity) :
    List RestoredSession → ManagedPlugin → ManagedPlugin
  | [], m => m
  | item :: loaded, m =>
    if (m.getSession item.mediaSessionId).isSome then loadPersistedSessions identity loaded m
    else
      loadPersistedSessions identity loaded
        { m with sessions := m.sessions ++ [item.binding identity] }

/-- How far the opening of a session gets: it is opened; or its scope is refused by the host, the
request fails, or the binding is not stored. -/
inductive OpenOutcome where
  | opened
  | scopeFailed
  | requestFailed
  | persistFailed
  deriving DecidableEq, Repr

/-- How far a launch gets before its sessions are restored. -/
inductive LaunchOutcome where
  | hostIncompatible
  | failed
  | negotiationFailed
  | initialized

/-- What may happen to a supervised plugin. Where a `cut` is given the host raises, after it has
withdrawn that many scopes. -/
inductive SupervisorAction where
  | enable (identity : PluginIdentity) (loaded : Option (List RestoredSession))
  | launch (identity : PluginIdentity) (outcome : LaunchOutcome)
  | restore (identity : PluginIdentity) (outcome : OpenOutcome)
  | ready (identity : PluginIdentity) (monitored : Bool)
  | openSession (identity : PluginIdentity) (media : MediaSessionId) (lastAcknowledged : ℤ)
      (outcome : OpenOutcome)
  | deliverEvents (identity : PluginIdentity) (media : MediaSessionId) (sequences : List ℤ)
      (acknowledged : Option ℤ)
  | acknowledgeThrough (identity : PluginIdentity) (media : MediaSessionId) (sequence : ℤ)
  | heartbeat (identity : PluginIdentity) (generation : ℕ) (answered : Bool)
  | exit (identity : PluginIdentity)
  | crash (identity : PluginIdentity) (now : Instant) (cut : Option ℕ)
  | restart (identity : PluginIdentity)
  | disable (identity : PluginIdentity) (cut : Option ℕ)
  | shutdown

namespace SupervisorWorld

variable (w : SupervisorWorld)

def plugin (identity : PluginIdentity) : ManagedPlugin := (w.plugins identity).getD {}

def setPlugin (identity : PluginIdentity) (m : ManagedPlugin) : SupervisorWorld :=
  { w with plugins := Function.update w.plugins identity (some m) }

def setScope (binding : SessionBinding) (active : Bool) : SupervisorWorld :=
  { w with scopeIndex :=
      Function.update w.scopeIndex binding.scope (if active then some binding else none) }

def invalidateScopes (bindings : List SessionBinding) : SupervisorWorld :=
  bindings.foldl (fun w binding => w.setScope binding false) w

/-- A binding of the plugin's generation, under a scope that is drawn for it. -/
def newBinding (identity : PluginIdentity) (m : ManagedPlugin) (media : MediaSessionId)
    (lastAcknowledged : ℤ) : SessionBinding where
  identity := identity
  mediaSessionId := media
  scope := .issued w.issued.length
  generation := m.generation
  lastAcknowledgedSequence := lastAcknowledged

/-- Open a session under a new binding, as far as it gets. -/
def openBinding (identity : PluginIdentity) (m : ManagedPlugin) (binding : SessionBinding)
    (outcome : OpenOutcome) : SupervisorWorld :=
  let drawn := { w with issued := w.issued ++ [binding] }
  match outcome with
  | .opened | .persistFailed =>
    (drawn.setScope binding true).setPlugin identity (m.putSession binding)
  | .scopeFailed => (drawn.setScope binding true).setPlugin identity m
  | .requestFailed =>
    ((drawn.setScope binding true).setScope binding false).setPlugin identity m

def acknowledge (identity : PluginIdentity) (m : ManagedPlugin) (binding : SessionBinding)
    (sequence : ℤ) : SupervisorWorld :=
  let updated := { binding with lastAcknowledgedSequence := sequence }
  (w.setPlugin identity (m.putSession updated)).setScope updated true

def enableStep (identity : PluginIdentity) (loaded : Option (List RestoredSession)) :
    Option SupervisorWorld :=
  let m := w.plugin identity
  if m.phase = .idle then
    let enabled := { m with desiredEnabled := true }
    if m.process = false ∧ m.status ≠ .quarantined then
      if m.generation = 0 ∧ m.sessions = [] then
        match loaded with
        | none => some (w.setPlugin identity enabled)
        | some loaded => some (w.setPlugin identity
            { ManagedPlugin.loadPersistedSessions identity loaded enabled with
              phase := .launching })
      else some (w.setPlugin identity { enabled with phase := .launching })
    else some (w.setPlugin identity enabled)
  else none

def launchStep (identity : PluginIdentity) (outcome : LaunchOutcome) : Option SupervisorWorld := do
  let m ← w.plugins identity
  if m.phase = .launching then
    match outcome with
    | .hostIncompatible | .negotiationFailed =>
      some (w.setPlugin identity { m with status := .incompatible, phase := .idle })
    | .failed => some (w.setPlugin identity { m with status := .starting, phase := .idle })
    | .initialized => some (w.setPlugin identity { m with
        process := true
        peer := true
        status := .starting
        generation := m.generation + 1
        sessions := []
        phase := .restoring m.sessions })
  else none

/-- Open the next session of a restore again; where that fails, the launch is given up. -/
def restoreStep (identity : PluginIdentity) (outcome : OpenOutcome) : Option SupervisorWorld := do
  let m ← w.plugins identity
  match m.phase with
  | .restoring (previous :: left) =>
    let binding :=
      w.newBinding identity m previous.mediaSessionId previous.lastAcknowledgedSequence
    let phase := if outcome = .opened then .restoring left else .idle
    some (w.openBinding identity { m with phase := phase } binding outcome)
  | _ => none

def readyStep (identity : PluginIdentity) (monitored : Bool) : Option SupervisorWorld := do
  let m ← w.plugins identity
  if m.phase = .restoring [] then
    some (w.setPlugin identity { m with
      status := .ready
      monitored := if monitored then some m.generation else none
      exited := false
      phase := .idle })
  else none

def openStep (identity : PluginIdentity) (media : MediaSessionId) (lastAcknowledged : ℤ)
    (outcome : OpenOutcome) : Option SupervisorWorld := do
  let m ← w.plugins identity
  if m.phase = .idle ∧ m.status.Serves ∧ m.peer = true then
    if (m.getSession media).any (fun b => b.generation = m.generation) then some w
    else
      some (w.openBinding identity m (w.newBinding identity m media lastAcknowledged) outcome)
  else none

def deliverStep (identity : PluginIdentity) (media : MediaSessionId) (sequences : List ℤ)
    (acknowledged : Option ℤ) : Option SupervisorWorld := do
  let m ← w.plugins identity
  if m.phase = .idle ∧ m.peer = true ∧ m.status.Serves then
    let binding ← m.getSession media
    match sequences.max?, acknowledged with
    | some maximum, some acknowledged =>
      if binding.lastAcknowledgedSequence ≤ acknowledged ∧ acknowledged ≤ maximum then
        some (w.acknowledge identity m binding acknowledged)
      else some w
    | _, _ => some w
  else none

def acknowledgeStep (identity : PluginIdentity) (media : MediaSessionId) (sequence : ℤ) :
    Option SupervisorWorld := do
  let m ← w.plugins identity
  if m.phase = .idle then
    let binding ← m.getSession media
    if sequence < binding.lastAcknowledgedSequence then some w
    else some (w.acknowledge identity m binding sequence)
  else none

def heartbeatStep (identity : PluginIdentity) (generation : ℕ) (answered : Bool) :
    Option SupervisorWorld := do
  let m ← w.plugins identity
  if m.phase = .idle ∧ m.generation = generation ∧ m.peer = true then
    some (w.setPlugin identity { m with status := if answered then .ready else .degraded })
  else none

/-- The monitor of a plugin sees its process end, and no reason to leave it at that. -/
def exitStep (identity : PluginIdentity) : Option SupervisorWorld := do
  let m ← w.plugins identity
  if w.shuttingDown = false ∧ m.desiredEnabled = true ∧ m.monitored.isSome then
    some (w.setPlugin identity { m with exited := true })
  else none

/-- A process that has ended loses its authority, and the plugin is restarted unless that has
happened too often. -/
def crashStep (policy : RestartPolicy) (identity : PluginIdentity) (now : Instant)
    (cut : Option ℕ) : Option SupervisorWorld := do
  let m ← w.plugins identity
  if m.phase = .idle ∧ m.exited = true ∧ m.process = true ∧
      m.monitored = some m.generation then
    match cut with
    | some k => some ((w.invalidateScopes (m.sessions.take k)).setPlugin identity
        { m with status := .crashed, monitored := none, exited := false })
    | none =>
      let crashTimes := m.crashTimes.dropWhile (fun t => t + policy.windowSeconds < now) ++ [now]
      let crashed := { m with
        process := false
        peer := false
        monitored := none
        exited := false
        crashTimes := crashTimes }
      let quarantined := policy.maxRestarts < crashTimes.length
      let stopped := { crashed with
        status := if quarantined then .quarantined else .crashed
        phase := if quarantined then .idle else .restarting }
      some ((w.invalidateScopes m.sessions).setPlugin identity stopped)
  else none

def restartStep (identity : PluginIdentity) : Option SupervisorWorld := do
  let m ← w.plugins identity
  if m.phase = .restarting then
    let phase := if m.desiredEnabled = true ∧ w.shuttingDown = false then .launching else .idle
    some (w.setPlugin identity { m with phase := phase })
  else none

/-- Close the sessions with the plugin's process and stop it; they are not forgotten. -/
def disableStep (identity : PluginIdentity) (cut : Option ℕ) : Option SupervisorWorld := do
  let m ← w.plugins identity
  if m.phase = .idle then
    match cut with
    | some k => some ((w.invalidateScopes (m.sessions.take k)).setPlugin identity
        { m with desiredEnabled := false })
    | none => some ((w.invalidateScopes m.sessions).setPlugin identity { m with
        desiredEnabled := false
        process := false
        peer := false
        status := .disabled
        monitored := none
        exited := false })
  else none

def next (policy : RestartPolicy) : SupervisorAction → Option SupervisorWorld
  | .enable identity loaded => w.enableStep identity loaded
  | .launch identity outcome => w.launchStep identity outcome
  | .restore identity outcome => w.restoreStep identity outcome
  | .ready identity monitored => w.readyStep identity monitored
  | .openSession identity media lastAcknowledged outcome =>
    w.openStep identity media lastAcknowledged outcome
  | .deliverEvents identity media sequences acknowledged =>
    w.deliverStep identity media sequences acknowledged
  | .acknowledgeThrough identity media sequence => w.acknowledgeStep identity media sequence
  | .heartbeat identity generation answered => w.heartbeatStep identity generation answered
  | .exit identity => w.exitStep identity
  | .crash identity now cut => w.crashStep policy identity now cut
  | .restart identity => w.restartStep identity
  | .disable identity cut => w.disableStep identity cut
  | .shutdown => some { w with shuttingDown := true }

end SupervisorWorld

end Plugins
end Matinier
