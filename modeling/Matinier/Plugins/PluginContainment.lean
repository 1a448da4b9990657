import Matinier.Plugins.DeliveryProgress
import Matinier.Plugins.PluginHost

/-!
# One plugin among others

What a plugin makes the host raise ends the loop over the plugins: at a start whatever it is, and
where a session is resolved anything but a `RuntimeError`. A plugin leaves the others alone exactly
where it makes the host raise nothing of that.
-/

namespace Matinier
namespace Plugins

/-- The sessions a launch opens again. -/
def PluginSlot.sessionsToRestore (slot : PluginSlot) : ℕ :=
  if slot.generation = 0 ∧ slot.sessions.isEmpty then slot.rows.length else slot.sessions.length

/-- A plugin can be enabled: its manifest is one and its settings are the old ones; and it runs or
is in quarantine, or it is for this host, its container starts, its process says that it is the
plugin, and each session is opened again. -/
def EnableFine (identity : PluginIdentity) (package : PluginPackage) (answers : LaunchAnswers)
    (slot : PluginSlot) : Prop :=
  ∃ spec, package.containerSpec = .ok spec ∧ (∀ old ∈ slot.spec, old = spec) ∧
    (slot.running = true ∨ slot.status = .quarantined ∨
      hostApiCompatible spec.hostApi = true ∧ answers.start = none ∧
        (∃ value, answers.initialized = .result value ∧ negotiated identity value = true) ∧
        ∀ n < slot.sessionsToRestore, ∃ value, answers.openSession n = .result value)

theorem restoreSessions_none_iff (answers : LaunchAnswers) (n : ℕ)
    (left : List SupervisedSession) (slot : PluginSlot) :
    (restoreSessions answers n left slot).2 = none ↔
      ∀ k < left.length, ∃ value, answers.openSession (n + k) = .result value := by
  induction left generalizing n slot with
  | nil => simp [restoreSessions]
  | cons previous left ih =>
    rw [restoreSessions]
    cases hanswer : answers.openSession n with
    | raised e =>
      simp only [reduceCtorEq, List.length_cons, false_iff, not_forall]
      exact ⟨0, Nat.succ_pos _, by simp [hanswer]⟩
    | result value =>
      simp only [ih, List.length_cons]
      constructor
      · intro h k hk
        cases k with
        | zero => exact ⟨value, hanswer⟩
        | succ k =>
          obtain ⟨value', hvalue'⟩ := h k (Nat.lt_of_succ_lt_succ hk)
          exact ⟨value', by rw [← hvalue']; congr 1; omega⟩
      · intro h k hk
        obtain ⟨value', hvalue'⟩ := h (k + 1) (Nat.succ_lt_succ hk)
        exact ⟨value', by rw [← hvalue']; congr 1; omega⟩

theorem launch_none_iff {slot : PluginSlot} {identity : PluginIdentity}
    {spec : PluginContainerSpec} {answers : LaunchAnswers} :
    (slot.launch identity spec answers).2 = none ↔
      hostApiCompatible spec.hostApi = true ∧ answers.start = none ∧
        (∃ value, answers.initialized = .result value ∧ negotiated identity value = true) ∧
        ∀ n < slot.sessions.length, ∃ value, answers.openSession n = .result value := by
  unfold PluginSlot.launch
  cases hcompatible : hostApiCompatible spec.hostApi with
  | false => simp
  | true =>
    simp only [Bool.true_eq_false, if_false, true_and]
    cases hstart : answers.start with
    | some e => simp
    | none =>
      cases hinitialized : answers.initialized with
      | raised e => simp
      | result value =>
        simp only [true_and, Reply.result.injEq, exists_eq_left']
        cases hnegotiated : negotiated identity value with
        | false =>
          simp only [Bool.false_eq_true, if_false, false_and, iff_false]
          cases answers.stop <;> simp
        | true =>
          simp only [if_true, true_and]
          have hrestore := restoreSessions_none_iff answers 0 slot.sessions { slot with
            status := .starting
            scopes := []
            running := true
            generation := slot.generation + 1
            sessions := [] }
          simp only [Nat.zero_add] at hrestore
          rw [← hrestore]
          split
          · rename_i hpair
            simp [hpair]
          · rename_i hpair
            simp [hpair]

theorem enable_none_iff {slot : PluginSlot} {identity : PluginIdentity} {package : PluginPackage}
    {answers : LaunchAnswers} :
    (slot.enable identity package answers).2 = none ↔
      EnableFine identity package answers slot := by
  unfold PluginSlot.enable EnableFine
  cases hspec : package.containerSpec with
  | error e => simp
  | ok spec =>
    simp only [Except.ok.injEq, exists_eq_left']
    by_cases hold : ∀ old ∈ slot.spec, old = spec
    · have hsame : (slot.spec.any fun old => decide (old ≠ spec)) = false := by
        simpa [Option.any_eq_false] using hold
      rw [hsame]
      simp only [Bool.false_eq_true, if_false]
      by_cases hup : slot.running = true ∨ slot.status = .quarantined
      · rw [if_pos hup]
        simp only [true_iff]
        exact ⟨hold, hup.imp id Or.inl⟩
      · rw [if_neg hup]
        rw [not_or] at hup
        simp only [hup.1, hup.2, Bool.false_eq_true, false_or, and_iff_right hold]
        unfold PluginSlot.sessionsToRestore
        split_ifs with hfresh
        · rw [launch_none_iff]
          simp only [PluginSlot.loadPersistedSessions, List.length_map]
        · rw [launch_none_iff]
    · have hother : (slot.spec.any fun old => decide (old ≠ spec)) = true := by
        simpa [Option.any_eq_true] using hold
      rw [hother, if_pos rfl]
      simp only [reduceCtorEq, hold, false_and]

/-- The request with a batch cannot be sent for its line only, or it is answered with a sequence
that may be acknowledged, or with a `RuntimeError`. -/
def SentFine (r : Round) (b : EventBinding) (session : OpenSession) (events : List MediaEvent) :
    Prop :=
  match sendError (batchMessage r.requestId b.mediaSessionId session.scope events) with
  | some e => e = .runtime
  | none =>
    match r.respond events with
    | .raised e => e = .runtime
    | .result value => ∃ a, acknowledgement? value = some a ∧
        session.lastAcknowledgedSequence ≤ a ∧ ∀ m ∈ (events.map fun e => e.sequence).max?, a ≤ m

/-- A batch raises a `RuntimeError` at most: the plugin is not ready, or its session is open and
it is sent the events fine, or none of the window is for it and the supervisor is not ahead. -/
def BatchFine (r : Round) (b : EventBinding) (events : List MediaEvent) (through : ℤ) : Prop :=
  if events = [] then ∃ session, b.session = some session ∧
    session.lastAcknowledgedSequence ≤ through
  else r.ready = true → ∃ session, b.session = some session ∧ SentFine r b session events

theorem answerBatch_fine_iff {r : Round} {b : EventBinding} {events : List MediaEvent}
    {through : ℤ} :
    (∀ e, b.answerBatch r events through = .error e → e = .runtime) ↔
      BatchFine r b events through := by
  unfold EventBinding.answerBatch BatchFine
  by_cases hnil : events = []
  · subst hnil
    simp only [List.isEmpty_nil, if_true, EventBinding.acknowledgeThrough]
    cases hsession : b.session with
    | none => simp [require, bind, Except.bind]
    | some session =>
      by_cases hle : session.lastAcknowledgedSequence ≤ through <;>
        simp [require, ensure, bind, Except.bind, pure, Except.pure, hle]
  · obtain ⟨maximum, hmaximum⟩ : ∃ m, (events.map fun e => e.sequence).max? = some m := by
      apply Option.ne_none_iff_exists'.mp
      simpa using hnil
    rw [if_neg (by simpa using hnil), if_neg hnil]
    unfold EventBinding.deliverEvents SentFine
    cases hready : r.ready with
    | false => simp [ensure, bind, Except.bind]
    | true =>
      cases hsession : b.session with
      | none => simp [require, ensure, bind, Except.bind]
      | some session =>
        simp only [ensure, require, bind, Except.bind, if_true, hmaximum, true_imp_iff,
          Option.some.injEq, exists_eq_left', Option.mem_def, forall_eq']
        cases hsend : sendError
            (batchMessage r.requestId b.mediaSessionId session.scope events) with
        | some e =>
          simp only [throw, throwThe, MonadExceptOf.throw, Except.error.injEq, forall_eq']
        | none =>
          cases hrespond : r.respond events with
          | raised e =>
            simp only [throw, throwThe, MonadExceptOf.throw, Except.error.injEq, forall_eq']
          | result value =>
            cases hack : acknowledgement? value with
            | none => simp [hack]
            | some a =>
              by_cases hrange : session.lastAcknowledgedSequence ≤ a ∧ a ≤ maximum <;>
                simp [hack, hrange, pure, Except.pure]

/-- Every batch of a pass raises a `RuntimeError` at most. -/
def PassFine (cfg : DeliveryConfig) : List Round → ℤ → EventBinding → Prop
  | [], _, _ => True
  | r :: rounds, cursor, b =>
    (∀ lastRaw ∈ (r.log.listEventsAfter cursor cfg.batchSize).getLast?,
      BatchFine r b ((r.log.listEventsAfter cursor cfg.batchSize).filter
        fun e => e.eventType ∈ cfg.subscriptions)
        (EventBinding.deliveredThrough cfg (r.log.listEventsAfter cursor cfg.batchSize) lastRaw)) ∧
    ∀ b' cursor', b.deliverBatch cfg r cursor = (b', .ok (some cursor')) →
      PassFine cfg rounds cursor' b'

theorem BatchFine.congr {r : Round} {b b' : EventBinding} {events : List MediaEvent} {through : ℤ}
    (hid : b'.mediaSessionId = b.mediaSessionId) (hsession : b'.session = b.session) :
    BatchFine r b' events through ↔ BatchFine r b events through := by
  unfold BatchFine SentFine
  rw [hid, hsession]

theorem deliverBatch_fine_iff {cfg : DeliveryConfig} {r : Round} {b : EventBinding} {cursor : ℤ} :
    (∀ e, (b.deliverBatch cfg r cursor).2 = .error e → e = .runtime) ↔
      ∀ lastRaw ∈ (r.log.listEventsAfter cursor cfg.batchSize).getLast?,
        BatchFine r b ((r.log.listEventsAfter cursor cfg.batchSize).filter
          fun e => e.eventType ∈ cfg.subscriptions)
          (EventBinding.deliveredThrough cfg (r.log.listEventsAfter cursor cfg.batchSize)
            lastRaw) := by
  rcases b.deliverBatch_cases cfg r cursor with ⟨hnil, hnone⟩ | ⟨lastRaw, hlast, h⟩
  · simp [hnil, hnone]
  · rw [hlast]
    simp only [Option.mem_def, Option.some.injEq, forall_eq']
    rw [← BatchFine.congr (EventBinding.advanceDelivery_mediaSessionId b _)
      (EventBinding.advanceDelivery_session b _), ← answerBatch_fine_iff]
    rcases h with ⟨e, hanswer, hbatch⟩ | ⟨acknowledged, session, next, hanswer, hbatch⟩
    · rw [hanswer, hbatch]
      simp only [Except.error.injEq]
    · rw [hanswer, hbatch]
      simp

theorem deliverEventBatches_fine_iff {cfg : DeliveryConfig} {rounds : List Round} {cursor : ℤ}
    {b : EventBinding} :
    (∀ e, (b.deliverEventBatches cfg rounds cursor).2 = some e → e = .runtime) ↔
      PassFine cfg rounds cursor b := by
  induction rounds generalizing cursor b with
  | nil => simp [EventBinding.deliverEventBatches, PassFine]
  | cons r rounds ih =>
    rw [EventBinding.deliverEventBatches, PassFine, ← deliverBatch_fine_iff]
    split
    · rename_i b' e hpair
      simp [hpair]
    · rename_i b' hpair
      simp [hpair]
    · rename_i b' cursor' hpair
      rw [ih]
      simp [hpair]

theorem batchSize_pos (batchSize : { n : ℕ // 0 < n }) : 0 < batchSize.1 := batchSize.2

/-- What is pending of a media session with a scope is delivered fine: it has a row, the package
has a manifest, and the pass raises a `RuntimeError` at most. -/
def DeliverFine (batchSize : { n : ℕ // 0 < n }) (package : PluginPackage)
    (mediaSessionId : String) (rounds : List Round) (slot : PluginSlot) : Prop :=
  (slot.scopes.any fun entry => entry.2 = mediaSessionId) = true →
    ∃ row manifest, slot.row? mediaSessionId = some row ∧ package.manifest = some manifest ∧
      PassFine ⟨batchSize.1, batchSize_pos batchSize, manifest.subscriptions⟩ rounds
        row.lastAcknowledgedSequence (slot.eventBinding row)

/-- A session is opened fine: the plugin does not run, or the request to open the session, if one
is sent, raises a `RuntimeError` at most, and where it does not what is pending is delivered
fine. -/
def OpenFine (batchSize : { n : ℕ // 0 < n }) (package : PluginPackage) (mediaSessionId : String)
    (answers : OpenAnswers) (slot : PluginSlot) : Prop :=
  slot.status.Serves → slot.running = true →
    if (slot.session? mediaSessionId).any (fun s => s.generation = slot.generation) then
      DeliverFine batchSize package mediaSessionId answers.rounds slot
    else match answers.openSession with
      | .raised e => e = .runtime
      | .result _ => DeliverFine batchSize package mediaSessionId answers.rounds
        (((slot.addScope answers.scope mediaSessionId).putSession
          ⟨mediaSessionId, ⟨answers.scope, 0⟩, slot.generation⟩).bindSession mediaSessionId)

theorem deliverPendingEvents_fine_iff {batchSize : { n : ℕ // 0 < n }} {package : PluginPackage}
    {mediaSessionId : String} {rounds : List Round} {slot : PluginSlot} :
    (∀ e, (slot.deliverPendingEvents batchSize package mediaSessionId rounds).2 = some e →
      e = .runtime) ↔ DeliverFine batchSize package mediaSessionId rounds slot := by
  unfold PluginSlot.deliverPendingEvents DeliverFine
  split_ifs with hscope
  · cases hrow : slot.row? mediaSessionId with
    | none => simp [hscope]
    | some row =>
      cases hmanifest : package.manifest with
      | none => simp [hscope]
      | some manifest =>
        simp only [hscope, true_imp_iff, Option.some.injEq, exists_and_left, exists_eq_left',
          deliverEventBatches_fine_iff]
  · simp [hscope]

theorem openAndDeliver_fine_iff {batchSize : { n : ℕ // 0 < n }} {package : PluginPackage}
    {mediaSessionId : String} {answers : OpenAnswers} {slot : PluginSlot} :
    (∀ e, (slot.openAndDeliver batchSize package mediaSessionId answers).2 = some e →
      e = .runtime) ↔ OpenFine batchSize package mediaSessionId answers slot := by
  unfold PluginSlot.openAndDeliver PluginSlot.openSession OpenFine
  by_cases hdown : ¬ slot.status.Serves ∨ slot.running = false
  · rw [if_pos hdown]
    constructor
    · intro _ hserves hrunning
      rcases hdown with hnot | hnot
      · exact absurd hserves hnot
      · exact absurd (hrunning.symm.trans hnot) (by simp)
    · intro _ e he
      exact (Option.some.inj he).symm
  · rw [if_neg hdown]
    rw [not_or, not_not, Bool.not_eq_false] at hdown
    simp only [hdown.1, hdown.2, true_imp_iff]
    split_ifs with hopen
    · exact deliverPendingEvents_fine_iff
    · cases answers.openSession with
      | raised e => simp
      | result value => exact deliverPendingEvents_fine_iff

namespace PluginHost

variable {h : PluginHost}

theorem enableOne_passes {answers : PluginIdentity → LaunchAnswers} {identity : PluginIdentity} :
    Passes (h.enableOne answers) (fun _ => false) h.slots identity ↔
      EnableFine identity (h.packages identity) (answers identity) (h.slots identity) := by
  rw [← enable_none_iff, Option.eq_none_iff_forall_ne_some]
  simp [Passes, enableOne]

theorem openOne_passes {mediaSessionId : String} {answers : PluginIdentity → OpenAnswers}
    {identity : PluginIdentity} :
    Passes (h.openOne mediaSessionId answers) (fun e => e = .runtime) h.slots identity ↔
      OpenFine h.batchSize (h.packages identity) mediaSessionId (answers identity)
        (h.slots identity) := by
  rw [← openAndDeliver_fine_iff]
  simp [Passes, openOne]

theorem enabledVersions_pluginId {inst : PluginInstallation} {identity : PluginIdentity}
    (hidentity : identity ∈ h.enabledVersions inst) : identity.pluginId = inst.pluginId := by
  obtain ⟨version, -, rfl⟩ := List.mem_map.mp hidentity
  rfl

theorem enabledVersions_nodup (inst : PluginInstallation) : (h.enabledVersions inst).Nodup := by
  apply List.Nodup.map
  · intro v w hvw
    exact (PluginIdentity.mk.inj hvw).2
  · apply List.nodup_cons.mpr
    exact ⟨by simp, inst.versions_nodup.filter _⟩

theorem pairwise_pluginId {l : List PluginInstallation}
    (hl : (l.map PluginInstallation.pluginId).Nodup) :
    l.Pairwise fun a b => a.pluginId ≠ b.pluginId :=
  List.pairwise_map.mp hl

theorem enabledPlugins_nodup : h.enabledPlugins.Nodup := by
  have hpairwise := (pairwise_pluginId h.installations_nodup).filter PluginInstallation.enabled
  apply List.nodup_flatMap.mpr
  refine ⟨fun inst _ => enabledVersions_nodup inst, hpairwise.imp ?_⟩
  intro a b hab i hi hi'
  exact hab ((enabledVersions_pluginId hi).symm.trans (enabledVersions_pluginId hi'))

theorem readyPlugins_nodup {mediaSessionId : String} : (h.readyPlugins mediaSessionId).Nodup := by
  have hpairwise := (pairwise_pluginId h.installations_nodup).filter PluginInstallation.enabled
  apply List.Nodup.filter
  apply List.pairwise_map.mpr
  apply hpairwise.imp
  intro a b hab heq
  exact hab (congrArg PluginIdentity.pluginId heq)

theorem without_enabledPlugins (pluginId : String) :
    (h.without pluginId).enabledPlugins =
      h.enabledPlugins.filter fun i => i.pluginId ≠ pluginId := by
  have hversions : ∀ inst : PluginInstallation,
      (h.enabledVersions inst).filter (fun i => i.pluginId ≠ pluginId) =
        if inst.pluginId ≠ pluginId then h.enabledVersions inst else [] := by
    intro inst
    have hsame : ∀ i ∈ h.enabledVersions inst, i.pluginId = inst.pluginId :=
      fun i hi => enabledVersions_pluginId hi
    split_ifs with hplugin
    · rw [List.filter_eq_self]
      intro i hi
      simpa [hsame i hi] using hplugin
    · rw [List.filter_eq_nil_iff]
      intro i hi
      simpa [hsame i hi] using hplugin
  have hfilter : ∀ l : List PluginInstallation,
      ((l.filter fun inst => inst.pluginId ≠ pluginId).filter
          PluginInstallation.enabled).flatMap h.enabledVersions =
        (l.filter PluginInstallation.enabled).flatMap fun inst =>
          (h.enabledVersions inst).filter fun i => i.pluginId ≠ pluginId := by
    intro l
    simp only [hversions]
    induction l with
    | nil => rfl
    | cons inst l ih =>
      by_cases hplugin : inst.pluginId = pluginId <;> cases henabled : inst.enabled <;>
        simpa [hplugin, henabled] using ih
  unfold enabledPlugins
  rw [List.filter_flatMap]
  exact hfilter h.installations

theorem without_readyPlugins (pluginId mediaSessionId : String) :
    (h.without pluginId).readyPlugins mediaSessionId =
      (h.readyPlugins mediaSessionId).filter fun i => i.pluginId ≠ pluginId := by
  have hfilter : ∀ l : List PluginInstallation,
      (((l.filter fun inst => inst.pluginId ≠ pluginId).filter
          PluginInstallation.enabled).map (h.openVersion mediaSessionId)) =
        ((l.filter PluginInstallation.enabled).map (h.openVersion mediaSessionId)).filter
          fun i => i.pluginId ≠ pluginId := by
    intro l
    induction l with
    | nil => rfl
    | cons inst l ih =>
      by_cases hplugin : inst.pluginId = pluginId <;> cases henabled : inst.enabled <;>
        simpa [hplugin, henabled, openVersion] using ih
  unfold readyPlugins
  rw [List.filter_comm, ← hfilter h.installations]
  rfl

/-- At a start a plugin is contained: nothing is raised, and every other plugin is as without. -/
structure StartContained (h : PluginHost) (pluginId : String) (available : Bool)
    (launches : PluginIdentity → LaunchAnswers) : Prop where
  none_raised : (h.start available launches).2 = none
  others : ∀ i : PluginIdentity, i.pluginId ≠ pluginId →
    (h.start available launches).1 i = ((h.without pluginId).start available launches).1 i

/-- The same where a media session is resolved. -/
structure ResolveContained (h : PluginHost) (pluginId mediaSessionId : String)
    (opens : PluginIdentity → OpenAnswers) : Prop where
  none_raised : (h.resolveMediaSession mediaSessionId opens).2 = none
  others : ∀ i : PluginIdentity, i.pluginId ≠ pluginId →
    (h.resolveMediaSession mediaSessionId opens).1 i =
      ((h.without pluginId).resolveMediaSession mediaSessionId opens).1 i

/-- Every plugin but one can be enabled. -/
def OthersStart (h : PluginHost) (pluginId : String)
    (launches : PluginIdentity → LaunchAnswers) : Prop :=
  ∀ i ∈ h.enabledPlugins, i.pluginId ≠ pluginId →
    EnableFine i (h.packages i) (launches i) (h.slots i)

def OthersOpen (h : PluginHost) (pluginId mediaSessionId : String)
    (opens : PluginIdentity → OpenAnswers) : Prop :=
  ∀ i ∈ h.readyPlugins mediaSessionId, i.pluginId ≠ pluginId →
    OpenFine h.batchSize (h.packages i) mediaSessionId (opens i) (h.slots i)

theorem start_contained_iff {pluginId : String} {available : Bool}
    {launches : PluginIdentity → LaunchAnswers} (hothers : h.OthersStart pluginId launches) :
    h.StartContained pluginId available launches ↔
      (available = true → ∀ i ∈ h.enabledPlugins, i.pluginId = pluginId →
        EnableFine i (h.packages i) (launches i) (h.slots i)) := by
  cases available with
  | false =>
    constructor
    · intro _ hfalse
      cases hfalse
    · intro _
      exact ⟨rfl, fun _ _ => rfl⟩
  | true =>
    have hgood : ∀ i ∈ h.enabledPlugins, decide (i.pluginId ≠ pluginId) = true →
        Passes (h.enableOne launches) (fun _ => false) h.slots i := by
      intro i hi hne
      exact enableOne_passes.mpr (hothers i hi (of_decide_eq_true hne))
    have hcontained := onCells_contained h.enabledPlugins_nodup hgood
    rw [← without_enabledPlugins] at hcontained
    simp only [decide_eq_true_eq, decide_eq_false_iff_not, not_not,
      enableOne_passes] at hcontained
    simp only [true_imp_iff]
    rw [← hcontained]
    constructor
    · intro hc
      exact ⟨hc.none_raised, hc.others⟩
    · intro hc
      exact ⟨hc.1, hc.2⟩

theorem resolve_contained_iff {pluginId mediaSessionId : String}
    {opens : PluginIdentity → OpenAnswers} (hothers : h.OthersOpen pluginId mediaSessionId opens) :
    h.ResolveContained pluginId mediaSessionId opens ↔
      ∀ i ∈ h.readyPlugins mediaSessionId, i.pluginId = pluginId →
        OpenFine h.batchSize (h.packages i) mediaSessionId (opens i) (h.slots i) := by
  have hgood : ∀ i ∈ h.readyPlugins mediaSessionId, decide (i.pluginId ≠ pluginId) = true →
      Passes (h.openOne mediaSessionId opens) (fun e => e = .runtime) h.slots i := by
    intro i hi hne
    exact openOne_passes.mpr (hothers i hi (of_decide_eq_true hne))
  have hcontained := onCells_contained readyPlugins_nodup hgood
  rw [← without_readyPlugins] at hcontained
  simp only [decide_eq_true_eq, decide_eq_false_iff_not, not_not, openOne_passes] at hcontained
  rw [← hcontained]
  constructor
  · intro hc
    exact ⟨hc.none_raised, hc.others⟩
  · intro hc
    exact ⟨hc.1, hc.2⟩

end PluginHost

/-- One plugin leaves the host and the other plugins alone, at a start and where a session is
resolved, exactly where it can be enabled, if there are containers at all, and a session is opened
fine with it. -/
theorem plugin_contained {h : PluginHost} {pluginId mediaSessionId : String} {available : Bool}
    {launches : PluginIdentity → LaunchAnswers} {opens : PluginIdentity → OpenAnswers}
    (hlaunches : h.OthersStart pluginId launches)
    (hopens : h.OthersOpen pluginId mediaSessionId opens) :
    (h.StartContained pluginId available launches ↔
      (available = true → ∀ i ∈ h.enabledPlugins, i.pluginId = pluginId →
        EnableFine i (h.packages i) (launches i) (h.slots i))) ∧
    (h.ResolveContained pluginId mediaSessionId opens ↔
      ∀ i ∈ h.readyPlugins mediaSessionId, i.pluginId = pluginId →
        OpenFine h.batchSize (h.packages i) mediaSessionId (opens i) (h.slots i)) :=
  ⟨PluginHost.start_contained_iff hlaunches, PluginHost.resolve_contained_iff hopens⟩

def notesPackage : PluginPackage where
  imageRef := "plugin"
  manifest := some {
    hostApi := [some ⟨.caret, ⟨1, 0, 0⟩⟩]
    subscriptions := ["transcript.segment.created"] }

/-- A host with two plugins that are enabled, in the given state. -/
def twoPlugins (slot : PluginSlot) : PluginHost where
  installations :=
    [⟨"course", true, "1.0.0", ["1.0.0"], by decide⟩,
      ⟨"notes", true, "1.0.0", ["1.0.0"], by decide⟩]
  installations_nodup := by decide
  packages := fun _ => notesPackage
  slots := fun _ => slot
  batchSize := ⟨100, defaultBatch_pos⟩

def identityAnswer (identity : PluginIdentity) : JsonValue :=
  .obj [("plugin_id", .str identity.pluginId), ("version", .str identity.version),
    ("protocol_version", .str "1.0"), ("host_api", .str "1.0.0")]

/-- A launch that answers as it should, but for what starting the container raises. -/
def plainLaunch (start : Option Raised) (identity : PluginIdentity) : LaunchAnswers where
  start := start
  initialized := .result (identityAnswer identity)
  scope := fun _ => "scope"
  openSession := fun _ => .result .null

def plainOpen (openSession : Reply) : OpenAnswers where
  scope := "scope"
  openSession := openSession
  rounds := []

def readySlot : PluginSlot where
  spec := some ⟨"plugin", "", [some ⟨.caret, ⟨1, 0, 0⟩⟩]⟩
  status := .ready
  running := true
  generation := 1

theorem plainLaunch_fine (identity : PluginIdentity) :
    EnableFine identity notesPackage (plainLaunch none identity) {} := by
  refine ⟨_, rfl, by simp, Or.inr (Or.inr ⟨by decide, rfl, ⟨_, rfl, ?_⟩, fun n _ => ⟨_, rfl⟩⟩)⟩
  simp [negotiated, identityAnswer, hasString, JsonValue.lookup]

theorem readySlot_enable_fine (identity : PluginIdentity) (start : Option Raised) :
    EnableFine identity notesPackage (plainLaunch start identity) readySlot :=
  ⟨_, rfl, by simp [readySlot, notesPackage], Or.inl rfl⟩

theorem plainOpen_fine {reply : Reply} (h : ∀ e, reply = .raised e → e = .runtime) :
    OpenFine ⟨100, by decide⟩ notesPackage "media" (plainOpen reply) readySlot := by
  intro _ _
  cases reply with
  | raised e => exact h e rfl
  | result value =>
    intro _
    exact ⟨_, _, rfl, rfl, trivial⟩

/-- With plugins that run no container is started, and an error for an answer to `session.open` of
the first one leaves the other alone. -/
theorem readySlot_contained :
    let opens := fun identity : PluginIdentity =>
      plainOpen (if identity.pluginId = "course" then .raised .runtime else .result .null)
    (twoPlugins readySlot).StartContained "course" true (plainLaunch (some .runtime)) ∧
      (twoPlugins readySlot).ResolveContained "course" "media" opens := by
  intro opens
  have hfine : ∀ i, OpenFine ⟨100, by decide⟩ notesPackage "media" (opens i) readySlot := by
    refine fun i => plainOpen_fine fun e he => ?_
    split_ifs at he
    exact (Reply.raised.inj he).symm
  have h := @plugin_contained _ _ _ true _ _
    (fun i (_ : i ∈ (twoPlugins readySlot).enabledPlugins) (_ : i.pluginId ≠ "course") =>
      readySlot_enable_fine i (some .runtime))
    (fun i (_ : i ∈ (twoPlugins readySlot).readyPlugins "media") _ => hfine i)
  exact ⟨h.1.mpr fun _ i _ _ => readySlot_enable_fine i _, h.2.mpr fun i _ _ => hfine i⟩

/-- The container of the first plugin does not start, or its answer to `session.open` does not
come: the other plugin would be fine, and is not enabled and not asked. -/
theorem courseLaunch_not_contained :
    let launches := fun identity => plainLaunch
      (if identity.pluginId = "course" then some .runtime else none) identity
    let opens := fun identity : PluginIdentity =>
      if identity.pluginId = "course" then plainOpen (.raised .timeout)
      else plainOpen (.result .null)
    ((twoPlugins {}).OthersStart "course" launches ∧
      ¬ (twoPlugins {}).StartContained "course" true launches ∧
      ((twoPlugins {}).start true launches).2 = some .runtime ∧
      (((twoPlugins {}).start true launches).1 ⟨"notes", "1.0.0"⟩).running = false ∧
      ((((twoPlugins {}).without "course").start true launches).1
        ⟨"notes", "1.0.0"⟩).running = true) ∧
    (twoPlugins readySlot).OthersOpen "course" "media" opens ∧
      ¬ (twoPlugins readySlot).ResolveContained "course" "media" opens ∧
      ((twoPlugins readySlot).resolveMediaSession "media" opens).2 = some .timeout ∧
      (((twoPlugins readySlot).resolveMediaSession "media" opens).1
        ⟨"notes", "1.0.0"⟩).rows = [] ∧
      ((((twoPlugins readySlot).without "course").resolveMediaSession "media" opens).1
        ⟨"notes", "1.0.0"⟩).rows.length = 1 := by
  intro launches opens
  have hstart : ((twoPlugins {}).start true launches).2 = some .runtime := by decide
  have hopen : ((twoPlugins readySlot).resolveMediaSession "media" opens).2 = some .timeout := by
    decide
  refine ⟨⟨?_, ?_, hstart, by decide, by decide⟩, ?_, ?_, hopen, by decide, by decide⟩
  · intro i _ hne
    simp only [launches, if_neg hne]
    exact plainLaunch_fine i
  · intro hcontained
    exact absurd (hstart.symm.trans hcontained.none_raised) (by simp)
  · intro i _ hne
    simp only [opens, if_neg hne]
    exact plainOpen_fine (by simp)
  · intro hcontained
    exact absurd (hopen.symm.trans hcontained.none_raised) (by simp)

end Plugins
end Matinier
