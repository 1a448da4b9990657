import Matinier.Plugins.PluginUpdate

/-!
# What an update leaves

An update ends with the new version preferred and the state as that version migrated it from what
was there when the update began, or with the old version preferred. The update writes nothing of
the other versions, and it reports a success only where it has switched.
-/

namespace Matinier
namespace Plugins

open UpdateWorld

variable {u : PluginUpdate} {w₀ w w' : UpdateWorld} {a : UpdateAction}

def UpdateAction.rowsOf (u : PluginUpdate) (version : String) (rows : List StateItem) :
    UpdateAction → List StateItem
  | .put writer mediaSessionId key value expectedVersion =>
    if writer = version then
      putState (stateNamespace u.pluginId version mediaSessionId) key value expectedVersion rows
    else rows
  | _ => rows

/-- The rows of a version behind its own writes. -/
def writtenRows (u : PluginUpdate) (version : String) (actions : List UpdateAction)
    (rows : List StateItem) : List StateItem :=
  actions.foldl (UpdateAction.rowsOf u version) rows

/-- Nothing but its own writes has changed a version other than the new one. -/
structure UpdateFrame (u : PluginUpdate) (w₀ : UpdateWorld) (actions : List UpdateAction)
    (w : UpdateWorld) : Prop where
  enabled : w.enabled = w₀.enabled
  state : ∀ version ≠ u.candidate,
    w.state version = writtenRows u version actions (w₀.state version)
  slots : ∀ version ≠ u.candidate, w.slots version = w₀.slots version

/-- What an action that is no write leaves of the other versions. -/
structure SameOthers (u : PluginUpdate) (w w' : UpdateWorld) : Prop where
  enabled : w'.enabled = w.enabled
  state : ∀ version ≠ u.candidate, w'.state version = w.state version
  slots : ∀ version ≠ u.candidate, w'.slots version = w.slots version

namespace SameOthers

theorem refl (w : UpdateWorld) : SameOthers u w w := ⟨rfl, fun _ _ => rfl, fun _ _ => rfl⟩

theorem enter (h : SameOthers u w w') (phase : UpdatePhase) :
    SameOthers u w (w'.enter phase) := ⟨h.enabled, h.state, h.slots⟩

theorem setSlot (h : SameOthers u w w') (slot : PluginSlot) :
    SameOthers u w (w'.setSlot u.candidate slot) := by
  refine ⟨h.enabled, h.state, fun version hne => ?_⟩
  rw [← h.slots version hne]
  exact Function.update_of_ne hne slot w'.slots

theorem fail (h : SameOthers u w w') : SameOthers u w (w'.fail u) := by
  unfold UpdateWorld.fail
  split_ifs
  · exact h.enter _
  · exact h.enter _

theorem commit (h : SameOthers u w w') (rows : List StateItem) :
    SameOthers u w (w'.commit u rows) := by
  refine ⟨h.enabled, fun version hne => ?_, h.slots⟩
  rw [← h.state version hne]
  exact Function.update_of_ne hne rows w'.state

end SameOthers

theorem UpdateSteps.frame {actions : List UpdateAction} (h : UpdateFrame u w₀ actions w)
    (hstep : UpdateSteps u w a w') : UpdateFrame u w₀ (actions ++ [a]) w' := by
  -- Every step but a write leaves the other versions as they are.
  have hsame : (∀ version rows, a.rowsOf u version rows = rows) → SameOthers u w w' →
      UpdateFrame u w₀ (actions ++ [a]) w' := by
    intro hrows hothers
    refine ⟨hothers.enabled.trans h.enabled, fun version hne => ?_, fun version hne => ?_⟩
    · rw [hothers.state version hne, h.state version hne, writtenRows, writtenRows,
        List.foldl_append, List.foldl_cons, List.foldl_nil, hrows]
    · rw [hothers.slots version hne, h.slots version hne]
  have hrefl := SameOthers.refl (u := u) w
  cases hstep with
  | put writer mediaSessionId key value expectedVersion hwaits hwriter =>
    refine ⟨h.enabled, fun version hne => ?_, h.slots⟩
    rw [writtenRows, List.foldl_append, List.foldl_cons, List.foldl_nil, UpdateAction.rowsOf]
    rw [← writtenRows, ← h.state version hne]
    split_ifs with heq
    · subst heq
      exact Function.update_self writer _ w.state
    · exact Function.update_of_ne (Ne.symm heq) _ w.state
  | candidate slot hwaits hspec =>
    exact hsame (fun _ _ => rfl) (hrefl.setSlot slot)
  | start raised hphase =>
    apply hsame (fun _ _ => rfl)
    unfold UpdateWorld.start
    split_ifs
    · exact hrefl.enter _
    · exact hrefl.enter _
    · split
      · exact hrefl.enter _
      · exact hrefl.enter _
  | asked answer hphase =>
    apply hsame (fun _ _ => rfl)
    unfold UpdateWorld.asked
    split
    · exact hrefl.enter _
    · exact hrefl.fail
  | launched answers hphase =>
    apply hsame (fun _ _ => rfl)
    unfold UpdateWorld.launched
    split
    · exact (hrefl.setSlot _).enter _
    · exact (hrefl.setSlot _).fail
  | migrated raised hphase =>
    apply hsame (fun _ _ => rfl)
    simp only [UpdateWorld.migrated]
    split_ifs
    · exact hrefl.fail
    · split
      · exact (hrefl.commit _).enter _
      · exact hrefl.fail
    · split
      · exact (hrefl.commit _).enter _
      · exact hrefl.fail
  | disabled raised hphase =>
    apply hsame (fun _ _ => rfl)
    simp only [UpdateWorld.disabled]
    split_ifs
    · exact (hrefl.setSlot _).fail
    · exact (hrefl.setSlot _).enter _
  | undone raised hphase =>
    exact hsame (fun _ _ => rfl) ((hrefl.setSlot _).enter _)

def PluginUpdate.migration (u : PluginUpdate) (previous : String) (rows : List StateItem) :
    Option (List StateItem) := do
  let old ← (u.packages previous).manifest
  let new ← (u.packages u.candidate).manifest
  u.migrateState old.stateSchemaVersion new.stateSchemaVersion
    (migratedInput (statePrefix u.pluginId previous) (statePrefix u.pluginId u.candidate)
      (exportState rows))

/-- The old version is preferred, and the new one has the state it had. -/
structure Kept (u : PluginUpdate) (w₀ w : UpdateWorld) : Prop where
  preferred : w.preferred = w₀.preferred
  state : w.state u.candidate = w₀.state u.candidate

/-- The new version is preferred, and its state is what it made of the old one. -/
structure Updated (u : PluginUpdate) (w₀ w : UpdateWorld) : Prop where
  preferred : w.preferred = u.candidate
  state : u.migration w₀.preferred (w₀.state w₀.preferred) = some (w.state u.candidate)

def CandidateRuns (u : PluginUpdate) (w : UpdateWorld) : Prop :=
  (w.slots u.candidate).running = true ∧ (w.slots u.candidate).status.Serves

def CandidateStopped (u : PluginUpdate) (w : UpdateWorld) : Prop :=
  (w.slots u.candidate).running = false ∧ (w.slots u.candidate).desiredEnabled = false

/-- Before the switch nothing has changed, and the items are those of the old version. -/
structure BeforeSwitch (u : PluginUpdate) (w₀ w : UpdateWorld) (fromSchema toSchema : ℕ)
    (items : List StateItem) : Prop where
  other : w₀.preferred ≠ u.candidate
  kept : Kept u w₀ w
  items : u.migrateState fromSchema toSchema items =
    u.migration w₀.preferred (w₀.state w₀.preferred)

/-- Behind the switch something was raised where the new version was to be disabled again. -/
structure RaisedBehind (u : PluginUpdate) (w₀ : UpdateWorld) (actions : List UpdateAction)
    (w : UpdateWorld) : Prop where
  updated : Updated u w₀ w
  disabled : w₀.enabled = false
  raised : ∃ e, .disabled (some e) ∈ actions

/-- Behind the switch the plugin is enabled as it was. -/
structure Switched (u : PluginUpdate) (w₀ w : UpdateWorld) : Prop where
  updated : Updated u w₀ w
  runs : w₀.enabled = true → CandidateRuns u w
  stopped : w₀.enabled = false → CandidateStopped u w

def PhaseFacts (u : PluginUpdate) (w₀ : UpdateWorld) (actions : List UpdateAction)
    (w : UpdateWorld) : Prop :=
  match w.phase with
  | .idle => w = w₀
  | .asking fromSchema toSchema items => BeforeSwitch u w₀ w fromSchema toSchema items
  | .launching fromSchema toSchema items => BeforeSwitch u w₀ w fromSchema toSchema items
  | .migrating fromSchema toSchema items => BeforeSwitch u w₀ w fromSchema toSchema items
  | .disabling => Updated u w₀ w ∧ w₀.enabled = false
  | .undoing => w₀.preferred ≠ u.candidate ∧ Kept u w₀ w ∨ RaisedBehind u w₀ actions w
  | .done true => w₀.preferred = u.candidate ∧ Kept u w₀ w ∨ Switched u w₀ w
  | .done false => Kept u w₀ w ∨ RaisedBehind u w₀ actions w

section

variable {actions actions' : List UpdateAction} {fromSchema toSchema : ℕ} {items : List StateItem}

/-- The rows of the new version and what is preferred are all that is kept or updated. -/
theorem Kept.congr (h : Kept u w₀ w) (hpreferred : w'.preferred = w.preferred)
    (hstate : w'.state u.candidate = w.state u.candidate) : Kept u w₀ w' :=
  ⟨hpreferred.trans h.preferred, hstate.trans h.state⟩

theorem Updated.congr (h : Updated u w₀ w) (hpreferred : w'.preferred = w.preferred)
    (hstate : w'.state u.candidate = w.state u.candidate) : Updated u w₀ w' :=
  ⟨hpreferred.trans h.preferred, h.state.trans (congrArg some hstate.symm)⟩

theorem RaisedBehind.congr (h : RaisedBehind u w₀ actions w)
    (hpreferred : w'.preferred = w.preferred)
    (hstate : w'.state u.candidate = w.state u.candidate)
    (hactions : ∀ a ∈ actions, a ∈ actions') : RaisedBehind u w₀ actions' w' :=
  ⟨h.updated.congr hpreferred hstate, h.disabled, h.raised.imp fun _ he => hactions _ he⟩

theorem PhaseFacts.congr (h : PhaseFacts u w₀ actions w) (hphase : w'.phase = w.phase)
    (hwaits : w.phase.waits = true) (hpreferred : w'.preferred = w.preferred)
    (hstate : w'.state u.candidate = w.state u.candidate)
    (hactions : ∀ a ∈ actions, a ∈ actions') : PhaseFacts u w₀ actions' w' := by
  unfold PhaseFacts at h ⊢
  rw [hphase]
  cases hw : w.phase with
  | idle => simp [hw, UpdatePhase.waits] at hwaits
  | asking f t items =>
    rw [hw] at h
    exact ⟨h.other, h.kept.congr hpreferred hstate, h.items⟩
  | launching f t items =>
    rw [hw] at h
    exact ⟨h.other, h.kept.congr hpreferred hstate, h.items⟩
  | migrating f t items =>
    rw [hw] at h
    exact ⟨h.other, h.kept.congr hpreferred hstate, h.items⟩
  | disabling =>
    rw [hw] at h
    exact ⟨h.1.congr hpreferred hstate, h.2⟩
  | undoing =>
    rw [hw] at h
    exact h.imp (fun hk => ⟨hk.1, hk.2.congr hpreferred hstate⟩) fun hr =>
      hr.congr hpreferred hstate hactions
  | done success => simp [hw, UpdatePhase.waits] at hwaits

theorem PhaseFacts.fail_kept (hother : w₀.preferred ≠ u.candidate) (h : Kept u w₀ w) :
    PhaseFacts u w₀ actions (w.fail u) := by
  unfold UpdateWorld.fail
  split_ifs
  · exact Or.inl ⟨hother, h.congr rfl rfl⟩
  · exact Or.inl (h.congr rfl rfl)

theorem PhaseFacts.fail_raised (h : RaisedBehind u w₀ actions w) :
    PhaseFacts u w₀ actions (w.fail u) := by
  unfold UpdateWorld.fail
  split_ifs
  · exact Or.inr (h.congr rfl rfl fun _ ha => ha)
  · exact Or.inr (h.congr rfl rfl fun _ ha => ha)

theorem start_facts (raised : Option Raised) : PhaseFacts u w actions (w.start u raised) := by
  have hkept : ∀ phase, Kept u w (w.enter phase) := fun _ => ⟨rfl, rfl⟩
  unfold UpdateWorld.start
  split_ifs with hraised hsame
  · exact Or.inl (hkept _)
  · exact Or.inl ⟨hsame, hkept _⟩
  · split
    · rename_i previous manifest hprevious hmanifest
      refine ⟨hsame, hkept _, ?_⟩
      simp only [PluginUpdate.migration, hprevious, hmanifest, Option.bind_eq_bind,
        Option.bind_some]
    · exact Or.inl (hkept _)

theorem asked_facts (h : BeforeSwitch u w₀ w fromSchema toSchema items)
    (answer : Except Raised Bool) :
    PhaseFacts u w₀ actions (w.asked u fromSchema toSchema items answer) := by
  unfold UpdateWorld.asked
  split
  · exact ⟨h.other, h.kept.congr rfl rfl, h.items⟩
  · exact .fail_kept h.other h.kept

theorem launched_facts (h : BeforeSwitch u w₀ w fromSchema toSchema items)
    (answers : LaunchAnswers) :
    PhaseFacts u w₀ actions (w.launched u fromSchema toSchema items answers) := by
  unfold UpdateWorld.launched
  split
  · exact ⟨h.other, h.kept.congr rfl rfl, h.items⟩
  · exact .fail_kept h.other (h.kept.congr rfl rfl)

theorem migrated_facts (h : BeforeSwitch u w₀ w fromSchema toSchema items)
    (henabled : w.enabled = w₀.enabled) (raised : Option Raised) :
    PhaseFacts u w₀ actions (w.migrated u fromSchema toSchema items raised) := by
  simp only [UpdateWorld.migrated]
  by_cases hdown : ¬ (w.slots u.candidate).status.Serves ∨ (w.slots u.candidate).running = false
  · rw [if_pos hdown]
    exact .fail_kept h.other h.kept
  · rw [if_neg hdown]
    rw [not_or, not_not, Bool.not_eq_false] at hdown
    split
    · rename_i rows hrows
      have hupdated : ∀ phase, Updated u w₀ ((w.commit u rows).enter phase) := by
        intro phase
        refine ⟨rfl, ?_⟩
        rw [← h.items, hrows]
        exact congrArg some (Function.update_self u.candidate rows w.state).symm
      cases hon : w.enabled with
      | true =>
        refine Or.inr ⟨hupdated _, fun _ => ⟨hdown.2, hdown.1⟩, fun hoff => ?_⟩
        rw [← henabled, hon] at hoff
        cases hoff
      | false => exact ⟨hupdated _, henabled.symm.trans hon⟩
    · exact .fail_kept h.other h.kept

theorem disabled_facts (h : Updated u w₀ w ∧ w₀.enabled = false) (raised : Option Raised)
    (hraised : ∀ e, raised = some e → .disabled (some e) ∈ actions) :
    PhaseFacts u w₀ actions (w.disabled u raised) := by
  simp only [UpdateWorld.disabled]
  cases raised with
  | some e => exact .fail_raised ⟨h.1.congr rfl rfl, h.2, e, hraised e rfl⟩
  | none =>
    refine Or.inr ⟨h.1.congr rfl rfl, fun hon => ?_, fun _ => ?_⟩
    · rw [h.2] at hon
      cases hon
    · have hslot : Function.update w.slots u.candidate (w.slots u.candidate).disable u.candidate =
          (w.slots u.candidate).disable := Function.update_self _ _ _
      exact ⟨congrArg PluginSlot.running hslot, congrArg PluginSlot.desiredEnabled hslot⟩

theorem PhaseFacts.step (hframe : UpdateFrame u w₀ actions w) (h : PhaseFacts u w₀ actions w)
    (hstep : UpdateSteps u w a w') : PhaseFacts u w₀ (actions ++ [a]) w' := by
  have hactions : ∀ b ∈ actions, b ∈ actions ++ [a] := fun b hb => List.mem_append_left _ hb
  cases hstep with
  | put version mediaSessionId key value expectedVersion hwaits hversion =>
    refine h.congr rfl hwaits rfl ?_ hactions
    exact Function.update_of_ne hversion.symm _ w.state
  | candidate slot hwaits hspec => exact h.congr rfl hwaits rfl rfl hactions
  | start raised hphase =>
    unfold PhaseFacts at h
    rw [hphase] at h
    subst h
    exact start_facts raised
  | asked answer hphase =>
    unfold PhaseFacts at h
    rw [hphase] at h
    exact asked_facts h answer
  | launched answers hphase =>
    unfold PhaseFacts at h
    rw [hphase] at h
    exact launched_facts h answers
  | migrated raised hphase =>
    unfold PhaseFacts at h
    rw [hphase] at h
    exact migrated_facts h hframe.enabled raised
  | disabled raised hphase =>
    unfold PhaseFacts at h
    rw [hphase] at h
    apply disabled_facts h raised
    rintro e rfl
    exact List.mem_append_right _ (List.mem_singleton_self _)
  | undone raised hphase =>
    unfold PhaseFacts at h
    rw [hphase] at h
    rcases h with ⟨-, hkept⟩ | hraised
    · exact Or.inl (hkept.congr rfl rfl)
    · exact Or.inr (hraised.congr rfl rfl hactions)

end

/-- What is known of an update behind any steps of it and of the other versions. -/
theorem update_facts {actions : List UpdateAction} (hidle : w₀.phase = .idle)
    (h : Run (UpdateSteps u) w₀ actions w) :
    UpdateFrame u w₀ actions w ∧ PhaseFacts u w₀ actions w := by
  have hidle' : UpdateFrame u w₀ [] w₀ ∧ PhaseFacts u w₀ [] w₀ := by
    refine ⟨⟨rfl, fun _ _ => rfl, fun _ _ => rfl⟩, ?_⟩
    unfold PhaseFacts
    rw [hidle]
  have hrun := h.history
    (I := fun actions w => UpdateFrame u w₀ actions w ∧ PhaseFacts u w₀ actions w)
    (fun actions w a w' hw hstep => ⟨hstep.frame hw.1, hw.2.step hw.1 hstep⟩) hidle'
  simpa using hrun

/-- An update that has ended has switched to the new version, with the state as that migrated it and
running where the plugin is enabled, or it has changed nothing. A success means that it has
switched, and is reported unless disabling the new version raised. -/
theorem update_atomic {actions : List UpdateAction} {success : Bool} (hidle : w.phase = .idle)
    (hrun : Run (UpdateSteps u) w actions w') (hdone : w'.phase = .done success) :
    UpdateFrame u w actions w' ∧
      (Updated u w w' ∧ (w.enabled = true → CandidateRuns u w') ∧
          (success = true → w.enabled = false → CandidateStopped u w') ∨ Kept u w w') ∧
      (success = true → w'.preferred = u.candidate) ∧
      (w.preferred ≠ u.candidate → w'.preferred = u.candidate →
        (w.enabled = true ∨ ∀ e, .disabled (some e) ∉ actions) → success = true) := by
  obtain ⟨hframe, hfacts⟩ := update_facts hidle hrun
  unfold PhaseFacts at hfacts
  rw [hdone] at hfacts
  refine ⟨hframe, ?_⟩
  cases success with
  | true =>
    rcases hfacts with ⟨hsame, hkept⟩ | hswitched
    · exact ⟨Or.inr hkept, fun _ => hkept.preferred.trans hsame, fun _ _ _ => rfl⟩
    · exact ⟨Or.inl ⟨hswitched.updated, hswitched.runs, fun _ => hswitched.stopped⟩,
        fun _ => hswitched.updated.preferred, fun _ _ _ => rfl⟩
  | false =>
    rcases hfacts with hkept | hraised
    · refine ⟨Or.inr hkept, by simp, fun hother hcandidate => ?_⟩
      exact absurd (hkept.preferred.symm.trans hcandidate) hother
    · have hoff : w.enabled ≠ true := by simp [hraised.disabled]
      refine ⟨Or.inl ⟨hraised.updated, fun hon => absurd hon hoff, by simp⟩, by simp, ?_⟩
      intro _ _ hquiet
      obtain ⟨e, he⟩ := hraised.raised
      rcases hquiet with hon | hnone
      · exact absurd hon hoff
      · exact absurd he (hnone e)

def notesUpdate : PluginUpdate where
  pluginId := "notes"
  candidate := "2.0.0"
  packages := fun _ => ⟨"plugin", some { hostApi := [], subscriptions := [] }⟩
  respond := fun _ _ items => .result (.obj [("items", .arr (items.map StateItem.toJson))])

def notesItem : StateItem := ⟨"plugin:notes:1.0.0:session:global", "cursor", [], 1⟩

def notesWorld (enabled : Bool) : UpdateWorld where
  preferred := "1.0.0"
  enabled := enabled
  state := fun version => if version = "1.0.0" then [notesItem] else []
  slots := fun _ => {}
  phase := .idle

def notesAnswers : LaunchAnswers where
  initialized := .result (.obj [("plugin_id", .str "notes"), ("version", .str "2.0.0"),
    ("protocol_version", .str "1.0"), ("host_api", .str "1.0.0")])
  scope := fun _ => "scope"
  openSession := fun _ => .result .null

def notesItems : List StateItem :=
  migratedInput (statePrefix "notes" "1.0.0") (statePrefix "notes" "2.0.0")
    (exportState [notesItem])

def notesLaunched (enabled : Bool) : UpdateWorld :=
  (((notesWorld enabled).start notesUpdate none).asked notesUpdate 1 1 notesItems
    (.ok true)).launched notesUpdate 1 1 notesItems notesAnswers

theorem notesLaunched_run (enabled : Bool) :
    Run (UpdateSteps notesUpdate) (notesWorld enabled)
      [.start none, .asked (.ok true), .launched notesAnswers] (notesLaunched enabled) :=
  .more (.start none rfl) (.more (.asked (.ok true) rfl) (.single (.launched notesAnswers rfl)))

theorem notesLaunched_phase (enabled : Bool) :
    (notesLaunched enabled).phase = .migrating 1 1 notesItems := rfl

theorem notesUpdate_switches :
    ∃ w, Run (UpdateSteps notesUpdate) (notesWorld true)
        ([.start none, .asked (.ok true), .launched notesAnswers] ++ [.migrated none]) w ∧
      w.preferred = "2.0.0" := by
  have hrun := (notesLaunched_run true).append (.single (.migrated none (notesLaunched_phase true)))
  have hdone : ((notesLaunched true).migrated notesUpdate 1 1 notesItems none).phase =
      .done true := rfl
  exact ⟨_, hrun, (update_atomic rfl hrun hdone).2.2.1 rfl⟩

def lateWrite : UpdateAction := .put "1.0.0" none "cursor" [("sequence", .int 2)] 1

def notesWritten : UpdateWorld :=
  (notesLaunched true).put notesUpdate "1.0.0" none "cursor" [("sequence", .int 2)] 1

/-- That write is not in the state of the new version; and the new version of a plugin that is
not enabled does not run, though a success is reported. -/
theorem notesUpdate_not_atomic :
    (∃ w, Run (UpdateSteps notesUpdate) (notesWorld true)
        ([.start none, .asked (.ok true), .launched notesAnswers] ++
          [lateWrite, .migrated none]) w ∧
      w.phase = .done true ∧ w.preferred = "2.0.0" ∧
      notesUpdate.migration "1.0.0" (w.state "1.0.0") ≠ some (w.state "2.0.0")) ∧
    ∃ w, Run (UpdateSteps notesUpdate) (notesWorld false)
        ([.start none, .asked (.ok true), .launched notesAnswers] ++
          [.migrated none, .disabled none]) w ∧
      w.phase = .done true ∧ w.preferred = "2.0.0" ∧ ¬ CandidateRuns notesUpdate w := by
  constructor
  · refine ⟨notesWritten.migrated notesUpdate 1 1 notesItems none, ?_, rfl, rfl, ?_⟩
    · apply (notesLaunched_run true).append
      exact .more (.put "1.0.0" none "cursor" _ 1 rfl (by decide)) (.single (.migrated none rfl))
    · intro heq
      have hversions := congrArg (Option.map (List.map StateItem.version)) heq
      exact absurd hversions (by decide +kernel)
  · refine ⟨((notesLaunched false).migrated notesUpdate 1 1 notesItems none).disabled notesUpdate
      none, ?_, rfl, rfl, ?_⟩
    · apply (notesLaunched_run false).append
      exact .more (.migrated none rfl) (.single (.disabled none rfl))
    · intro hruns
      exact absurd hruns.1 (by decide)

end Plugins
end Matinier
