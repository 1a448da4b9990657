import Matinier.CourseOrganizer.DurableProgress

/-!
# Opening a session again

A session that is opened again has to have what is stored, and its view has to be one that the host
accepts: the state and the view are stored by different calls, each under a version of its own. It
is so where all that is shown is stored under the version of the view that shows it first.
-/

namespace Matinier
namespace CourseOrganizer

open Plugins (JsonEntries)

variable {cfg : CourseConfig} {r r' : CourseRecord} {row : ViewRow}

/-- A state shows the same as another under the same version, or it has a higher one. -/
structure ShowsMore (r r' : CourseRecord) : Prop where
  viewVersion : r.viewVersion ≤ r'.viewVersion
  view : r.viewVersion = r'.viewVersion → r.view = r'.view

/-- A view is that of a state, or has a lower version. -/
structure ViewRow.Behind (row : ViewRow) (r : CourseRecord) : Prop where
  viewVersion : row.viewVersion ≤ r.viewVersion
  view : row.viewVersion = r.viewVersion → row.view = r.view

theorem ShowsMore.refl (r : CourseRecord) : ShowsMore r r := ⟨le_rfl, fun _ => rfl⟩

theorem ShowsMore.trans {r'' : CourseRecord} (h : ShowsMore r r') (h' : ShowsMore r' r'') :
    ShowsMore r r'' := by
  refine ⟨h.viewVersion.trans h'.viewVersion, fun heq => ?_⟩
  have hle := h.viewVersion
  have hle' := h'.viewVersion
  exact (h.view (by omega)).trans (h'.view (by omega))

instance : IsPreorder CourseRecord ShowsMore where
  refl := ShowsMore.refl
  trans _ _ _ := ShowsMore.trans

theorem ShowsMore.of_lt (h : r.viewVersion < r'.viewVersion) : ShowsMore r r' :=
  ⟨h.le, fun heq => absurd heq h.ne⟩

theorem ViewRow.Behind.mono (h : row.Behind r) (hmore : ShowsMore r r') : row.Behind r' := by
  refine ⟨h.viewVersion.trans hmore.viewVersion, fun heq => ?_⟩
  have hle := h.viewVersion
  have hle' := hmore.viewVersion
  exact (h.view (by omega)).trans (hmore.view (by omega))

theorem ShowsMore.behind (h : ShowsMore r r') : ViewRow.Behind ⟨r.viewVersion, r.view⟩ r' :=
  ⟨h.viewVersion, h.view⟩

theorem ViewRow.Behind.accepts {view : Option ViewRow} (h : ∀ row, view = some row → row.Behind r) :
    ViewRow.accepts view ⟨r.viewVersion, r.view⟩ = true := by
  cases view with
  | none => rfl
  | some row =>
    have hrow := h row rfl
    simp only [ViewRow.accepts, Option.all_some, Bool.or_eq_true, decide_eq_true_eq]
    rcases lt_or_eq_of_le hrow.viewVersion with hlt | heq
    · exact Or.inr hlt
    · left
      rw [← heq, ← hrow.view heq]

/-- All that is shown of two states is the same. -/
structure SameDisplay (r r' : CourseRecord) : Prop where
  viewVersion : r'.viewVersion = r.viewVersion
  outputLanguage : r'.outputLanguage = r.outputLanguage
  status : r'.status = r.status
  notes : r'.notes = r.notes
  markdown : r'.finalDocumentMarkdown = r.finalDocumentMarkdown
  history : r'.history = r.history

namespace SameDisplay

theorem refl (r : CourseRecord) : SameDisplay r r := ⟨rfl, rfl, rfl, rfl, rfl, rfl⟩

theorem trans {r'' : CourseRecord} (h : SameDisplay r r') (h' : SameDisplay r' r'') :
    SameDisplay r r'' where
  viewVersion := h'.viewVersion.trans h.viewVersion
  outputLanguage := h'.outputLanguage.trans h.outputLanguage
  status := h'.status.trans h.status
  notes := h'.notes.trans h.notes
  markdown := h'.markdown.trans h.markdown
  history := h'.history.trans h.history

theorem view (h : SameDisplay r r') : r'.view = r.view := by
  unfold CourseRecord.view
  rw [h.outputLanguage, h.status, h.notes, h.markdown, h.history]

theorem showsMore (h : SameDisplay r r') : ShowsMore r r' :=
  ⟨h.viewVersion.ge, fun _ => h.view.symm⟩

theorem showsMore' (h : SameDisplay r r') : ShowsMore r' r := ⟨h.viewVersion.le, fun _ => h.view⟩

end SameDisplay

theorem lastItems_eq {α : Type} {n : ℕ} {l : List α} (h : l.length ≤ n) : lastItems n l = l := by
  rw [lastItems, Nat.sub_eq_zero_of_le h, List.drop_zero]

theorem lastItems_length {α : Type} (n : ℕ) (l : List α) : (lastItems n l).length ≤ n := by
  rw [lastItems, List.length_drop]
  omega

theorem view_toDict (s : CourseState) : s.toDict.view = s.toCourseRecord.view := by
  unfold CourseRecord.view CourseState.toDict
  simp only [lastItems_eq (lastItems_length 50 s.history)]

instance : KeepsDict ShowsMore where
  dict_le s := ⟨le_rfl, fun _ => view_toDict s⟩
  le_dict s := ⟨le_rfl, fun _ => (view_toDict s).symm⟩

/-- The language is the one that was asked for, or that of the first translation. -/
def LanguageKept (r : CourseRecord) : Prop :=
  r.languageExplicit = true ∨
    ∀ language ∈ r.translationLanguages.head?, language = r.outputLanguage

/-- What is stored of a state is all of it, and it is read back as it is. -/
structure WellKept (cfg : CourseConfig) (r : CourseRecord) : Prop where
  viewVersion : 1 ≤ r.viewVersion
  status : r.status ≠ .processing
  notes : r.notes.items.length ≤ cfg.maxNotes
  history : r.history.length ≤ 50
  language : LanguageKept r

theorem WellKept.of_same (h : WellKept cfg r) (hsame : SameDisplay r r')
    (hlanguage : LanguageKept r') : WellKept cfg r' where
  viewVersion := hsame.viewVersion ▸ h.viewVersion
  status := hsame.status ▸ h.status
  notes := hsame.notes ▸ h.notes
  history := hsame.history ▸ h.history
  language := hlanguage

theorem WellKept.initial (cfg : CourseConfig) : WellKept cfg {} :=
  ⟨le_rfl, by simp, Nat.zero_le _, Nat.zero_le _, Or.inr fun _ hl => by cases hl⟩

theorem WellKept.toDict {s : CourseState} (h : WellKept cfg s.toCourseRecord) :
    WellKept cfg s.toDict :=
  ⟨h.viewVersion, h.status, h.notes, lastItems_length _ _, h.language⟩

theorem restoredState_same (version : ℕ) (stored : Option CourseRecord) (afterSequence : ℤ)
    (h : WellKept cfg (stored.getD {})) :
    restoredState cfg.toRealtimeConfig version stored afterSequence =
      { stored.getD {} with
        lastSequence := max (stored.getD {}).lastSequence afterSequence
        stateVersion := version } := by
  cases stored with
  | none => rfl
  | some record =>
    simp only [Option.getD_some] at h ⊢
    have hviewVersion : max 1 record.viewVersion = record.viewVersion := max_eq_right h.viewVersion
    simp only [restoredState, CourseState.fromDict, hviewVersion, lastItems_eq h.notes,
      lastItems_eq h.history, if_neg h.status]

/-- Captions leave the output language as it is. -/
def KeepsLanguage (r : CourseRecord) (captions : List PendingEvent) : Prop :=
  r.languageExplicit = true ∨ r.translationLanguages ≠ [] ∨
    ∀ e ∈ captions, r.lastSequence < e.sequence → e.language = r.outputLanguage

structure Unshown (r r' : CourseRecord) : Prop where
  same : SameDisplay r r'
  kept : LanguageKept r'
  explicit : r'.languageExplicit = r.languageExplicit
  translated : r.translationLanguages ≠ [] → r'.translationLanguages ≠ []

theorem Unshown.refl (h : LanguageKept r) : Unshown r r := ⟨.refl r, h, rfl, id⟩

theorem Unshown.trans {r'' : CourseRecord} (h : Unshown r r') (h' : Unshown r' r'') :
    Unshown r r'' :=
  ⟨h.same.trans h'.same, h'.kept, h'.explicit.trans h.explicit, h'.translated ∘ h.translated⟩

theorem observeLanguage_unshown {item : PendingEvent} (h : LanguageKept r)
    (hlanguage : r.languageExplicit = true ∨ r.translationLanguages ≠ [] ∨
      item.language = r.outputLanguage) : Unshown r (r.observeLanguage item) := by
  unfold CourseRecord.observeLanguage
  by_cases htranscript : item.eventType = "transcript.final"
  · have houtput : (if ¬ r.languageExplicit ∧ r.translationLanguages = [] then item.language
        else r.outputLanguage) = r.outputLanguage := by
      split_ifs with hfree
      · exact (hlanguage.resolve_left hfree.1).resolve_left (not_not.mpr hfree.2)
      · rfl
    rw [if_pos htranscript, houtput]
    exact ⟨⟨rfl, rfl, rfl, rfl, rfl, rfl⟩, h, rfl, id⟩
  · rw [if_neg htranscript]
    generalize hadd : (if item.language ∈ r.translationLanguages then r.translationLanguages
      else r.translationLanguages ++ [item.language]) = languages
    -- The first language is the one that there was, or that of the caption.
    have hne : languages ≠ [] := by
      rw [← hadd]
      split_ifs with hknown
      · exact List.ne_nil_of_mem hknown
      · simp
    have hhead : r.languageExplicit = true ∨
        ∀ language ∈ languages.head?, language = r.outputLanguage := by
      by_cases hexplicit : r.languageExplicit = true
      · exact Or.inl hexplicit
      · right
        have hold := h.resolve_left hexplicit
        rw [← hadd]
        cases hlanguages : r.translationLanguages with
        | nil =>
          have hsame := (hlanguage.resolve_left hexplicit).resolve_left (not_not.mpr hlanguages)
          simpa using hsame
        | cons first rest =>
          have hfirst : first = r.outputLanguage := hold first (by simp [hlanguages])
          split_ifs
          · simpa using hfirst
          · simpa using hfirst
    have houtput : (if r.languageExplicit then r.outputLanguage
        else languages.headD r.outputLanguage) = r.outputLanguage := by
      split_ifs with hexplicit
      · rfl
      · cases languages with
        | nil => rfl
        | cons first rest => exact hhead.resolve_left hexplicit first rfl
    simp only [houtput]
    exact ⟨⟨rfl, rfl, rfl, rfl, rfl, rfl⟩, hhead, rfl, fun _ => hne⟩

theorem noteTerminal_unshown (trigger : String) (h : LanguageKept r) :
    Unshown r (r.noteTerminal cfg trigger) := by
  unfold CourseRecord.noteTerminal
  split_ifs
  · exact ⟨⟨rfl, rfl, rfl, rfl, rfl, rfl⟩, h, rfl, id⟩
  · exact .refl h

theorem takeEvent_unshown {terminalTask : Bool} {sequence : ℤ} {entries : JsonEntries}
    {b : BatchProgress} (h : LanguageKept b.record)
    (hlanguage : b.record.languageExplicit = true ∨ b.record.translationLanguages ≠ [] ∨
      (b.record.lastSequence < sequence → ∀ e, pendingEvent entries = some e →
        e.language = b.record.outputLanguage)) :
    Unshown b.record (takeEvent cfg terminalTask sequence entries b).1.record := by
  unfold takeEvent
  split_ifs with hold
  · exact .refl h
  · have hmoved : Unshown b.record { b.record with lastSequence := sequence } :=
      ⟨⟨rfl, rfl, rfl, rfl, rfl, rfl⟩, h, rfl, id⟩
    simp only
    split
    · split_ifs
      · split
        · exact hmoved
        · rename_i item hitem
          have hmerged : Unshown b.record { b.record with
              lastSequence := sequence
              pending := mergePending item b.record.pending } :=
            ⟨⟨rfl, rfl, rfl, rfl, rfl, rfl⟩, h, rfl, id⟩
          apply hmerged.trans
          apply observeLanguage_unshown hmerged.kept
          exact hlanguage.imp id (Or.imp id fun hall => hall (not_le.mp hold) item hitem)
      · split
        · exact hmoved.trans (noteTerminal_unshown _ hmoved.kept)
        · exact hmoved
    · exact hmoved

theorem takeEvents_unshown {terminalTask : Bool} {l : List (ℤ × JsonEntries)} {b : BatchProgress}
    (h : LanguageKept b.record)
    (hlanguage : b.record.languageExplicit = true ∨ b.record.translationLanguages ≠ [] ∨
      ∀ x ∈ l, b.record.lastSequence < x.1 → ∀ e, pendingEvent x.2 = some e →
        e.language = b.record.outputLanguage) :
    Unshown b.record (takeEvents cfg terminalTask l b).1.record := by
  induction l generalizing b with
  | nil => exact .refl h
  | cons entry l ih =>
    have hfirst : Unshown b.record (takeEvent cfg terminalTask entry.1 entry.2 b).1.record :=
      takeEvent_unshown h (hlanguage.imp id (Or.imp id fun hall => hall entry List.mem_cons_self))
    rw [takeEvents]
    split
    · rename_i b' hstep
      rwa [hstep] at hfirst
    · rename_i b' hstep
      have hcursor := (takeEvent_spec hstep).1.lastSequence
      rw [hstep] at hfirst
      apply hfirst.trans
      apply ih hfirst.kept
      rcases hlanguage with hexplicit | htranslated | hall
      · exact Or.inl (hfirst.explicit.trans hexplicit)
      · exact Or.inr (Or.inl (hfirst.translated htranslated))
      · refine Or.inr (Or.inr fun x hx hnew e he => ?_)
        rw [hfirst.same.outputLanguage]
        exact hall x (List.mem_cons_of_mem _ hx) (hcursor.trans_lt hnew) e he

/-- A batch schedules no window: one is under way, or it ends the session, or what is pending behind
it is not enough for one. -/
def NoWindow (cfg : CourseConfig) (p : CourseProcess) (events : List JsonValue) : Prop :=
  ∀ sorted b, sortedEvents events = some sorted →
    takeEvents cfg p.terminalTask sorted { record := p.state.toCourseRecord } = (b, false) →
      b.changed = true → p.tasks.any CourseTask.isBackground = true ∨ b.scheduleTerminal = true ∨
        b.record.windowReady? cfg ≠ some true

theorem eventBatch_unshown {p : CourseProcess} {events : List JsonValue}
    (h : LanguageKept p.state.toCourseRecord)
    (hlanguage : KeepsLanguage p.state.toCourseRecord (finalCaptions events))
    (hwindow : NoWindow cfg p events)
    (hbatch : eventBatch cfg (p.tasks.any CourseTask.isBackground) p.terminalTask events
        p.state.toCourseRecord = .raised r ∨
      ∃ window terminal, eventBatch cfg (p.tasks.any CourseTask.isBackground) p.terminalTask events
        p.state.toCourseRecord = .changed r window terminal) :
    Unshown p.state.toCourseRecord r := by
  cases hsorted : sortedEvents events with
  | none =>
    simp only [eventBatch, hsorted, reduceCtorEq, exists_false, or_false] at hbatch
    obtain rfl := BatchOutcome.raised.inj hbatch
    exact .refl h
  | some sorted =>
    have htaken : Unshown p.state.toCourseRecord
        (takeEvents cfg p.terminalTask sorted { record := p.state.toCourseRecord }).1.record := by
      apply takeEvents_unshown (b := { record := p.state.toCourseRecord }) h
      refine hlanguage.imp id (Or.imp id fun hall x hx hnew e he => ?_)
      obtain rfl := sortedEvents_eq hsorted
      have hx' := (List.mem_insertionSort _).mp hx
      have hsequence := numberedEvent_sequence hx' he
      rw [← hsequence] at hnew
      apply hall e (mem_finalCaptions.mpr ⟨x.2, ?_, he⟩) hnew
      rw [hsequence]
      exact hx'
    simp only [eventBatch, hsorted] at hbatch
    cases htake : takeEvents cfg p.terminalTask sorted { record := p.state.toCourseRecord } with
    | mk b raised =>
      rw [htake] at htaken hbatch
      cases raised with
      | true =>
        simp only [reduceCtorEq, exists_false, or_false] at hbatch
        obtain rfl := BatchOutcome.raised.inj hbatch
        exact htaken
      | false =>
        simp only at hbatch
        by_cases hchanged : b.changed = true
        · have hnone := hwindow sorted b hsorted htake hchanged
          simp only [hchanged, Bool.true_eq_false, if_false] at hbatch
          split_ifs at hbatch with hbackground
          · simp only [false_or, BatchOutcome.changed.injEq] at hbatch
            obtain ⟨_, _, rfl, -⟩ := hbatch
            exact htaken
          · split at hbatch
            · simp only [reduceCtorEq, exists_false, or_false] at hbatch
              obtain rfl := BatchOutcome.raised.inj hbatch
              exact htaken
            · rename_i isReady hready
              split_ifs at hbatch with hschedule
              · simp only [Bool.and_eq_true, Bool.not_eq_true'] at hschedule
                rw [hready, hschedule.1, hschedule.2] at hnone
                simp [hbackground] at hnone
              · simp only [false_or, BatchOutcome.changed.injEq] at hbatch
                obtain ⟨_, _, rfl, -⟩ := hbatch
                exact htaken
        · simp [hchanged] at hbatch

theorem LanguageKept.congr (h : LanguageKept r)
    (hexplicit : r'.languageExplicit = r.languageExplicit)
    (hlanguages : r'.translationLanguages = r.translationLanguages)
    (houtput : r'.outputLanguage = r.outputLanguage) : LanguageKept r' := by
  unfold LanguageKept
  rw [hexplicit, hlanguages, houtput]
  exact h

theorem WellKept.next (h : WellKept cfg r) : 1 ≤ r.viewVersion + 1 :=
  h.viewVersion.trans (Int.lt_succ _).le

theorem commitWindow_wellKept (snapshot : List PendingEvent) (notes : List RealtimeNote)
    {status : CourseStatus} (replaceIds : List String) (h : WellKept cfg r)
    (hstatus : status ≠ .processing) :
    WellKept cfg (r.commitWindow cfg snapshot notes status replaceIds) :=
  ⟨h.next, hstatus, lastItems_length _ _, h.history,
    h.language.congr rfl rfl rfl⟩

theorem startFinal_wellKept (terminalJobId : Option String) (h : WellKept cfg r) :
    WellKept cfg (r.startFinal terminalJobId) :=
  ⟨h.next, h.status, h.notes, h.history,
    h.language.congr rfl rfl rfl⟩

theorem outcome_shown {task : CourseTask} {outcome : TaskOutcome} {left : Option CourseTask}
    (h : task.outcome cfg r outcome = some (left, r')) (hkept : WellKept cfg r)
    (hnotes : ∀ target notes, task = .language target notes → notes.items.length ≤ cfg.maxNotes) :
    r'.viewVersion = r.viewVersion + 1 ∧ WellKept cfg r' ∧
      ∀ target notes, left ≠ some (.language target notes) := by
  have hversion := hkept.next
  unfold CourseTask.outcome at h
  split at h
  · cases h
    exact ⟨rfl, commitWindow_wellKept _ _ _ hkept (by simp), by simp⟩
  · cases h
    exact ⟨rfl, commitWindow_wellKept _ _ _ hkept (by simp), by simp⟩
  · cases h
    exact ⟨rfl, commitWindow_wellKept _ _ _ hkept (by simp), by simp⟩
  · split_ifs at h
    cases h
    refine ⟨rfl, ⟨hversion, hkept.status, ?_, hkept.history, Or.inl rfl⟩, by simp⟩
    simp only [CourseRecord.writeLanguage, localizedNotes, List.length_map, List.length_zip]
    exact (min_le_left _ _).trans (hnotes _ _ rfl)
  · cases h
    exact ⟨rfl, ⟨hversion, hkept.status, hkept.notes, hkept.history,
      hkept.language.congr rfl rfl rfl⟩, by simp⟩
  · cases h
    exact ⟨rfl, ⟨hversion, hkept.status, hkept.notes, lastItems_length _ _,
      hkept.language.congr rfl rfl rfl⟩, by simp⟩
  · cases h

/-- An operation that publishes the view behind what it stores. -/
def OperationKind.shows : OperationKind → Bool
  | .change => true
  | .command _ => true
  | _ => false

/-- The state of such an operation is still to be stored, or to be told of. -/
def Operation.putting : Operation → Bool
  | ⟨kind, .storing _ _⟩ => kind.shows
  | ⟨kind, .stored _⟩ => kind.shows
  | _ => false

def CourseProcess.settled (p : CourseProcess) : Prop := ∀ op ∈ p.operations, op.putting = false

/-- A command starts to make a final document, unless that is under way. -/
def CourseProcess.starts (p : CourseProcess) : CourseCommand → Bool
  | .generateFinal _ => !(p.tasks.any (CourseTask.isManual p.state.outputLanguage))
  | .retryFinal _ =>
    if p.state.terminalTrigger.isSome then !(p.tasks.any CourseTask.isTerminal)
    else !(p.tasks.any (CourseTask.isManual p.state.outputLanguage))
  | _ => false

/-- No batch and no opening schedules a window, no batch changes the output language, and what
changes what is shown is not started while the state of another such change is to be stored. -/
def Steady (cfg : CourseConfig) (w : CourseWorld) : CourseAction → Prop
  | .batch events _ => ∀ p, w.process = some p →
      KeepsLanguage p.state.toCourseRecord (finalCaptions events) ∧ NoWindow cfg p events
  | .command command => ∀ p, w.process = some p → p.starts command = true → p.settled
  | .outcome _ _ => ∀ p, w.process = some p → p.settled
  | .opened => ∀ p, w.process = some p → ¬ OpensWindow cfg p.state.toCourseRecord
  | _ => True

/-- A command that starts nothing leaves the state and what is under way alone. -/
theorem CourseProcess.command_same {p : CourseProcess} {c : CourseCommand}
    (h : p.starts c = false) :
    (p.command c).state = p.state ∧ (p.command c).operations = p.operations := by
  have hmanual : ∀ commandId,
      (!(p.tasks.any (CourseTask.isManual p.state.outputLanguage))) = false →
        p.generateFinal commandId = p := by
    intro commandId hmaking
    unfold CourseProcess.generateFinal
    rw [if_pos (by simpa using hmaking)]
  cases c with
  | generateFinal commandId =>
    simp only [CourseProcess.command, hmanual commandId h, and_self]
  | retryFinal commandId =>
    simp only [CourseProcess.starts] at h
    simp only [CourseProcess.command]
    split_ifs at h ⊢ with htrigger hterminal
    · exact ⟨rfl, rfl⟩
    · simp [hterminal] at h
    · rw [hmanual commandId h]
      exact ⟨rfl, rfl⟩
  | setLanguage language =>
    simp only [CourseProcess.command]
    split
    · exact ⟨rfl, rfl⟩
    · split_ifs <;> exact ⟨rfl, rfl⟩
  | selectVersion => exact ⟨rfl, rfl⟩

/-- A session that goes on publishes the view of its memory, if it was to be shown. -/
theorem CourseProcess.resume_shows (p : CourseProcess) (kind : OperationKind) (known : ℕ) :
    (p.resume kind known).1.operations = p.operations ∨ kind.shows = true ∧
      (p.resume kind known).1.operations =
        ⟨kind, .publishing ⟨p.state.viewVersion, p.state.view⟩⟩ :: p.operations := by
  rcases resume_operations p kind known with hops | ⟨hbatch, hops⟩
  · exact Or.inl hops
  · cases kind with
    | batch window terminal => cases hbatch
    | opening =>
      left
      unfold CourseProcess.resume
      split_ifs <;> rfl
    | change => exact Or.inr ⟨rfl, hops⟩
    | command manual => exact Or.inr ⟨rfl, hops⟩

theorem CourseTask.next_ne_language (r : CourseRecord) (task : CourseTask) (target : String)
    (notes : CourseNotes) : task.next r ≠ some (.language target notes) := by
  unfold CourseTask.next finalTask
  split
  · split_ifs
    · split <;> simp
    · simp
  · simp
  · split <;> simp
  · simp

/-- The notes that are being translated are those of some state. -/
def FewTranslated (cfg : CourseConfig) (tasks : List CourseTask) : Prop :=
  ∀ target notes, .language target notes ∈ tasks → notes.items.length ≤ cfg.maxNotes

theorem FewTranslated.cons {task : CourseTask} {tasks : List CourseTask}
    (h : FewTranslated cfg tasks)
    (hnotes : ∀ target notes, task = .language target notes → notes.items.length ≤ cfg.maxNotes) :
    FewTranslated cfg (task :: tasks) := by
  intro target notes hmem
  rcases List.mem_cons.mp hmem with heq | hmem
  · exact hnotes target notes heq.symm
  · exact h target notes hmem

theorem FewTranslated.scheduleTerminal {p : CourseProcess} (h : FewTranslated cfg p.tasks) :
    FewTranslated cfg p.scheduleTerminal.tasks := by
  unfold CourseProcess.scheduleTerminal
  split_ifs
  · exact h
  · exact h.cons (by simp)

theorem FewTranslated.schedule {p : CourseProcess} (window : Option (List PendingEvent))
    (h : FewTranslated cfg p.tasks) : FewTranslated cfg (p.schedule window).tasks := by
  cases window with
  | none => exact h
  | some snapshot => exact h.cons (by simp)

theorem FewTranslated.resume {p : CourseProcess} (kind : OperationKind) (known : ℕ)
    (h : FewTranslated cfg p.tasks) : FewTranslated cfg (p.resume kind known).1.tasks := by
  unfold CourseProcess.resume
  split_ifs
  · exact h
  · cases kind with
    | batch window terminal =>
      cases terminal with
      | true => exact FewTranslated.scheduleTerminal (FewTranslated.schedule window h)
      | false => exact FewTranslated.schedule window h
    | opening => exact FewTranslated.schedule _ h
    | change => exact h
    | command manual => exact h

theorem FewTranslated.finishPublishing {p : CourseProcess} (kind : OperationKind)
    (h : FewTranslated cfg p.tasks) : FewTranslated cfg (p.finishPublishing kind).tasks := by
  cases kind with
  | command manual =>
    cases manual with
    | none => exact FewTranslated.scheduleTerminal h
    | some target => exact h.cons (by simp)
  | _ => exact h

theorem FewTranslated.finishOpening {p : CourseProcess} (h : FewTranslated cfg p.tasks) :
    FewTranslated cfg (p.finishOpening cfg).tasks := by
  unfold CourseProcess.finishOpening
  split_ifs
  · exact FewTranslated.scheduleTerminal h
  · exact h
  · split <;> exact h

theorem FewTranslated.command {p : CourseProcess} (c : CourseCommand)
    (h : FewTranslated cfg p.tasks) (hkept : WellKept cfg p.state.toCourseRecord) :
    FewTranslated cfg (p.command c).tasks := by
  have hmanual : ∀ commandId, FewTranslated cfg (p.generateFinal commandId).tasks := by
    intro commandId
    unfold CourseProcess.generateFinal
    split_ifs <;> exact h
  cases c with
  | generateFinal commandId => exact hmanual commandId
  | retryFinal commandId =>
    simp only [CourseProcess.command]
    split_ifs
    · exact h
    · exact h
    · exact hmanual commandId
  | setLanguage language =>
    simp only [CourseProcess.command]
    split
    · exact h
    · split_ifs
      · apply h.cons
        rintro target notes heq
        obtain ⟨-, rfl⟩ := CourseTask.language.inj heq
        exact hkept.notes
      · exact h
  | selectVersion => exact h

section

variable {base : CourseRecord} {version : ℕ} {p p' : CourseProcess}

/-- The store, the writes and the memory are in order by what they show; all of them are kept whole;
what is stored or to be stored behind a change shows what the memory does; and no view that is under
way is ahead of what is stored. -/
structure Showing (cfg : CourseConfig) (base : CourseRecord) (version : ℕ) (p : CourseProcess) :
    Prop where
  order : InOrder ShowsMore base version p
  memory : WellKept cfg p.state.toCourseRecord
  writes : ∀ kind record expected, ⟨kind, .storing record expected⟩ ∈ p.operations →
    WellKept cfg record
  storing : ∀ kind record expected, kind.shows = true →
    ⟨kind, .storing record expected⟩ ∈ p.operations → ShowsMore p.state.toCourseRecord record
  stored : ∀ kind known, kind.shows = true → ⟨kind, .stored known⟩ ∈ p.operations →
    ShowsMore p.state.toCourseRecord base
  rows : ∀ kind row, ⟨kind, .publishing row⟩ ∈ p.operations → row.Behind base
  translated : FewTranslated cfg p.tasks

/-- What is new is to be stored as the memory is, or it is a view that is behind what is stored. -/
def Operation.Fresh (base : CourseRecord) (s : CourseState) (op : Operation) : Prop :=
  match op.stage with
  | .storing record _ => record = s.toDict
  | .stored _ => False
  | .publishing row => row.Behind base
  | .published => True

theorem Showing.next (h : Showing cfg base version p) (horder : InOrder ShowsMore base version p')
    (hmemory : WellKept cfg p'.state.toCourseRecord)
    (hsame : p.settled ∨ ShowsMore p'.state.toCourseRecord p.state.toCourseRecord)
    (hops : ∀ op ∈ p'.operations, op ∈ p.operations ∨ op.Fresh base p'.state)
    (htranslated : FewTranslated cfg p'.tasks) : Showing cfg base version p' := by
  refine ⟨horder, hmemory, ?_, ?_, ?_, ?_, htranslated⟩
  · intro kind record expected hmem
    rcases hops _ hmem with hold | hnew
    · exact h.writes kind record expected hold
    · have hrecord : record = p'.state.toDict := hnew
      rw [hrecord]
      exact hmemory.toDict
  · intro kind record expected hshows hmem
    rcases hops _ hmem with hold | hnew
    · rcases hsame with hsettled | hsame
      · exact absurd ((hsettled _ hold).symm.trans hshows) (by simp)
      · exact hsame.trans (h.storing kind record expected hshows hold)
    · have hrecord : record = p'.state.toDict := hnew
      rw [hrecord]
      exact KeepsDict.le_dict p'.state
  · intro kind known hshows hmem
    rcases hops _ hmem with hold | hnew
    · rcases hsame with hsettled | hsame
      · exact absurd ((hsettled _ hold).symm.trans hshows) (by simp)
      · exact hsame.trans (h.stored kind known hshows hold)
    · exact absurd hnew id
  · intro kind row hmem
    rcases hops _ hmem with hold | hnew
    · exact h.rows kind row hold
    · exact hnew

theorem Showing.goOn (h : Showing cfg base version p) (horder : InOrder ShowsMore base version p')
    (hrecord : p'.state.toCourseRecord = p.state.toCourseRecord)
    (hops : ∀ op ∈ p'.operations, op ∈ p.operations ∨ op.Fresh base p'.state)
    (htranslated : FewTranslated cfg p'.tasks) : Showing cfg base version p' := by
  refine h.next horder ?_ (Or.inr ?_) hops htranslated
  · rw [hrecord]
    exact h.memory
  · rw [hrecord]
    exact .refl _

theorem Showing.drop {operations : List Operation} (h : Showing cfg base version p)
    (hops : ∀ op ∈ operations, op ∈ p.operations) :
    Showing cfg base version { p with operations := operations } :=
  h.goOn (h.order.drop hops) rfl (fun op hop => Or.inl (hops op hop)) h.translated

theorem Showing.change {kind : OperationKind} (h : Showing cfg base version p)
    (horder : InOrder ShowsMore base version ((p.setRecord r).putState kind))
    (hmemory : WellKept cfg r)
    (hsame : p.settled ∨ ShowsMore r p.state.toCourseRecord) :
    Showing cfg base version ((p.setRecord r).putState kind) := by
  refine h.next horder hmemory hsame ?_ h.translated
  intro op hop
  rcases List.mem_cons.mp hop with rfl | hop
  · exact Or.inr rfl
  · exact Or.inl hop

theorem Showing.stores {kind : OperationKind} {record : CourseRecord}
    {before after : List Operation} (h : Showing cfg base version p)
    (hoperation : p.operations = before ++ ⟨kind, .storing record version⟩ :: after)
    (horder : InOrder ShowsMore record (version + 1)
      { p with operations := before ++ ⟨kind, .stored (version + 1)⟩ :: after }) :
    Showing cfg record (version + 1)
      { p with operations := before ++ ⟨kind, .stored (version + 1)⟩ :: after } := by
  have hmem : ⟨kind, .storing record version⟩ ∈ p.operations := by
    rw [hoperation]
    exact List.mem_append_right _ List.mem_cons_self
  have hold : ∀ op ∈ before ++ ⟨kind, .stored (version + 1)⟩ :: after,
      op ∈ p.operations ∨ op = ⟨kind, .stored (version + 1)⟩ :=
    fun _ => mem_or_eq_of_split hoperation
  have hbase : ShowsMore base record :=
    h.order.ordered.stored_write _ (List.mem_filterMap.mpr ⟨_, hmem, rfl⟩) rfl
  refine ⟨horder, h.memory, ?_, ?_, ?_, ?_, h.translated⟩
  · intro k r expected hop
    rcases hold _ hop with hop | heq
    · exact h.writes k r expected hop
    · cases heq
  · intro k r expected hshows hop
    rcases hold _ hop with hop | heq
    · exact h.storing k r expected hshows hop
    · cases heq
  · intro k known hshows hop
    rcases hold _ hop with hop | heq
    · exact (h.stored k known hshows hop).trans hbase
    · cases heq
      exact h.storing kind record version hshows hmem
  · intro k row hop
    rcases hold _ hop with hop | heq
    · exact (h.rows k row hop).mono hbase
    · cases heq

theorem Showing.opening {stored : Option CourseRecord} {afterSequence : ℤ}
    (hbase : WellKept cfg (stored.getD {}))
    (horder : InOrder ShowsMore (stored.getD {}) version
      (.opening cfg version stored afterSequence)) :
    Showing cfg (stored.getD {}) version (.opening cfg version stored afterSequence) := by
  have hrestored : (CourseProcess.opening cfg version stored afterSequence).state = _ :=
    restoredState_same version stored afterSequence hbase
  have hsame : SameDisplay (stored.getD {}) (CourseProcess.opening cfg version stored
      afterSequence).state.toCourseRecord := by
    rw [hrestored]
    exact ⟨rfl, rfl, rfl, rfl, rfl, rfl⟩
  have hrow : ∀ kind stage, (⟨kind, stage⟩ : Operation) ∈
      (CourseProcess.opening cfg version stored afterSequence).operations →
      ∃ row, stage = .publishing row ∧ row.Behind (stored.getD {}) := by
    intro kind stage hmem
    rcases List.mem_cons.mp hmem with heq | hmem
    · exact ⟨_, (Operation.mk.inj heq).2, hsame.showsMore'.behind⟩
    · cases hmem
  refine ⟨horder, ?_, ?_, ?_, ?_, ?_, fun target notes hmem => by cases hmem⟩
  · apply hbase.of_same hsame
    rw [hrestored]
    exact hbase.language.congr rfl rfl rfl
  · intro kind record expected hmem
    obtain ⟨row, heq, -⟩ := hrow _ _ hmem
    cases heq
  · intro kind record expected _ hmem
    obtain ⟨row, heq, -⟩ := hrow _ _ hmem
    cases heq
  · intro kind known _ hmem
    obtain ⟨row, heq, -⟩ := hrow _ _ hmem
    cases heq
  · intro kind row hmem
    obtain ⟨row', heq, hbehind⟩ := hrow _ _ hmem
    cases heq
    exact hbehind

end

/-- What is stored is kept whole, and neither the view of the host nor the session is ahead of it.
-/
structure ShownWorld (cfg : CourseConfig) (w : CourseWorld) : Prop where
  base : WellKept cfg w.base
  view : ∀ row, w.view = some row → row.Behind w.base
  process : ∀ p, w.process = some p → Showing cfg w.base w.version p

theorem Steady.moves {w w' : CourseWorld} {a : CourseAction} (h : ShownWorld cfg w)
    (hsteady : Steady cfg w a) (hstep : CourseSteps cfg w a w') : MemoryMoves ShowsMore w w' := by
  intro q hq
  cases hclosed : w.process with
  | none =>
    obtain ⟨afterSequence, hrecord⟩ := hstep.memory_of_closed hclosed hq
    rw [hrecord, restoredState_same _ _ _ h.base]
    exact ⟨le_rfl, fun _ => rfl⟩
  | some p =>
    have hp := h.process p hclosed
    rcases hstep.memory_cases hclosed hq with hsame | ⟨events, answer, rfl, hbatch⟩ |
        ⟨c, id, -, hrecord⟩ | ⟨task, outcome, left, rfl, htask, houtcome⟩ | ⟨rfl, hwindow, -⟩
    · rw [hsame]
      exact .refl _
    · obtain ⟨hlanguage, hwindow⟩ := hsteady p hclosed
      exact (eventBatch_unshown hp.memory.language hlanguage hwindow hbatch).same.showsMore
    · rw [hrecord]
      exact .of_lt (Int.lt_succ _)
    · have hversion := (outcome_shown houtcome hp.memory fun target notes heq =>
        hp.translated target notes (heq ▸ htask)).1
      exact .of_lt (hversion ▸ Int.lt_succ _)
    · exact absurd hwindow (hsteady p hclosed)

/-- Only the session moves. -/
theorem ShownWorld.goOn {w w' : CourseWorld} {p : CourseProcess} (h : ShownWorld cfg w)
    (hbase : w'.base = w.base) (hview : w'.view = w.view) (hprocess : w'.process = some p)
    (hp : Showing cfg w'.base w'.version p) : ShownWorld cfg w' := by
  refine ⟨hbase ▸ h.base, fun row hrow => ?_, fun q hq => ?_⟩
  · rw [hbase]
    exact h.view row (hview ▸ hrow)
  · obtain rfl := Option.some.inj (hprocess.symm.trans hq)
    exact hp

theorem ShownWorld.step {w w' : CourseWorld} {a : CourseAction} (h : ShownWorld cfg w)
    (hstep : Under (Steady cfg) (CourseSteps cfg) w a w') : ShownWorld cfg w' := by
  obtain ⟨hsteady, hstep⟩ := hstep
  have hmove := hsteady.moves h hstep
  have horder := hstep.inOrder (fun p hp => (h.process p hp).order) hmove
  cases hstep with
  | opening afterSequence hclosed hafter =>
    exact h.goOn rfl rfl rfl (.opening h.base (horder _ rfl))
  | batch events hprocess hopened hlock =>
    refine h.goOn rfl rfl rfl ?_
    have hp := h.process _ hprocess
    obtain ⟨hlanguage, hwindow⟩ := hsteady _ hprocess
    have hq' := horder _ rfl
    rcases CourseProcess.batch_cases cfg _ events with ⟨r, hraised, heq⟩ | ⟨-, heq⟩ |
        ⟨r, window, terminal, hchanged, heq⟩
    · rw [heq] at hq' ⊢
      have hsame := eventBatch_unshown hp.memory.language hlanguage hwindow (Or.inl hraised)
      exact hp.next hq' (hp.memory.of_same hsame.same hsame.kept) (Or.inr hsame.same.showsMore')
        (fun op hop => Or.inl hop) hp.translated
    · rw [heq]
      exact hp
    · rw [heq] at hq' ⊢
      have hsame := eventBatch_unshown hp.memory.language hlanguage hwindow
        (Or.inr ⟨window, terminal, hchanged⟩)
      exact hp.change hq' (hp.memory.of_same hsame.same hsame.kept) (Or.inr hsame.same.showsMore')
  | command c hprocess hopened =>
    refine h.goOn rfl rfl rfl ?_
    have hp := h.process _ hprocess
    have hq' := horder _ rfl
    have htranslated := hp.translated.command c hp.memory
    rename_i p
    rcases p.command_cases c with ⟨terminalJobId, kind, -, -, heq⟩ | ⟨hstate, hops⟩
    · have hstarts : p.starts c = true := by
        by_contra hnone
        have hops := (CourseProcess.command_same (Bool.eq_false_iff.mpr hnone)).2
        rw [heq] at hops
        exact List.cons_ne_self _ _ hops
      rw [heq] at hq' ⊢
      exact hp.change hq' (startFinal_wellKept terminalJobId hp.memory)
        (Or.inl (hsteady _ hprocess hstarts))
    · exact hp.goOn hq' (by rw [hstate]) (fun op hop => Or.inl (hops ▸ hop)) htranslated
  | outcome outcome hprocess hlock htask houtcome =>
    refine h.goOn rfl rfl rfl ?_
    have hp := h.process _ hprocess
    rename_i p task before after left r
    obtain ⟨-, hkept, hleft⟩ := outcome_shown houtcome hp.memory fun target notes heq =>
      hp.translated target notes (by simp [htask, heq])
    have htranslated : FewTranslated cfg (before ++ left.toList ++ after) := by
      intro target notes hmem
      apply hp.translated target notes
      rw [htask]
      rcases List.mem_append.mp hmem with hmem | hmem
      · rcases List.mem_append.mp hmem with hmem | hmem
        · exact List.mem_append_left _ hmem
        · exact absurd (Option.mem_toList.mp hmem) (hleft target notes)
      · exact List.mem_append_right _ (List.mem_cons_of_mem _ hmem)
    have hp' : Showing cfg w.base w.version { p with tasks := before ++ left.toList ++ after } :=
      hp.goOn (hp.order.congr rfl rfl) rfl (fun op hop => Or.inl hop) htranslated
    have hsettled : p.settled := hsteady p hprocess
    exact hp'.change (horder _ rfl) hkept (Or.inl hsettled)
  | advanced hprocess htask hnext =>
    refine h.goOn rfl rfl rfl ?_
    have hp := h.process _ hprocess
    refine hp.goOn (horder _ rfl) rfl (fun op hop => Or.inl hop) fun target notes hmem => ?_
    apply hp.translated target notes
    rw [htask]
    rcases List.mem_append.mp hmem with hmem | hmem
    · exact List.mem_append_left _ hmem
    · rcases List.mem_cons.mp hmem with heq | hmem
      · exact absurd (heq ▸ hnext) (CourseTask.next_ne_language _ _ target notes)
      · exact List.mem_append_right _ (List.mem_cons_of_mem _ hmem)
  | ended hprocess htask =>
    refine h.goOn rfl rfl rfl ?_
    have hp := h.process _ hprocess
    exact hp.goOn (horder _ rfl) rfl (fun op hop => Or.inl hop) fun target notes hmem =>
      hp.translated target notes (mem_of_split htask hmem)
  | stores hprocess hoperation =>
    have hp := h.process _ hprocess
    rename_i p kind record before after
    have hmem : ⟨kind, .storing record w.version⟩ ∈ p.operations := by
      rw [hoperation]
      exact List.mem_append_right _ List.mem_cons_self
    have hbase : ShowsMore w.base record :=
      hp.order.ordered.stored_write _ (List.mem_filterMap.mpr ⟨_, hmem, rfl⟩) rfl
    refine ⟨hp.writes kind record w.version hmem, fun row hrow => (h.view row hrow).mono hbase,
      fun q hq => ?_⟩
    obtain rfl := Option.some.inj hq
    exact hp.stores hoperation (horder _ rfl)
  | refuses hprocess hoperation | loses hprocess hoperation | rejects hprocess hoperation =>
    refine h.goOn rfl rfl rfl ?_
    exact (h.process _ hprocess).drop fun op hop => mem_of_split hoperation hop
  | resumes hprocess hoperation =>
    refine h.goOn rfl rfl rfl ?_
    rename_i p kind known before after
    have hp := h.process _ hprocess
    have hdrop := hp.drop fun op hop => mem_of_split hoperation hop
    refine hdrop.goOn (horder _ rfl) (resume_record _ _ _) ?_ (hdrop.translated.resume kind known)
    intro op hop
    rcases CourseProcess.resume_shows { p with operations := before ++ after } kind known with
      hops | ⟨hshows, hops⟩
    · rw [hops] at hop
      exact Or.inl hop
    · rw [hops] at hop
      rcases List.mem_cons.mp hop with rfl | hop
      · right
        apply ShowsMore.behind
        apply hp.stored kind known hshows
        rw [hoperation]
        exact List.mem_append_right _ List.mem_cons_self
      · exact Or.inl hop
  | publishes hprocess hoperation haccepts =>
    rename_i p kind row before after
    have hp := h.process _ hprocess
    refine ⟨h.base, fun row' hrow => ?_, fun q hq => ?_⟩
    · obtain rfl := Option.some.inj hrow
      apply hp.rows kind
      rw [hoperation]
      exact List.mem_append_right _ List.mem_cons_self
    · obtain rfl := Option.some.inj hq
      have hdrop := hp.drop fun op hop => mem_of_split hoperation hop
      refine hdrop.goOn (horder _ rfl) ?_ ?_ (hdrop.translated.finishPublishing kind)
      · rw [finishPublishing_state]
      · intro op hop
        rcases finishPublishing_operations { p with operations := before ++ after } kind with
          hops | ⟨-, hops⟩
        · rw [hops] at hop
          exact Or.inl hop
        · rw [hops] at hop
          rcases List.mem_cons.mp hop with rfl | hop
          · exact Or.inr trivial
          · exact Or.inl hop
  | opened hprocess hoperation =>
    refine h.goOn rfl rfl rfl ?_
    rename_i p before after
    have hdrop := (h.process _ hprocess).drop fun op hop => mem_of_split hoperation hop
    rcases CourseProcess.finishOpening_cases cfg { p with operations := before ++ after } with
      ⟨hwindow, -⟩ | ⟨hstate, hops⟩
    · exact absurd hwindow (hsteady p hprocess)
    · exact hdrop.goOn (horder _ rfl) (by rw [hstate]) (fun op hop => Or.inl (hops ▸ hop))
        hdrop.translated.finishOpening
  | crashed => exact ⟨h.base, h.view, fun q hq => by cases hq⟩

theorem ShownWorld.initial (cfg : CourseConfig) : ShownWorld cfg {} :=
  ⟨.initial cfg, fun _ hrow => (nomatch hrow), fun _ hp => (nomatch hp)⟩

/-- A session that is opened again, with a cursor that is stored, has what is stored, and its view
is one that the host accepts. -/
def CourseWorld.Reopenable (cfg : CourseConfig) (w : CourseWorld) : Prop :=
  ∀ afterSequence, 0 ≤ afterSequence → afterSequence ≤ w.base.lastSequence →
    (CourseProcess.opening cfg w.version w.stored afterSequence).state =
      { w.base with stateVersion := w.version } ∧
    ∀ kind row, ⟨kind, .publishing row⟩ ∈
      (CourseProcess.opening cfg w.version w.stored afterSequence).operations →
        ViewRow.accepts w.view row = true

theorem ShownWorld.reopenable {w : CourseWorld} (h : ShownWorld cfg w) : w.Reopenable cfg := by
  intro afterSequence _ hafter
  have hstate : (CourseProcess.opening cfg w.version w.stored afterSequence).state =
      { w.base with stateVersion := w.version } := by
    have hrestored := restoredState_same w.version w.stored afterSequence h.base
    rw [show w.stored.getD {} = w.base from rfl, max_eq_left hafter] at hrestored
    exact hrestored
  refine ⟨hstate, fun kind row hmem => ?_⟩
  rcases List.mem_cons.mp hmem with heq | hmem
  · obtain rfl := OperationStage.publishing.inj (Operation.mk.inj heq).2
    have hrow : (⟨(CourseProcess.opening cfg w.version w.stored afterSequence).state.viewVersion,
        (CourseProcess.opening cfg w.version w.stored afterSequence).state.view⟩ : ViewRow) =
        ⟨w.base.viewVersion, w.base.view⟩ := by
      rw [hstate]
    exact (congrArg (ViewRow.accepts w.view) hrow).trans (ViewRow.Behind.accepts h.view)
  · cases hmem

/-- Where a run is steady, the session can be opened again in every state that is reached. -/
theorem session_reopenable {actions : List CourseAction} {w : CourseWorld}
    (hrun : Run (Under (Steady cfg) (CourseSteps cfg)) {} actions w) : w.Reopenable cfg := by
  have hshown : ShownWorld cfg w :=
    hrun.invariant (fun _ _ _ h hstep => ShownWorld.step h hstep) (ShownWorld.initial cfg)
  exact hshown.reopenable

/-- The final document is asked for, and the session crashes once the state is stored, before the
view is published: the host has the state of version two and the view of version one. -/
theorem lecture_reopenable :
    ∃ w, Run (Under (Steady lectureConfig) (CourseSteps lectureConfig)) {}
        [.opening 0, .publishes .opening, .opened, .command (.generateFinal "job"),
          .stores (.command (some ("job", "zh-CN"))), .crashed] w ∧
      w.base.viewVersion = 2 ∧ w.view = some lectureView ∧ w.Reopenable lectureConfig := by
  have hopened : ∀ p, (lectureOpened [] {}).process = some p →
      p.starts (.generateFinal "job") = true → p.settled := by
    intro p hp _ op hop
    obtain rfl := Option.some.inj hp
    cases hop
  have hwindow : ∀ p, some ({ lecturePublished with operations := [⟨.opening, .published⟩] } :
      CourseProcess) = some p → ¬ OpensWindow lectureConfig p.state.toCourseRecord := by
    intro p hp hopens
    obtain rfl := Option.some.inj hp
    exact hopens.2.1 rfl
  have hrun : Run (Under (Steady lectureConfig) (CourseSteps lectureConfig)) {}
      [.opening 0, .publishes .opening, .opened, .command (.generateFinal "job"),
        .stores (.command (some ("job", "zh-CN"))), .crashed] _ :=
    .more ⟨trivial, .opening 0 rfl le_rfl⟩ <|
      .more ⟨trivial, .publishes rfl (rfl : _ = [] ++ _ :: []) rfl⟩ <|
        .more (t := lectureOpened [] {}) ⟨hwindow, .opened (p := lecturePublished) rfl
          (rfl : _ = [] ++ _ :: [])⟩ <|
          .more ⟨hopened, .command (.generateFinal "job") rfl rfl⟩ <|
            .more ⟨trivial, .stores rfl (rfl : _ = [] ++ _ :: [])⟩ <|
              .single ⟨trivial, .crashed⟩
  exact ⟨_, hrun, rfl, rfl, session_reopenable hrun⟩

/-- A caption in another language changes what is shown, which is stored under the version of the
view that the host has: when the session is opened again, its view is refused. -/
theorem lecture_not_reopenable :
    ∃ w, Run (CourseSteps lectureConfig) {}
        ([.opening 0, .publishes .opening, .opened] ++
          [.batch [lectureEvent] none, .stores (.batch none false), .crashed]) w ∧
      w.stored = some lectureRecord ∧ w.view = some lectureView ∧
      ¬ w.Reopenable lectureConfig := by
  have hrun : Run (CourseSteps lectureConfig) (lectureOpened [] {})
      [.batch [lectureEvent] none, .stores (.batch none false), .crashed] _ :=
    .more lectureBatch_step <|
      .more (.stores rfl (rfl : _ = [] ++ _ :: [])) <| .single .crashed
  refine ⟨_, lectureOpened_run.forget.append hrun, rfl, rfl, fun hreopens => ?_⟩
  have hrefused := (hreopens 1 (by decide) (by decide)).2 _ _ List.mem_cons_self
  exact absurd hrefused (by decide +kernel)

end CourseOrganizer
end Matinier
