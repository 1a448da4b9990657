import Matinier.CourseOrganizer.Reopening

/-!
# Versions of the stored state

A session sends its state to be stored at the version that it was told of last, and it is told of a
version only by the answer to a put. An answer may be lost behind a put that was taken. Where no put
is begun beside one whose answer is outstanding or lost, and none is taken beside another, every put
that is under way is at the version of the host, and nothing is written over by what is older.
-/

namespace Matinier
namespace CourseOrganizer

open Plugins (JsonEntries)

variable {cfg : CourseConfig} {r r' : CourseRecord}

/-- A state has what another has come to: its cursor, its captions, the windows that were merged
into its notes, its view, its language if that was asked for, and its history as far as it is
kept. -/
structure BuildsOn (r r' : CourseRecord) : Prop where
  takes : TakesMore r r'
  windows : r.notes.windows <:+ r'.notes.windows
  viewVersion : r.viewVersion ≤ r'.viewVersion
  explicit : r.languageExplicit = true → r'.languageExplicit = true
  history : ∃ later, lastItems 50 r'.history = lastItems 50 (r.history ++ later)

theorem lastItems_append {α : Type} (n : ℕ) (l later : List α) :
    lastItems n (lastItems n l ++ later) = lastItems n (l ++ later) := by
  have hdrop : lastItems n l ++ later = (l ++ later).drop (l.length - n) := by
    rw [lastItems, List.drop_append_of_le_length (Nat.sub_le _ _)]
  rw [hdrop, lastItems, lastItems, List.drop_drop]
  congr 1
  simp only [List.length_drop, List.length_append]
  omega

theorem lastItems_lastItems {α : Type} (n : ℕ) (l : List α) :
    lastItems n (lastItems n l) = lastItems n l := by
  have h := lastItems_append n l []
  rwa [List.append_nil, List.append_nil] at h

namespace BuildsOn

theorem refl (r : CourseRecord) : BuildsOn r r :=
  ⟨.refl r, List.suffix_rfl, le_rfl, id, [], by rw [List.append_nil]⟩

theorem trans {r'' : CourseRecord} (h : BuildsOn r r') (h' : BuildsOn r' r'') : BuildsOn r r'' := by
  refine ⟨IsTrans.trans _ _ _ h.takes h'.takes, h.windows.trans h'.windows,
    h.viewVersion.trans h'.viewVersion, h'.explicit ∘ h.explicit, ?_⟩
  obtain ⟨later, hlater⟩ := h.history
  obtain ⟨later', hlater'⟩ := h'.history
  refine ⟨later ++ later', ?_⟩
  rw [hlater', ← lastItems_append, hlater, lastItems_append, List.append_assoc]

instance : IsPreorder CourseRecord BuildsOn where
  refl := BuildsOn.refl
  trans _ _ _ := BuildsOn.trans

theorem of_takes (h : TakesMore r r') (hnotes : r'.notes = r.notes)
    (hview : r'.viewVersion = r.viewVersion) (hexplicit : r'.languageExplicit = r.languageExplicit)
    (hhistory : r'.history = r.history) : BuildsOn r r' :=
  ⟨h, hnotes ▸ List.suffix_rfl, hview.ge, hexplicit.trans, [],
    by rw [hhistory, List.append_nil]⟩

instance : KeepsDict BuildsOn where
  dict_le s := ⟨KeepsDict.dict_le s, List.suffix_rfl, le_rfl, id, [], by
    rw [List.append_nil, CourseState.toDict, lastItems_lastItems]⟩
  le_dict s := ⟨KeepsDict.le_dict s, List.suffix_rfl, le_rfl, id, [], by
    rw [List.append_nil, CourseState.toDict, lastItems_lastItems]⟩

theorem restored (version : ℕ) (stored : Option CourseRecord) (afterSequence : ℤ) :
    BuildsOn (stored.getD {})
      (restoredState cfg.toRealtimeConfig version stored afterSequence).toCourseRecord := by
  cases stored with
  | none => exact .of_takes (.of_same (le_max_left _ _) rfl rfl) rfl rfl rfl rfl
  | some record =>
    refine ⟨.of_same (le_max_left _ _) rfl rfl, List.suffix_rfl, le_max_right _ _, id, [], ?_⟩
    rw [List.append_nil]
    exact lastItems_lastItems 50 record.history

end BuildsOn

theorem observeLanguage_rest (item : PendingEvent) (r : CourseRecord) :
    (r.observeLanguage item).viewVersion = r.viewVersion ∧
      (r.observeLanguage item).languageExplicit = r.languageExplicit ∧
      (r.observeLanguage item).history = r.history := by
  unfold CourseRecord.observeLanguage
  split_ifs <;> exact ⟨rfl, rfl, rfl⟩

theorem noteTerminal_rest (cfg : CourseConfig) (trigger : String) (r : CourseRecord) :
    (r.noteTerminal cfg trigger).viewVersion = r.viewVersion ∧
      (r.noteTerminal cfg trigger).languageExplicit = r.languageExplicit ∧
      (r.noteTerminal cfg trigger).history = r.history := by
  unfold CourseRecord.noteTerminal
  split_ifs <;> exact ⟨rfl, rfl, rfl⟩

theorem noteTerminal_buildsOn (cfg : CourseConfig) (trigger : String) (r : CourseRecord) :
    BuildsOn r (r.noteTerminal cfg trigger) := by
  obtain ⟨hlast, hpending, hnotes⟩ := noteTerminal_same cfg trigger r
  obtain ⟨hview, hexplicit, hhistory⟩ := noteTerminal_rest cfg trigger r
  exact .of_takes (.of_same hlast.ge hpending (congrArg CourseNotes.windows hnotes)) hnotes hview
    hexplicit hhistory

theorem observeLanguage_buildsOn (item : PendingEvent) (r : CourseRecord) :
    BuildsOn r (r.observeLanguage item) := by
  obtain ⟨hlast, hpending, hnotes⟩ := observeLanguage_same item r
  obtain ⟨hview, hexplicit, hhistory⟩ := observeLanguage_rest item r
  exact .of_takes (.of_same hlast.ge hpending (congrArg CourseNotes.windows hnotes)) hnotes hview
    hexplicit hhistory

/-- An event that is taken in builds on what there is, also where it raises. -/
theorem takeEvent_buildsOn (cfg : CourseConfig) (terminalTask : Bool) (sequence : ℤ)
    (entries : JsonEntries) (b : BatchProgress) :
    BuildsOn b.record (takeEvent cfg terminalTask sequence entries b).1.record := by
  unfold takeEvent
  split_ifs with hold
  · exact .refl _
  · have hmoved : BuildsOn b.record { b.record with lastSequence := sequence } :=
      .of_takes (.of_same (not_le.mp hold).le rfl rfl) rfl rfl rfl rfl
    simp only
    split
    · split_ifs
      · split
        · exact hmoved
        · rename_i item _
          have hmerged : BuildsOn { b.record with lastSequence := sequence }
              { b.record with
                lastSequence := sequence
                pending := mergePending item b.record.pending } := by
            refine .of_takes ⟨le_rfl, fun e he => he.imp ?_ id⟩ rfl rfl rfl rfl
            rintro ⟨p, hp, hsupersedes⟩
            obtain ⟨q, hq, hqp⟩ := mergePending_old item hp
            exact ⟨q, hq, hqp.trans hsupersedes⟩
          exact (hmoved.trans hmerged).trans (observeLanguage_buildsOn item _)
      · split
        · exact hmoved.trans (noteTerminal_buildsOn cfg _ _)
        · exact hmoved
    · exact hmoved

theorem takeEvents_buildsOn (cfg : CourseConfig) (terminalTask : Bool)
    (l : List (ℤ × JsonEntries)) (b : BatchProgress) :
    BuildsOn b.record (takeEvents cfg terminalTask l b).1.record := by
  induction l generalizing b with
  | nil => exact .refl _
  | cons entry l ih =>
    have hstep := takeEvent_buildsOn cfg terminalTask entry.1 entry.2 b
    rw [takeEvents]
    cases htake : takeEvent cfg terminalTask entry.1 entry.2 b with
    | mk b' raised =>
      rw [htake] at hstep
      cases raised with
      | true => exact hstep
      | false => exact hstep.trans (ih b')

theorem eventBatch_buildsOn {background terminalTask : Bool} {events : List JsonValue}
    (h : eventBatch cfg background terminalTask events r = .raised r' ∨
      ∃ window terminal, eventBatch cfg background terminalTask events r =
        .changed r' window terminal) : BuildsOn r r' := by
  unfold eventBatch at h
  split at h
  · rcases h with h | ⟨window, terminal, h⟩
    · cases h
      exact .refl _
    · cases h
  · rename_i sorted _
    have htakes := takeEvents_buildsOn cfg terminalTask sorted { record := r }
    split at h
    · rename_i b hb
      rw [hb] at htakes
      rcases h with h | ⟨window, terminal, h⟩
      · cases h
        exact htakes
      · cases h
    · rename_i b hb
      rw [hb] at htakes
      have hprocessing : BuildsOn r { b.record with status := .processing } :=
        htakes.trans (.of_takes (.of_same le_rfl rfl rfl) rfl rfl rfl rfl)
      split_ifs at h
      · rcases h with h | ⟨window, terminal, h⟩ <;> cases h
      · rcases h with h | ⟨window, terminal, h⟩
        · cases h
        · cases h
          exact htakes
      · split at h
        · rcases h with h | ⟨window, terminal, h⟩
          · cases h
            exact htakes
          · cases h
        · rcases h with h | ⟨window, terminal, h⟩
          · split_ifs at h
          · split_ifs at h
            · cases h
              exact hprocessing
            · cases h
              exact htakes

theorem commitWindow_buildsOn (snapshot : List PendingEvent) (notes : List RealtimeNote)
    (status : CourseStatus) (replaceIds : List String) (r : CourseRecord) :
    BuildsOn r (r.commitWindow cfg snapshot notes status replaceIds) :=
  ⟨commitWindow_takesMore snapshot notes status replaceIds r, List.suffix_cons _ _,
    (Int.lt_succ _).le, id, [], by rw [List.append_nil]; rfl⟩

/-- What a task comes to builds on what there is, if a translation is of the notes that there are.
-/
theorem outcome_buildsOn {task : CourseTask} {outcome : TaskOutcome} {left : Option CourseTask}
    (h : task.outcome cfg r outcome = some (left, r'))
    (hlanguage : ∀ target notes, task = .language target notes →
      notes.windows = r.notes.windows) : BuildsOn r r' := by
  have hnext : r.viewVersion ≤ r.viewVersion + 1 := (Int.lt_succ _).le
  unfold CourseTask.outcome at h
  split at h
  · cases h
    exact commitWindow_buildsOn _ _ _ _ _
  · cases h
    exact commitWindow_buildsOn _ _ _ _ _
  · cases h
    exact commitWindow_buildsOn _ _ _ _ _
  · split_ifs at h
    cases h
    have hwindows := hlanguage _ _ rfl
    exact ⟨.of_same le_rfl rfl hwindows, hwindows ▸ List.suffix_rfl, hnext, fun _ => rfl, [],
      by rw [List.append_nil]; rfl⟩
  · cases h
    exact ⟨.of_same le_rfl rfl rfl, List.suffix_rfl, hnext, id, [], by rw [List.append_nil]; rfl⟩
  · cases h
    rename_i entry markdown
    exact ⟨.of_same le_rfl rfl rfl, List.suffix_rfl, hnext, id, [entry], lastItems_lastItems 50 _⟩
  · cases h

/-- The put was taken, and its answer is outstanding. -/
def Operation.unanswered : Operation → Bool
  | ⟨_, .stored _⟩ => true
  | _ => false

/-- The put is still to be taken, or its answer is outstanding. -/
def Operation.isPut : Operation → Bool
  | ⟨_, .storing _ _⟩ => true
  | op => op.unanswered

namespace CourseProcess

def answered (p : CourseProcess) : Bool := p.operations.all fun op => !op.unanswered

theorem answered_drop {p : CourseProcess} {op : Operation} {before after : List Operation}
    (hoperation : p.operations = before ++ op :: after) (h : p.answered = true) :
    ({ p with operations := before ++ after } : CourseProcess).answered = true := by
  simp only [answered, hoperation, List.all_append, List.all_cons, Bool.and_eq_true] at h ⊢
  exact ⟨h.1, h.2.2⟩

def Puts (cfg : CourseConfig) (p : CourseProcess) : CourseAction → Prop
  | .batch events _ => ∃ r window terminal, eventBatch cfg (p.tasks.any CourseTask.isBackground)
      p.terminalTask events p.state.toCourseRecord = .changed r window terminal
  | .command command => p.starts command = true
  | .outcome _ _ => True
  | .opened => OpensWindow cfg p.state.toCourseRecord
  | _ => False

/-- No put is begun while the answer to one is outstanding or lost, none is taken beside another,
and a translation is of the notes that there are. -/
structure Orderly (cfg : CourseConfig) (lost : Bool) (p : CourseProcess) (a : CourseAction) :
    Prop where
  puts : p.Puts cfg a → lost = false ∧ p.answered = true
  alone : ∀ kind, a = .stores kind → p.operations.countP Operation.isPut ≤ 1
  translated : ∀ target notes outcome, a = .outcome (.language target notes) outcome →
    notes.windows = p.state.notes.windows

end CourseProcess

def CourseWorld.Orderly (cfg : CourseConfig) (w : CourseWorld) (a : CourseAction) : Prop :=
  ∀ p, w.process = some p → p.Orderly cfg w.lost a

/-- Every put that is under way is at the version of the host, and so is the memory where no answer
is outstanding or lost. -/
structure Current (version : ℕ) (lost : Bool) (p : CourseProcess) : Prop where
  storing : ∀ kind record expected, ⟨kind, .storing record expected⟩ ∈ p.operations →
    expected = version
  stored : ∀ kind known, ⟨kind, .stored known⟩ ∈ p.operations → known = version
  behind : p.state.stateVersion ≤ version
  told : lost = false → p.answered = true → p.state.stateVersion = version

namespace Current

variable {version : ℕ} {lost : Bool} {p p' : CourseProcess} {kind : OperationKind}

/-- The memory has the version that it had, and nothing is new that is a put. -/
theorem goOn (h : Current version lost p) (hstate : p'.state.stateVersion = p.state.stateVersion)
    (hops : ∀ op ∈ p'.operations, op.isPut = true → op ∈ p.operations)
    (hanswered : p'.answered = true → p.answered = true) : Current version lost p' where
  storing kind record expected hmem := h.storing kind record expected (hops _ hmem rfl)
  stored kind known hmem := h.stored kind known (hops _ hmem rfl)
  behind := hstate.trans_le h.behind
  told hlost hanswer := hstate.trans (h.told hlost (hanswered hanswer))

theorem congr (h : Current version lost p) (hstate : p'.state = p.state)
    (hoperations : p'.operations = p.operations) : Current version lost p' := by
  apply h.goOn
  · rw [hstate]
  · intro op hop _
    rwa [← hoperations]
  · intro hanswer
    unfold CourseProcess.answered at hanswer ⊢
    rwa [← hoperations]

/-- The state is sent to be stored while no answer is outstanding or lost. -/
theorem putState (h : Current version lost p) (hputs : lost = false ∧ p.answered = true) :
    Current version lost (p.putState kind) where
  storing k record expected hmem := by
    rcases List.mem_cons.mp hmem with heq | hmem
    · cases heq
      exact h.told hputs.1 hputs.2
    · exact h.storing k record expected hmem
  stored k known hmem := by
    rcases List.mem_cons.mp hmem with heq | hmem
    · cases heq
    · exact h.stored k known hmem
  behind := h.behind
  told _ _ := h.told hputs.1 hputs.2

theorem drop {op : Operation} {before after : List Operation} (h : Current version lost p)
    (hoperation : p.operations = before ++ op :: after) (hop : op.unanswered = false) :
    Current version lost { p with operations := before ++ after } := by
  apply h.goOn
  · rfl
  · intro op' hop' _
    exact mem_of_split hoperation hop'
  · intro hanswer
    simp only [CourseProcess.answered, List.all_append, Bool.and_eq_true] at hanswer
    simp only [CourseProcess.answered, hoperation, List.all_append, List.all_cons, hop, hanswer,
      Bool.not_false, Bool.and_self]

theorem loses {known : ℕ} {before after : List Operation} (h : Current version lost p)
    (hoperation : p.operations = before ++ ⟨kind, .stored known⟩ :: after) :
    Current version true { p with operations := before ++ after } where
  storing k record expected hmem := h.storing k record expected (mem_of_split hoperation hmem)
  stored k known' hmem := h.stored k known' (mem_of_split hoperation hmem)
  behind := h.behind
  told hlost := absurd hlost (by simp)

theorem stores {record : CourseRecord} {before after : List Operation}
    (h : Current version lost p)
    (hoperation : p.operations = before ++ ⟨kind, .storing record version⟩ :: after)
    (halone : p.operations.countP Operation.isPut ≤ 1) :
    Current (version + 1) lost
      { p with operations := before ++ ⟨kind, .stored (version + 1)⟩ :: after } := by
  have hothers : ∀ op ∈ before ++ after, op.isPut = false := by
    have hput : (⟨kind, .storing record version⟩ : Operation).isPut = true := rfl
    rw [hoperation, List.countP_append, List.countP_cons, if_pos hput] at halone
    have hnone : (before ++ after).countP Operation.isPut = 0 := by
      rw [List.countP_append]
      omega
    intro op hop
    simpa using List.countP_eq_zero.mp hnone op hop
  have hputs : ∀ op ∈ before ++ ⟨kind, .stored (version + 1)⟩ :: after, op.isPut = true →
      op = ⟨kind, .stored (version + 1)⟩ := by
    intro op hop hput
    by_contra hne
    have hop' : op ∈ before ++ after := by
      rcases List.mem_append.mp hop with hop | hop
      · exact List.mem_append_left _ hop
      · exact List.mem_append_right _ ((List.mem_cons.mp hop).resolve_left hne)
    exact absurd (hput.symm.trans (hothers op hop')) (by simp)
  refine ⟨fun k record' expected hmem => ?_, fun k known hmem => ?_, Nat.le_succ_of_le h.behind,
    fun _ hanswer => ?_⟩
  · cases hputs _ hmem rfl
  · cases hputs _ hmem rfl
    rfl
  · simp [CourseProcess.answered, Operation.unanswered] at hanswer

end Current

theorem resume_stateVersion (p : CourseProcess) (kind : OperationKind) (version : ℕ) :
    (p.resume kind version).1.state.stateVersion = max p.state.stateVersion version := by
  have hterminal : ∀ q : CourseProcess, q.scheduleTerminal.state = q.state := by
    intro q
    unfold CourseProcess.scheduleTerminal
    split_ifs <;> rfl
  have hschedule : ∀ (q : CourseProcess) window, (q.schedule window).state = q.state := by
    intro q window
    cases window <;> rfl
  unfold CourseProcess.resume
  split_ifs with hold
  · exact (max_eq_left hold).symm
  · have hnew := max_eq_right (not_le.mp hold).le
    cases kind with
    | batch window terminal =>
      cases terminal with
      | true => simp only [if_true, hterminal, hschedule, hnew]
      | false => simp only [Bool.false_eq_true, if_false, hschedule, hnew]
    | opening => simp only [hschedule, hnew]
    | change => exact hnew.symm
    | command manual => exact hnew.symm

theorem Current.resume {version known : ℕ} {lost : Bool} {p : CourseProcess} {kind : OperationKind}
    {before after : List Operation} (h : Current version lost p)
    (hoperation : p.operations = before ++ ⟨kind, .stored known⟩ :: after) :
    Current version lost
      (({ p with operations := before ++ after } : CourseProcess).resume kind known).1 := by
  obtain rfl : known = version := by
    apply h.stored kind
    rw [hoperation]
    exact List.mem_append_right _ List.mem_cons_self
  have hversion := resume_stateVersion { p with operations := before ++ after } kind known
  have hops : ∀ op ∈ (({ p with operations := before ++ after } : CourseProcess).resume kind
      known).1.operations, op.isPut = true → op ∈ p.operations := by
    intro op hop hput
    rcases resume_operations { p with operations := before ++ after } kind known with
      heq | ⟨-, heq⟩
    · rw [heq] at hop
      exact mem_of_split hoperation hop
    · rw [heq] at hop
      rcases List.mem_cons.mp hop with rfl | hop
      · cases hput
      · exact mem_of_split hoperation hop
  have hmax : max p.state.stateVersion known = known := max_eq_right h.behind
  exact ⟨fun k record expected hmem => h.storing k record expected (hops _ hmem rfl),
    fun k known' hmem => h.stored k known' (hops _ hmem rfl), (hversion.trans hmax).le,
    fun _ _ => hversion.trans hmax⟩

theorem Current.finishPublishing {version : ℕ} {lost : Bool} {p : CourseProcess}
    (kind : OperationKind) (h : Current version lost p) :
    Current version lost (p.finishPublishing kind) := by
  rcases finishPublishing_operations p kind with hops | ⟨-, hops⟩
  · exact h.congr (finishPublishing_state p kind) hops
  · apply h.goOn
    · rw [finishPublishing_state]
    · intro op hop hput
      rw [hops] at hop
      rcases List.mem_cons.mp hop with rfl | hop
      · cases hput
      · exact hop
    · intro hanswer
      rw [CourseProcess.answered, hops, List.all_cons] at hanswer
      exact hanswer

/-- A command that starts nothing is the only one that sends no state. -/
theorem Current.command {version : ℕ} {lost : Bool} {p : CourseProcess} {c : CourseCommand}
    (h : Current version lost p) (hputs : p.starts c = true → lost = false ∧ p.answered = true) :
    Current version lost (p.command c) := by
  cases hstarts : p.starts c with
  | true =>
    rcases CourseProcess.command_cases p c with ⟨terminalJobId, kind, -, -, heq⟩ | ⟨hstate, hops⟩
    · rw [heq]
      have hset : Current version lost (p.setRecord (p.state.startFinal terminalJobId)) :=
        ⟨h.storing, h.stored, h.behind, h.told⟩
      exact hset.putState (hputs hstarts)
    · exact h.congr hstate hops
  | false =>
    obtain ⟨hstate, hops⟩ := CourseProcess.command_same hstarts
    exact h.congr hstate hops

structure OrderlyWorld (w : CourseWorld) : Prop where
  order : ∀ p, w.process = some p → InOrder BuildsOn w.base w.version p
  current : ∀ p, w.process = some p → Current w.version w.lost p

/-- An orderly step moves the memory to where it builds on what it was. -/
theorem CourseWorld.Orderly.moves {w w' : CourseWorld} {a : CourseAction}
    (horderly : w.Orderly cfg a) (hstep : CourseSteps cfg w a w') : MemoryMoves BuildsOn w w' := by
  intro q hq
  cases hclosed : w.process with
  | none =>
    obtain ⟨afterSequence, hrecord⟩ := hstep.memory_of_closed hclosed hq
    rw [hrecord]
    exact .restored _ _ _
  | some p =>
    rcases hstep.memory_cases hclosed hq with hsame | ⟨events, answer, rfl, hbatch⟩ |
        ⟨c, terminalJobId, -, hrecord⟩ | ⟨task, outcome, left, rfl, -, houtcome⟩ | ⟨-, -, hrecord⟩
    · rw [hsame]
      exact .refl _
    · exact eventBatch_buildsOn hbatch
    · rw [hrecord]
      exact ⟨.of_same le_rfl rfl rfl, List.suffix_rfl, (Int.lt_succ _).le, id, [],
        by rw [List.append_nil]; rfl⟩
    · apply outcome_buildsOn houtcome
      rintro target notes rfl
      exact (horderly p hclosed).translated target notes outcome rfl
    · rw [hrecord]
      exact .of_takes (.of_same le_rfl rfl rfl) rfl rfl rfl rfl

theorem Current.step {w w' : CourseWorld} {a : CourseAction}
    (h : ∀ p, w.process = some p → Current w.version w.lost p) (horderly : w.Orderly cfg a)
    (hstep : CourseSteps cfg w a w') :
    ∀ p, w'.process = some p → Current w'.version w'.lost p := by
  intro q hq
  cases hstep with
  | opening afterSequence hclosed hafter =>
    obtain rfl := Option.some.inj hq
    have hversion : (CourseProcess.opening cfg w.version w.stored
      afterSequence).state.stateVersion =
        w.version := by
      cases hstored : w.stored <;> rfl
    refine ⟨fun kind record expected hmem => ?_, fun kind known hmem => ?_, hversion.le,
      fun _ _ => hversion⟩
    · rcases List.mem_cons.mp hmem with heq | hmem
      · cases heq
      · cases hmem
    · rcases List.mem_cons.mp hmem with heq | hmem
      · cases heq
      · cases hmem
  | batch events hprocess hopened hlock =>
    obtain rfl := Option.some.inj hq
    have hp := h _ hprocess
    rcases CourseProcess.batch_cases cfg _ events with ⟨r, -, heq⟩ | ⟨-, heq⟩ |
        ⟨r, window, terminal, hchanged, heq⟩
    · rw [heq]
      exact ⟨hp.storing, hp.stored, hp.behind, hp.told⟩
    · rw [heq]
      exact hp
    · rw [heq]
      exact Current.putState ⟨hp.storing, hp.stored, hp.behind, hp.told⟩
        ((horderly _ hprocess).puts ⟨r, window, terminal, hchanged⟩)
  | command c hprocess hopened =>
    obtain rfl := Option.some.inj hq
    exact (h _ hprocess).command (horderly _ hprocess).puts
  | outcome outcome hprocess hlock htask houtcome =>
    obtain rfl := Option.some.inj hq
    have hp := h _ hprocess
    exact Current.putState ⟨hp.storing, hp.stored, hp.behind, hp.told⟩
      ((horderly _ hprocess).puts trivial)
  | advanced hprocess | ended hprocess =>
    obtain rfl := Option.some.inj hq
    exact (h _ hprocess).congr rfl rfl
  | stores hprocess hoperation =>
    obtain rfl := Option.some.inj hq
    exact (h _ hprocess).stores hoperation ((horderly _ hprocess).alone _ rfl)
  | refuses hprocess hoperation | rejects hprocess hoperation =>
    obtain rfl := Option.some.inj hq
    exact (h _ hprocess).drop hoperation rfl
  | loses hprocess hoperation =>
    obtain rfl := Option.some.inj hq
    exact (h _ hprocess).loses hoperation
  | resumes hprocess hoperation =>
    obtain rfl := Option.some.inj hq
    exact (h _ hprocess).resume hoperation
  | publishes hprocess hoperation haccepts =>
    obtain rfl := Option.some.inj hq
    exact ((h _ hprocess).drop hoperation rfl).finishPublishing _
  | opened hprocess hoperation =>
    obtain rfl := Option.some.inj hq
    have hp := (h _ hprocess).drop hoperation rfl
    rename_i p before after
    rcases CourseProcess.finishOpening_cases cfg { p with operations := before ++ after } with
      ⟨hwindow, heq⟩ | ⟨hstate, hops⟩
    · rw [heq]
      obtain ⟨hlost, hanswered⟩ := (horderly p hprocess).puts hwindow
      exact Current.putState ⟨hp.storing, hp.stored, hp.behind, hp.told⟩
        ⟨hlost, CourseProcess.answered_drop hoperation hanswered⟩
    · exact hp.congr hstate hops
  | crashed => cases hq

theorem OrderlyWorld.step {w w' : CourseWorld} {a : CourseAction} (h : OrderlyWorld w)
    (hstep : Under (CourseWorld.Orderly cfg) (CourseSteps cfg) w a w') : OrderlyWorld w' := by
  obtain ⟨horderly, hstep⟩ := hstep
  exact ⟨hstep.inOrder h.order (horderly.moves hstep), Current.step h.current horderly hstep⟩

theorem OrderlyWorld.initial : OrderlyWorld {} :=
  ⟨fun _ hp => (nomatch hp), fun _ hp => (nomatch hp)⟩

def CourseWorld.PutsCurrent (w : CourseWorld) : Prop :=
  ∀ p kind record expected, w.process = some p →
    ⟨kind, .storing record expected⟩ ∈ p.operations → expected = w.version

/-- Neither the memory nor what is stored is written over by what is older. -/
structure Unforgotten (w w' : CourseWorld) : Prop where
  memory : MemoryMoves BuildsOn w w'
  stored : BuildsOn w.base w'.base

theorem OrderlyWorld.stored_buildsOn {w w' : CourseWorld} {a : CourseAction}
    (h : OrderlyWorld w) (hstep : CourseSteps cfg w a w') : BuildsOn w.base w'.base := by
  cases hstep with
  | stores hprocess hoperation =>
    rename_i p kind record before after
    apply (h.order p hprocess).ordered.stored_write (record, w.version) _ rfl
    refine List.mem_filterMap.mpr ⟨⟨kind, .storing record w.version⟩, ?_, rfl⟩
    rw [hoperation]
    exact List.mem_append_right _ List.mem_cons_self
  | _ => exact .refl _

/-- In an orderly run no put is refused for its version, and nothing is written over by what is
older. -/
theorem puts_current {actions : List CourseAction} {w w' : CourseWorld} {a : CourseAction}
    (hrun : Run (Under (CourseWorld.Orderly cfg) (CourseSteps cfg)) {} actions w)
    (hstep : Under (CourseWorld.Orderly cfg) (CourseSteps cfg) w a w') :
    w'.PutsCurrent ∧ Unforgotten w w' := by
  have horderly : OrderlyWorld w :=
    hrun.invariant (fun _ _ _ h hstep => OrderlyWorld.step h hstep) OrderlyWorld.initial
  refine ⟨fun p kind record expected hp hmem => ?_, ?_⟩
  · exact ((horderly.step hstep).current p hp).storing kind record expected hmem
  · exact ⟨hstep.1.moves hstep.2, horderly.stored_buildsOn hstep.2⟩

/-- Where no answer was lost and one operation at most is under way, a step is orderly that begins a
put only if that waits for no answer. -/
theorem CourseWorld.orderly_step {w w' : CourseWorld} {a : CourseAction} {p : CourseProcess}
    (hprocess : w.process = some p) (hlost : w.lost = false) (hstep : CourseSteps cfg w a w')
    (hputs : p.Puts cfg a → p.answered = true) (halone : p.operations.length ≤ 1)
    (houtcome : ∀ task outcome, a ≠ .outcome task outcome) :
    Under (CourseWorld.Orderly cfg) (CourseSteps cfg) w a w' := by
  refine ⟨fun q hq => ?_, hstep⟩
  obtain rfl := Option.some.inj (hprocess.symm.trans hq)
  exact ⟨fun h => ⟨hlost, hputs h⟩, fun _ _ => List.countP_le_length.trans halone,
    fun target notes outcome heq => absurd heq (houtcome _ _)⟩

/-- The session has heard that its state is stored. -/
def lectureTold : CourseWorld where
  stored := some lectureRecord
  version := 1
  view := some lectureView
  process := some (lectureProcess lectureRecord 1)
  delivered := [lectureCaption]

/-- The session in which its first view is published. -/
def lectureOpening : CourseWorld where
  process := some (.opening lectureConfig 0 none 0)

theorem lectureTold_run :
    Run (Under (CourseWorld.Orderly lectureConfig) (CourseSteps lectureConfig)) {}
      [.opening 0, .publishes .opening, .opened, .batch [lectureEvent] none,
        .stores (.batch none false), .resumes (.batch none false) (some 1)] lectureTold := by
  have hopening : CourseSteps lectureConfig {} (.opening 0) lectureOpening := .opening 0 rfl le_rfl
  have hopened : CourseSteps lectureConfig
      { view := some lectureView, process := some lecturePublished } .opened
      (lectureOpened [] {}) := @CourseSteps.opened _ _ lecturePublished [] [] rfl rfl
  have hstores : CourseSteps lectureConfig lectureBatched (.stores (.batch none false))
      lectureStored := @CourseSteps.stores _ lectureBatched _ _ _ [] [] rfl rfl
  have hresumes : CourseSteps lectureConfig lectureStored
      (.resumes (.batch none false) (some 1)) lectureTold :=
    @CourseSteps.resumes _ lectureStored _ _ _ [] [] rfl rfl
  refine .more ⟨fun _ hp => (nomatch hp), hopening⟩ <|
    .more (CourseWorld.orderly_step rfl rfl (.publishes rfl (rfl : _ = [] ++ _ :: []) rfl) nofun
      le_rfl fun _ _ h => CourseAction.noConfusion h) <|
      .more (CourseWorld.orderly_step rfl rfl hopened (fun _ => rfl) le_rfl
        fun _ _ h => CourseAction.noConfusion h) <|
        .more (CourseWorld.orderly_step rfl rfl lectureBatch_step (fun _ => rfl) (Nat.zero_le 1)
          fun _ _ h => CourseAction.noConfusion h) <|
          .more (CourseWorld.orderly_step rfl rfl hstores nofun le_rfl
            fun _ _ h => CourseAction.noConfusion h) <|
            .single (CourseWorld.orderly_step rfl rfl hresumes nofun le_rfl
              fun _ _ h => CourseAction.noConfusion h)

/-- The final document is asked for, and the state is sent to be stored. -/
def CourseWorld.asked (w : CourseWorld) (p : CourseProcess) : CourseWorld :=
  { w with process := some (p.command (.generateFinal "notes")) }

/-- What the command has stored is at the version of the host. -/
theorem lecture_putsCurrent :
    ∃ w w', Run (Under (CourseWorld.Orderly lectureConfig) (CourseSteps lectureConfig)) {}
        [.opening 0, .publishes .opening, .opened, .batch [lectureEvent] none,
          .stores (.batch none false), .resumes (.batch none false) (some 1)] w ∧
      Under (CourseWorld.Orderly lectureConfig) (CourseSteps lectureConfig) w
        (.command (.generateFinal "notes")) w' ∧
      w'.version = 1 ∧ w'.PutsCurrent ∧ Unforgotten w w' := by
  have hcommand : Under (CourseWorld.Orderly lectureConfig) (CourseSteps lectureConfig)
      lectureTold (.command (.generateFinal "notes"))
      (lectureTold.asked (lectureProcess lectureRecord 1)) :=
    CourseWorld.orderly_step rfl rfl (.command _ rfl rfl) (fun _ => rfl) (Nat.zero_le 1)
      fun _ _ h => CourseAction.noConfusion h
  exact ⟨_, _, lectureTold_run, hcommand, rfl, puts_current lectureTold_run hcommand⟩

/-- A final document is asked for beside the put of a batch, or behind one whose answer was lost:
the put of the command is at version 0 while the host is at version 1. -/
theorem lecture_conflicts :
    (∃ w, Run (CourseSteps lectureConfig) {}
        ([.opening 0, .publishes .opening, .opened] ++ [.batch [lectureEvent] none] ++
          [.command (.generateFinal "notes"), .stores (.batch none false)]) w ∧
      w.version = 1 ∧ ¬ w.PutsCurrent) ∧
    ∃ w, Run (CourseSteps lectureConfig) {}
        ([.opening 0, .publishes .opening, .opened] ++ [.batch [lectureEvent] none] ++
          [.stores (.batch none false), .loses (.batch none false),
            .command (.generateFinal "notes")]) w ∧
      w.version = 1 ∧ ¬ w.PutsCurrent := by
  have hbatch := lectureOpened_run.forget.append (.single lectureBatch_step)
  constructor
  · have hcommand : CourseSteps lectureConfig lectureBatched (.command (.generateFinal "notes"))
        (lectureBatched.asked lectureStoring) := .command _ rfl rfl
    have hstores := @CourseSteps.stores lectureConfig (lectureBatched.asked lectureStoring)
      (lectureStoring.command (.generateFinal "notes")) _ _ [_] [] rfl rfl
    refine ⟨_, hbatch.append (.more hcommand (.single hstores)), rfl, fun hcurrent => ?_⟩
    exact absurd (hcurrent _ _ _ 0 rfl List.mem_cons_self) (by decide)
  · have hstores := @CourseSteps.stores lectureConfig lectureBatched _ _ _ [] [] rfl rfl
    have hloses := @CourseSteps.loses lectureConfig lectureStored lectureSaved _ _ [] [] rfl rfl
    refine ⟨_, hbatch.append (.more hstores (.more hloses (.single (.command _ rfl rfl)))), rfl,
      fun hcurrent => ?_⟩
    exact absurd (hcurrent _ _ _ 0 rfl List.mem_cons_self) (by decide)

end CourseOrganizer
end Matinier
