import Matinier.CourseOrganizer.SessionMachine

/-!
# A session ahead of its store

The store, the writes that are under way and the memory of a session are in order, whatever the
memory moves along.
-/

namespace Matinier
namespace CourseOrganizer

/-- The state a session is opened on. -/
def CourseWorld.base (w : CourseWorld) : CourseRecord := w.stored.getD {}

variable {cfg : CourseConfig} {R : CourseRecord → CourseRecord → Prop} {w w' : CourseWorld}
  {base : CourseRecord} {version : ℕ} {p : CourseProcess} {kind : OperationKind}
  {r : CourseRecord} {a : CourseAction}

def Operation.write : Operation → Option (CourseRecord × ℕ)
  | ⟨_, .storing record expectedVersion⟩ => some (record, expectedVersion)
  | _ => none

/-- The memory of a session and its host as a versioned store. -/
def CourseProcess.writeBehind (base : CourseRecord) (version : ℕ) (p : CourseProcess) :
    WriteBehind CourseRecord where
  memory := p.state.toCourseRecord
  expected := p.state.stateVersion
  stored := base
  version := version
  writes := p.operations.filterMap Operation.write

/-- The store, the writes and the memory are in order, and the host has every version that it has
answered with. -/
structure InOrder (R : CourseRecord → CourseRecord → Prop) (base : CourseRecord) (version : ℕ)
    (p : CourseProcess) : Prop where
  ordered : (p.writeBehind base version).Ordered R
  versions : ∀ kind known, ⟨kind, .stored known⟩ ∈ p.operations → known ≤ version

/-- What is stored of a state is as far as the state. -/
class KeepsDict (R : CourseRecord → CourseRecord → Prop) : Prop where
  dict_le (s : CourseState) : R s.toDict s.toCourseRecord
  le_dict (s : CourseState) : R s.toCourseRecord s.toDict

namespace InOrder

theorem advance [IsPreorder CourseRecord R] (h : InOrder R base version p)
    (hmove : R p.state.toCourseRecord r) : InOrder R base version (p.setRecord r) :=
  ⟨h.ordered.advance hmove, h.versions⟩

theorem putState [IsPreorder CourseRecord R] [KeepsDict R] (h : InOrder R base version p) :
    InOrder R base version (p.putState kind) := by
  refine ⟨?_, fun k known hmem => ?_⟩
  · exact h.ordered.write (IsTrans.trans _ _ _ h.ordered.stored_memory (KeepsDict.le_dict p.state))
      (KeepsDict.dict_le p.state)
  · rcases List.mem_cons.mp hmem with heq | hmem
    · cases heq
    · exact h.versions k known hmem

theorem publishView (h : InOrder R base version p) :
    InOrder R base version (p.publishView kind) := by
  refine ⟨h.ordered, fun k known hmem => ?_⟩
  rcases List.mem_cons.mp hmem with heq | hmem
  · cases heq
  · exact h.versions k known hmem

theorem congr {p' : CourseProcess} (h : InOrder R base version p) (hstate : p'.state = p.state)
    (hoperations : p'.operations = p.operations) : InOrder R base version p' := by
  refine ⟨?_, ?_⟩
  · unfold CourseProcess.writeBehind
    rw [hstate, hoperations]
    exact h.ordered
  · rw [hoperations]
    exact h.versions

theorem drop {operations : List Operation} (h : InOrder R base version p)
    (hoperations : ∀ op ∈ operations, op ∈ p.operations) :
    InOrder R base version { p with operations := operations } := by
  refine ⟨h.ordered.drop fun q hq => ?_, fun k known hmem => h.versions k known
    (hoperations _ hmem)⟩
  obtain ⟨op, hop, hwrite⟩ := List.mem_filterMap.mp hq
  exact List.mem_filterMap.mpr ⟨op, hoperations op hop, hwrite⟩

theorem schedule {window : Option (List PendingEvent)} (h : InOrder R base version p) :
    InOrder R base version (p.schedule window) := by
  cases window with
  | none => exact h
  | some snapshot => exact h.congr rfl rfl

theorem scheduleTerminal (h : InOrder R base version p) :
    InOrder R base version p.scheduleTerminal := by
  unfold CourseProcess.scheduleTerminal
  split_ifs
  · exact h
  · exact h.congr rfl rfl

theorem learn {known : ℕ} (h : InOrder R base version p) (hknown : known ≤ version) :
    InOrder R base version { p with state := { p.state with stateVersion := known } } :=
  ⟨h.ordered.learn hknown, h.versions⟩

theorem resume {known : ℕ} (h : InOrder R base version p) (hknown : known ≤ version) :
    InOrder R base version (p.resume kind known).1 := by
  unfold CourseProcess.resume
  split_ifs
  · exact h
  · cases kind with
    | batch window terminal =>
      cases terminal with
      | true => exact (h.learn hknown).schedule.scheduleTerminal
      | false => exact (h.learn hknown).schedule
    | change => exact (h.learn hknown).publishView
    | command manual => exact (h.learn hknown).publishView
    | opening => exact (h.learn hknown).schedule.congr rfl rfl

theorem finishPublishing (h : InOrder R base version p) :
    InOrder R base version (p.finishPublishing kind) := by
  cases kind with
  | batch window terminal => exact h
  | change => exact h
  | command manual =>
    cases manual with
    | none => exact h.scheduleTerminal
    | some target => exact h.congr rfl rfl
  | opening =>
    refine ⟨h.ordered, fun k known hmem => ?_⟩
    rcases List.mem_cons.mp hmem with heq | hmem
    · cases heq
    · exact h.versions k known hmem

end InOrder

/-- The memory of a session moves along, and a session is opened behind where the store is. -/
def MemoryMoves (R : CourseRecord → CourseRecord → Prop) (w w' : CourseWorld) : Prop :=
  ∀ p', w'.process = some p' →
    match w.process with
    | some p => R p.state.toCourseRecord p'.state.toCourseRecord
    | none => R w.base p'.state.toCourseRecord

/-- A command changes the state and has it stored, or it leaves it and what is under way alone. -/
theorem CourseProcess.command_cases (p : CourseProcess) (c : CourseCommand) :
    (∃ terminalJobId kind, kind.isBatch = false ∧ kind.locks = false ∧
      p.command c = (p.setRecord (p.state.startFinal terminalJobId)).putState kind) ∨
    (p.command c).state = p.state ∧ (p.command c).operations = p.operations := by
  have hmanual : ∀ commandId, (∃ terminalJobId kind, kind.isBatch = false ∧ kind.locks = false ∧
      p.generateFinal commandId = (p.setRecord (p.state.startFinal terminalJobId)).putState kind) ∨
      (p.generateFinal commandId).state = p.state ∧
        (p.generateFinal commandId).operations = p.operations := by
    intro commandId
    unfold CourseProcess.generateFinal
    split_ifs
    · exact Or.inr ⟨rfl, rfl⟩
    · exact Or.inl ⟨none, _, rfl, rfl, rfl⟩
  cases c with
  | generateFinal commandId => exact hmanual commandId
  | retryFinal commandId =>
    simp only [CourseProcess.command]
    split_ifs
    · exact Or.inr ⟨rfl, rfl⟩
    · exact Or.inl ⟨some commandId, _, rfl, rfl, rfl⟩
    · exact hmanual commandId
  | setLanguage language =>
    right
    simp only [CourseProcess.command]
    generalize (if language = "source" then p.state.sourceLanguage else some language) = target
    cases target with
    | none => exact ⟨rfl, rfl⟩
    | some target =>
      by_cases hgo : (isLanguage target && !(p.tasks.any CourseTask.isLanguage)) = true
      · simp only [hgo, if_true, and_self]
      · simp only [hgo, Bool.false_eq_true, if_false, and_self]
  | selectVersion => exact Or.inr ⟨rfl, rfl⟩

/-- A session that is opened schedules a window: it was not ended, and what is pending is enough for
one. -/
def OpensWindow (cfg : CourseConfig) (r : CourseRecord) : Prop :=
  ¬ (r.terminalJobId.isSome = true ∧ r.terminalTrigger.isSome = true) ∧ r.pending ≠ [] ∧
    r.windowReady? cfg = some true

/-- The opening leaves the state and what is under way alone, or has a window stored that is
scheduled. -/
theorem CourseProcess.finishOpening_cases (cfg : CourseConfig) (p : CourseProcess) :
    OpensWindow cfg p.state.toCourseRecord ∧ p.finishOpening cfg =
      (p.setRecord { p.state.toCourseRecord with status := .processing }).putState .opening ∨
    (p.finishOpening cfg).state = p.state ∧ (p.finishOpening cfg).operations = p.operations := by
  unfold CourseProcess.finishOpening
  split_ifs with hterminal hpending
  · right
    unfold CourseProcess.scheduleTerminal
    split_ifs
    · exact ⟨rfl, rfl⟩
    · exact ⟨rfl, rfl⟩
  · exact Or.inr ⟨rfl, rfl⟩
  · split
    · exact Or.inr ⟨rfl, rfl⟩
    · exact Or.inr ⟨rfl, rfl⟩
    · rename_i hready
      exact Or.inl ⟨⟨by simpa using hterminal, hpending, hready⟩, rfl⟩

/-- A batch raises and leaves the state where it was, or it is answered at once, or the state is
stored. -/
theorem CourseProcess.batch_cases (cfg : CourseConfig) (p : CourseProcess)
    (events : List JsonValue) :
    (∃ r, eventBatch cfg (p.tasks.any CourseTask.isBackground) p.terminalTask events
        p.state.toCourseRecord = .raised r ∧ p.batch cfg events = (p.setRecord r, none)) ∨
    (eventBatch cfg (p.tasks.any CourseTask.isBackground) p.terminalTask events
        p.state.toCourseRecord = .unchanged ∧ p.batch cfg events = (p, some p.state.lastSequence)) ∨
    ∃ r window terminal, eventBatch cfg (p.tasks.any CourseTask.isBackground) p.terminalTask events
        p.state.toCourseRecord = .changed r window terminal ∧
      p.batch cfg events = ((p.setRecord r).putState (.batch window terminal), none) := by
  unfold CourseProcess.batch
  cases heq : eventBatch cfg (p.tasks.any CourseTask.isBackground) p.terminalTask events
      p.state.toCourseRecord with
  | raised r => exact Or.inl ⟨r, rfl, rfl⟩
  | unchanged => exact Or.inr (Or.inl ⟨rfl, rfl⟩)
  | changed r window terminal => exact Or.inr (Or.inr ⟨r, window, terminal, rfl, rfl⟩)

theorem resume_record (p : CourseProcess) (kind : OperationKind) (version : ℕ) :
    (p.resume kind version).1.state.toCourseRecord = p.state.toCourseRecord := by
  have hterminal : ∀ q : CourseProcess, q.scheduleTerminal.state = q.state := by
    intro q
    unfold CourseProcess.scheduleTerminal
    split_ifs <;> rfl
  have hschedule : ∀ (q : CourseProcess) window, (q.schedule window).state = q.state := by
    intro q window
    cases window <;> rfl
  unfold CourseProcess.resume
  split_ifs
  · rfl
  · cases kind with
    | batch window terminal =>
      cases terminal with
      | true => simp only [if_true, hterminal, hschedule]
      | false => simp only [Bool.false_eq_true, if_false, hschedule]
    | opening => simp only [hschedule]
    | change => rfl
    | command manual => rfl

theorem finishPublishing_state (p : CourseProcess) (kind : OperationKind) :
    (p.finishPublishing kind).state = p.state := by
  cases kind with
  | command manual =>
    cases manual with
    | none =>
      simp only [CourseProcess.finishPublishing, CourseProcess.scheduleTerminal]
      split_ifs <;> rfl
    | some target => rfl
  | _ => rfl

/-- A session that goes on publishes a view, if it was no batch that was stored. -/
theorem resume_operations (p : CourseProcess) (kind : OperationKind) (version : ℕ) :
    (p.resume kind version).1.operations = p.operations ∨
      kind.isBatch = false ∧
        (p.resume kind version).1.operations =
          ⟨kind, .publishing ⟨p.state.viewVersion, p.state.view⟩⟩ :: p.operations := by
  have hterminal : ∀ q : CourseProcess, q.scheduleTerminal.operations = q.operations := by
    intro q
    unfold CourseProcess.scheduleTerminal
    split_ifs <;> rfl
  have hschedule : ∀ (q : CourseProcess) window,
      (q.schedule window).operations = q.operations := by
    intro q window
    cases window <;> rfl
  unfold CourseProcess.resume
  split_ifs
  · exact Or.inl rfl
  · cases kind with
    | batch window terminal =>
      left
      cases terminal with
      | true => simp only [if_true, hterminal, hschedule]
      | false => simp only [Bool.false_eq_true, if_false, hschedule]
    | opening => exact Or.inl (hschedule _ _)
    | change => exact Or.inr ⟨rfl, rfl⟩
    | command manual => exact Or.inr ⟨rfl, rfl⟩

theorem finishPublishing_operations (p : CourseProcess) (kind : OperationKind) :
    (p.finishPublishing kind).operations = p.operations ∨
      kind = .opening ∧
        (p.finishPublishing kind).operations = ⟨.opening, .published⟩ :: p.operations := by
  cases kind with
  | command manual =>
    left
    cases manual with
    | none =>
      simp only [CourseProcess.finishPublishing, CourseProcess.scheduleTerminal]
      split_ifs <;> rfl
    | some target => rfl
  | opening => exact Or.inr ⟨rfl, rfl⟩
  | _ => exact Or.inl rfl

theorem CourseSteps.memory_cases {p' : CourseProcess} (hstep : CourseSteps cfg w a w')
    (hp : w.process = some p) (hp' : w'.process = some p') :
    p'.state.toCourseRecord = p.state.toCourseRecord ∨
    (∃ events answer, a = .batch events answer ∧
      (eventBatch cfg (p.tasks.any CourseTask.isBackground) p.terminalTask events
          p.state.toCourseRecord = .raised p'.state.toCourseRecord ∨
        ∃ window terminal, eventBatch cfg (p.tasks.any CourseTask.isBackground) p.terminalTask
          events p.state.toCourseRecord = .changed p'.state.toCourseRecord window terminal)) ∨
    (∃ command terminalJobId, a = .command command ∧
      p'.state.toCourseRecord = p.state.startFinal terminalJobId) ∨
    (∃ task outcome left, a = .outcome task outcome ∧ task ∈ p.tasks ∧
      task.outcome cfg p.state.toCourseRecord outcome = some (left, p'.state.toCourseRecord)) ∨
    (a = .opened ∧ OpensWindow cfg p.state.toCourseRecord ∧
      p'.state.toCourseRecord = { p.state.toCourseRecord with status := .processing }) := by
  cases hstep with
  | opening afterSequence hclosed hafter =>
    rw [hclosed] at hp
    cases hp
  | batch events hprocess hopened hlock =>
    obtain rfl := Option.some.inj (hprocess.symm.trans hp)
    obtain rfl := Option.some.inj hp'
    rcases CourseProcess.batch_cases cfg _ events with ⟨r, hraised, heq⟩ | ⟨-, heq⟩ |
        ⟨r, window, terminal, hchanged, heq⟩
    · exact Or.inr (Or.inl ⟨_, _, rfl, Or.inl (by rw [heq]; exact hraised)⟩)
    · exact Or.inl (by rw [heq])
    · exact Or.inr (Or.inl ⟨_, _, rfl, Or.inr ⟨window, terminal, by rw [heq]; exact hchanged⟩⟩)
  | command c hprocess hopened =>
    obtain rfl := Option.some.inj (hprocess.symm.trans hp)
    obtain rfl := Option.some.inj hp'
    rcases CourseProcess.command_cases _ c with ⟨terminalJobId, kind, -, -, heq⟩ | ⟨hstate, -⟩
    · exact Or.inr (Or.inr (Or.inl ⟨c, terminalJobId, rfl, by rw [heq]; rfl⟩))
    · exact Or.inl (by rw [hstate])
  | outcome outcome hprocess hlock htask houtcome =>
    obtain rfl := Option.some.inj (hprocess.symm.trans hp)
    obtain rfl := Option.some.inj hp'
    refine Or.inr (Or.inr (Or.inr (Or.inl ⟨_, outcome, _, rfl, ?_, houtcome⟩)))
    rw [htask]
    exact List.mem_append_right _ List.mem_cons_self
  | resumes hprocess hoperation =>
    obtain rfl := Option.some.inj (hprocess.symm.trans hp)
    obtain rfl := Option.some.inj hp'
    exact Or.inl (by rw [resume_record])
  | publishes hprocess hoperation haccepts =>
    obtain rfl := Option.some.inj (hprocess.symm.trans hp)
    obtain rfl := Option.some.inj hp'
    exact Or.inl (by rw [finishPublishing_state])
  | opened hprocess hoperation =>
    obtain rfl := Option.some.inj (hprocess.symm.trans hp)
    obtain rfl := Option.some.inj hp'
    rename_i p before after
    rcases CourseProcess.finishOpening_cases cfg { p with operations := before ++ after } with
      ⟨hwindow, heq⟩ | ⟨hstate, -⟩
    · exact Or.inr (Or.inr (Or.inr (Or.inr ⟨rfl, hwindow, by rw [heq]; rfl⟩)))
    · exact Or.inl (by rw [hstate])
  | crashed => cases hp'
  | advanced hprocess htask hnext =>
    obtain rfl := Option.some.inj (hprocess.symm.trans hp)
    obtain rfl := Option.some.inj hp'
    exact Or.inl rfl
  | ended hprocess htask =>
    obtain rfl := Option.some.inj (hprocess.symm.trans hp)
    obtain rfl := Option.some.inj hp'
    exact Or.inl rfl
  | stores hprocess hoperation =>
    obtain rfl := Option.some.inj (hprocess.symm.trans hp)
    obtain rfl := Option.some.inj hp'
    exact Or.inl rfl
  | refuses hprocess hoperation | loses hprocess hoperation =>
    obtain rfl := Option.some.inj (hprocess.symm.trans hp)
    obtain rfl := Option.some.inj hp'
    exact Or.inl rfl
  | rejects hprocess hoperation =>
    obtain rfl := Option.some.inj (hprocess.symm.trans hp)
    obtain rfl := Option.some.inj hp'
    exact Or.inl rfl

theorem CourseSteps.memory_of_closed {p' : CourseProcess} (hstep : CourseSteps cfg w a w')
    (hclosed : w.process = none) (hp' : w'.process = some p') :
    ∃ afterSequence, p'.state.toCourseRecord = (restoredState cfg.toRealtimeConfig w.version
      w.stored afterSequence).toCourseRecord := by
  cases hstep with
  | opening afterSequence =>
    obtain rfl := Option.some.inj hp'
    exact ⟨afterSequence, rfl⟩
  | crashed => cases hp'
  | batch events hprocess | command c hprocess | outcome outcome hprocess | advanced hprocess
  | ended hprocess | stores hprocess | refuses hprocess | loses hprocess | resumes hprocess
  | publishes hprocess | rejects hprocess | opened hprocess => cases hclosed.symm.trans hprocess

theorem mem_of_split {α : Type*} {l before after : List α} {x y : α} (hl : l = before ++ x :: after)
    (hy : y ∈ before ++ after) : y ∈ l := by
  rw [hl]
  rcases List.mem_append.mp hy with h | h
  · exact List.mem_append_left _ h
  · exact List.mem_append_right _ (List.mem_cons_of_mem _ h)

theorem mem_or_eq_of_split {α : Type*} {l before after : List α} {x y z : α}
    (hl : l = before ++ x :: after) (hy : y ∈ before ++ z :: after) : y ∈ l ∨ y = z := by
  rcases List.mem_append.mp hy with h | h
  · exact Or.inl (mem_of_split hl (List.mem_append_left _ h))
  · rcases List.mem_cons.mp h with rfl | h
    · exact Or.inr rfl
    · exact Or.inl (mem_of_split hl (List.mem_append_right _ h))

/-- A step keeps the store, the writes and the memory in order, if the memory moves along. -/
theorem CourseSteps.inOrder [IsPreorder CourseRecord R] [KeepsDict R]
    (hstep : CourseSteps cfg w a w') (h : ∀ p, w.process = some p → InOrder R w.base w.version p)
    (hmove : MemoryMoves R w w') : ∀ p, w'.process = some p → InOrder R w'.base w'.version p := by
  intro q hq
  have hq' := hmove q hq
  cases hstep with
  | opening afterSequence hclosed hafter =>
    obtain rfl := Option.some.inj hq
    rw [hclosed] at hq'
    have hversion : (CourseProcess.opening cfg w.version w.stored
      afterSequence).state.stateVersion =
        w.version := by
      cases hstored : w.stored <;> rfl
    refine ⟨?_, fun k version hmem => ?_⟩
    · unfold CourseProcess.writeBehind
      rw [hversion]
      exact .restart _ _ hq'
    · rcases List.mem_cons.mp hmem with heq | hmem
      · cases heq
      · cases hmem
  | batch events hprocess hopened hlock =>
    obtain rfl := Option.some.inj hq
    rw [hprocess] at hq'
    have hp := h _ hprocess
    rcases CourseProcess.batch_cases cfg _ events with ⟨r, -, heq⟩ | ⟨-, heq⟩ |
        ⟨r, window, terminal, -, heq⟩
    · rw [heq] at hq' ⊢
      exact hp.advance hq'
    · rw [heq]
      exact hp
    · rw [heq] at hq' ⊢
      exact (hp.advance hq').putState
  | command c hprocess hopened =>
    obtain rfl := Option.some.inj hq
    rw [hprocess] at hq'
    have hp := h _ hprocess
    rcases CourseProcess.command_cases _ c with ⟨terminalJobId, kind, -, -, heq⟩ | ⟨hstate, hops⟩
    · rw [heq] at hq' ⊢
      exact (hp.advance hq').putState
    · exact hp.congr hstate hops
  | outcome outcome hprocess hlock htask houtcome =>
    obtain rfl := Option.some.inj hq
    rw [hprocess] at hq'
    have hp := h _ hprocess
    exact InOrder.putState (InOrder.advance (hp.congr rfl rfl) hq')
  | advanced hprocess htask hnext =>
    obtain rfl := Option.some.inj hq
    exact (h _ hprocess).congr rfl rfl
  | ended hprocess htask =>
    obtain rfl := Option.some.inj hq
    exact (h _ hprocess).congr rfl rfl
  | stores hprocess hoperation =>
    obtain rfl := Option.some.inj hq
    rename_i p kind record before after
    have hp := h p hprocess
    have hwrite : ⟨kind, .storing record w.version⟩ ∈ p.operations := by
      rw [hoperation]
      exact List.mem_append_right _ List.mem_cons_self
    have hmem : (record, w.version) ∈ (p.writeBehind w.base w.version).writes :=
      List.mem_filterMap.mpr ⟨_, hwrite, rfl⟩
    refine ⟨hp.ordered.take hmem fun q hq => ?_, fun k known hmem => ?_⟩
    · obtain ⟨op, hop, hwrite⟩ := List.mem_filterMap.mp hq
      refine List.mem_filterMap.mpr ⟨op, ?_, hwrite⟩
      rcases List.mem_append.mp hop with hop | hop
      · exact mem_of_split hoperation (List.mem_append_left _ hop)
      · rcases List.mem_cons.mp hop with rfl | hop
        · cases hwrite
        · exact mem_of_split hoperation (List.mem_append_right _ hop)
    · rcases List.mem_append.mp hmem with hmem | hmem
      · exact Nat.le_succ_of_le
          (hp.versions k known (mem_of_split hoperation (List.mem_append_left _ hmem)))
      · rcases List.mem_cons.mp hmem with heq | hmem
        · cases heq
          exact Nat.le_refl _
        · exact Nat.le_succ_of_le
            (hp.versions k known (mem_of_split hoperation (List.mem_append_right _ hmem)))
  | refuses hprocess hoperation | loses hprocess hoperation =>
    obtain rfl := Option.some.inj hq
    exact (h _ hprocess).drop fun op hop => mem_of_split hoperation hop
  | resumes hprocess hoperation =>
    obtain rfl := Option.some.inj hq
    have hp := h _ hprocess
    refine InOrder.resume (hp.drop fun op hop => mem_of_split hoperation hop) ?_
    apply hp.versions _ _
    rw [hoperation]
    exact List.mem_append_right _ List.mem_cons_self
  | publishes hprocess hoperation haccepts =>
    obtain rfl := Option.some.inj hq
    exact ((h _ hprocess).drop fun op hop => mem_of_split hoperation hop).finishPublishing
  | rejects hprocess hoperation =>
    obtain rfl := Option.some.inj hq
    exact (h _ hprocess).drop fun op hop => mem_of_split hoperation hop
  | opened hprocess hoperation =>
    obtain rfl := Option.some.inj hq
    rw [hprocess] at hq'
    have hp := (h _ hprocess).drop fun op hop => mem_of_split hoperation hop
    rcases CourseProcess.finishOpening_cases cfg _ with ⟨-, heq⟩ | ⟨hstate, hops⟩
    · rw [heq] at hq' ⊢
      exact (hp.advance hq').putState
    · exact hp.congr hstate hops
  | crashed => cases hq

end CourseOrganizer
end Matinier
