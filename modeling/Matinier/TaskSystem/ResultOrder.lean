import Mathlib.Data.List.Perm.Basic
import Matinier.TaskSystem.Service

/-!
# The order of similar tasks

The first task that decides settles what becomes of a draft. The order in which the tracker lists
the similar tasks does not matter just if all that decide call for the same.
-/

namespace Matinier

/-- What is found first has one value under a function in every order of a list just if everything
that could be found has that value. -/
theorem find?_perm_iff {α β : Type} {p : α → Bool} {f : α → β} {l : List α} :
    (∀ l', l.Perm l' → (l'.find? p).map f = (l.find? p).map f) ↔
      ∀ a ∈ l, ∀ b ∈ l, p a = true → p b = true → f a = f b := by
  constructor
  · intro h
    have hfirst : ∀ a ∈ l, p a = true → some (f a) = (l.find? p).map f := by
      intro a ha hpa
      obtain ⟨before, after, rfl⟩ := List.append_of_mem ha
      rw [← h _ List.perm_middle, List.find?_cons_of_pos hpa, Option.map_some]
    intro a ha b hb hpa hpb
    exact Option.some.inj ((hfirst a ha hpa).trans (hfirst b hb hpb).symm)
  · intro h l' hperm
    cases hfound : l.find? p with
    | none =>
      have hnone : l'.find? p = none := by
        rw [List.find?_eq_none] at hfound ⊢
        exact fun a ha => hfound a (hperm.mem_iff.mpr ha)
      rw [hnone]
    | some a =>
      have ha := List.mem_of_find?_eq_some hfound
      have hpa := List.find?_some hfound
      obtain ⟨b, hb⟩ := Option.isSome_iff_exists.mp
        (List.find?_isSome.mpr ⟨a, hperm.mem_iff.mp ha, hpa⟩)
      have hmem := hperm.mem_iff.mpr (List.mem_of_find?_eq_some hb)
      rw [hb, Option.map_some, Option.map_some, h b hmem a ha (List.find?_some hb) hpa]

namespace TaskSystem

section

variable (cfg : TaskConfig) (draft : TaskDraft) (context : TaskDecisionContext)

/-- The titles have a word in common, but the assignee or the due date is another one. -/
def Contradicts (task : ExternalTask) : Prop :=
  Overlaps cfg draft task ∧ ¬ (AssigneeCompatible draft task ∧ DueCompatible draft task)

instance (task : ExternalTask) : Decidable (Contradicts cfg draft task) :=
  inferInstanceAs (Decidable (_ ∧ _))

def Decides (task : ExternalTask) : Prop :=
  Duplicates cfg draft context task ∨ Contradicts cfg draft task

instance : DecidablePred (Decides cfg draft context) := fun _ =>
  inferInstanceAs (Decidable (_ ∨ _))

/-- No task is the draft's, or no task contradicts it and one task at most is the draft's. -/
def OneVerdict (tasks : List ExternalTask) : Prop :=
  (∀ task ∈ tasks, ¬ Duplicates cfg draft context task) ∨
    ∃ externalId, ∀ task ∈ tasks, ¬ Contradicts cfg draft task ∧
      (Duplicates cfg draft context task → task.externalId = externalId)

/-- What becomes of a draft of which a task decides. -/
def verdict (task : ExternalTask) : TaskDisposition × Option ExternalTask × List String :=
  if Duplicates cfg draft context task then (.duplicate, some task, []) else (.ambiguous, none, [])

def ofRelated (related : List String) : TaskDisposition × Option ExternalTask × List String :=
  if related = [] then (.distinct, none, []) else (.related, none, related.eraseDups)

end

def decision (outcome : TaskDisposition × Option ExternalTask × List String) :
    TaskDisposition × Option String :=
  (outcome.1, outcome.2.1.map ExternalTask.externalId)

/-- The same disposition, the same task to reuse and the same set of related ones. -/
structure SameOutcome (outcome outcome' : TaskDisposition × Option ExternalTask × List String) :
    Prop where
  decision : decision outcome = decision outcome'
  related : ∀ ref, ref ∈ outcome.2.2 ↔ ref ∈ outcome'.2.2

/-- The user is asked or one task reused alike, or one is created for the same related tasks. -/
def ProceedAlike (request : ExecuteCandidate) (prepared : PreparedCandidate)
    (outcome outcome' : TaskDisposition × Option ExternalTask × List String) : Prop :=
  createOrReuse request prepared outcome = createOrReuse request prepared outcome' ∨
    ∃ disposition related related', (∀ ref : String, ref ∈ related ↔ ref ∈ related') ∧
      createOrReuse request prepared outcome = createTask request prepared disposition related ∧
      createOrReuse request prepared outcome' = createTask request prepared disposition related'

variable {cfg : TaskConfig} {draft : TaskDraft} {context : TaskDecisionContext}
  {task : ExternalTask} {tasks tasks' : List ExternalTask}

theorem Duplicates.not_contradicts (h : Duplicates cfg draft context task) :
    ¬ Contradicts cfg draft task := by
  obtain ⟨-, -, -, hassignee, hdue, -⟩ := h
  exact fun hcontradicts => hcontradicts.2 ⟨hassignee, hdue⟩

/-- The first task that decides settles the outcome; without one the related tasks do. -/
theorem classify_eq (related : List String) : classify cfg draft context tasks related =
    match tasks.find? (Decides cfg draft context) with
    | some task => verdict cfg draft context task
    | none => ofRelated
        (related ++ (tasks.filter (Overlaps cfg draft ·)).map ExternalTask.externalId) := by
  induction tasks generalizing related with
  | nil => cases related <;> simp [classify, ofRelated]
  | cons task tasks ih =>
    unfold classify
    by_cases hduplicate : Duplicates cfg draft context task
    · have hdecides : Decides cfg draft context task := Or.inl hduplicate
      simp only [if_pos hduplicate, List.find?_cons, decide_eq_true hdecides, verdict]
    rw [if_neg hduplicate]
    by_cases hcontradicts : Contradicts cfg draft task
    · have hdecides : Decides cfg draft context task := Or.inr hcontradicts
      rw [if_pos (show Overlaps cfg draft task ∧ _ from hcontradicts)]
      simp only [List.find?_cons, decide_eq_true hdecides, verdict, if_neg hduplicate]
    have hdecides : ¬ Decides cfg draft context task := fun h => h.elim hduplicate hcontradicts
    rw [if_neg (show ¬ (Overlaps cfg draft task ∧ _) from hcontradicts)]
    simp only [List.find?_cons, decide_eq_false hdecides]
    by_cases hoverlaps : Overlaps cfg draft task
    · rw [if_pos hoverlaps, ih]
      simp only [List.filter_cons, decide_eq_true hoverlaps, if_true, List.map_cons,
        List.append_assoc, List.singleton_append]
    · rw [if_neg hoverlaps, ih]
      simp only [List.filter_cons, decide_eq_false hoverlaps, Bool.false_eq_true, if_false]

theorem oneVerdict_iff : OneVerdict cfg draft context tasks ↔
    ∀ task ∈ tasks, ∀ task' ∈ tasks, Decides cfg draft context task →
      Decides cfg draft context task' →
        decision (verdict cfg draft context task) = decision (verdict cfg draft context task') := by
  constructor
  · rintro (hnone | ⟨externalId, hone⟩) task htask task' htask' hdecides hdecides'
    · rw [verdict, verdict, if_neg (hnone task htask), if_neg (hnone task' htask')]
    · obtain ⟨hplain, hid⟩ := hone task htask
      obtain ⟨hplain', hid'⟩ := hone task' htask'
      have hduplicate := hdecides.resolve_right hplain
      have hduplicate' := hdecides'.resolve_right hplain'
      simp only [verdict, decision, if_pos hduplicate, if_pos hduplicate', Option.map_some,
        hid hduplicate, hid' hduplicate']
  · intro h
    by_cases hnone : ∀ task ∈ tasks, ¬ Duplicates cfg draft context task
    · exact Or.inl hnone
    push Not at hnone
    obtain ⟨task, htask, hduplicate⟩ := hnone
    refine Or.inr ⟨task.externalId, fun task' htask' => ⟨fun hcontradicts => ?_,
      fun hduplicate' => ?_⟩⟩
    · have hsame := h task htask task' htask' (Or.inl hduplicate) (Or.inr hcontradicts)
      have hnot : ¬ Duplicates cfg draft context task' := fun h => h.not_contradicts hcontradicts
      simp [verdict, decision, hduplicate, hnot] at hsame
    · have hsame := h task' htask' task htask (Or.inl hduplicate') (Or.inl hduplicate)
      simpa [verdict, decision, hduplicate, hduplicate'] using hsame

theorem mem_ofRelated {related : List String} {ref : String} :
    ref ∈ (ofRelated related).2.2 ↔ ref ∈ related := by
  unfold ofRelated
  split_ifs with h
  · simp [h]
  · exact List.mem_eraseDups

theorem sameOutcome_verdict_iff {task' : ExternalTask} :
    SameOutcome (verdict cfg draft context task') (verdict cfg draft context task) ↔
      decision (verdict cfg draft context task') = decision (verdict cfg draft context task) := by
  refine ⟨SameOutcome.decision, fun h => ⟨h, fun ref => ?_⟩⟩
  unfold verdict
  split_ifs <;> rfl

theorem ofRelated_perm {related related' : List String} (h : related.Perm related') :
    SameOutcome (ofRelated related) (ofRelated related') where
  decision := by
    have hnil : related = [] ↔ related' = [] :=
      ⟨fun hnil => (hnil ▸ h).nil_eq.symm, fun hnil => (hnil ▸ h.symm).nil_eq.symm⟩
    simp only [ofRelated, hnil]
    split_ifs <;> rfl
  related ref := by rw [mem_ofRelated, mem_ofRelated, h.mem_iff]

theorem proceedAlike_of_same {request : ExecuteCandidate} {prepared : PreparedCandidate}
    {outcome outcome' : TaskDisposition × Option ExternalTask × List String}
    (h : SameOutcome outcome outcome') : ProceedAlike request prepared outcome outcome' := by
  obtain ⟨disposition, reused, related⟩ := outcome
  obtain ⟨disposition', reused', related'⟩ := outcome'
  obtain ⟨hdecision, hrelated⟩ := h
  obtain ⟨rfl, hreused⟩ := Prod.mk.inj hdecision
  by_cases hambiguous : disposition = .ambiguous
  · subst hambiguous
    exact Or.inl rfl
  cases reused with
  | none =>
    cases reused' with
    | none =>
      refine Or.inr ⟨disposition, related, related', hrelated, ?_, ?_⟩
      · cases disposition <;> first | rfl | exact absurd rfl hambiguous
      · cases disposition <;> first | rfl | exact absurd rfl hambiguous
    | some found' => cases hreused
  | some found =>
    cases reused' with
    | none => cases hreused
    | some found' =>
      have hid : found.externalId = found'.externalId := Option.some.inj hreused
      have hprogram : reuseTask request prepared disposition found =
          reuseTask request prepared disposition found' := by
        rw [reuseTask, hid, reuseTask]
      refine Or.inl ?_
      cases disposition <;> first | exact hprogram | exact absurd rfl hambiguous

/-- A draft is classified alike in every order of the similar tasks just if they have one verdict;
then a workflow goes on alike, too. -/
theorem classify_order_iff (cfg : TaskConfig) (draft : TaskDraft) (context : TaskDecisionContext)
    (tasks : List ExternalTask) :
    ((∀ tasks', tasks.Perm tasks' → SameOutcome (classify cfg draft context tasks' [])
        (classify cfg draft context tasks [])) ↔ OneVerdict cfg draft context tasks) ∧
      (OneVerdict cfg draft context tasks → ∀ tasks', tasks.Perm tasks' → ∀ request prepared,
        ProceedAlike request prepared (classify cfg draft context tasks' [])
          (classify cfg draft context tasks [])) := by
  have hiff : (∀ tasks', tasks.Perm tasks' → SameOutcome (classify cfg draft context tasks' [])
      (classify cfg draft context tasks [])) ↔ OneVerdict cfg draft context tasks := by
    have hfirst := find?_perm_iff (p := (Decides cfg draft context ·)) (l := tasks)
      (f := fun task => decision (verdict cfg draft context task))
    simp only [decide_eq_true_eq] at hfirst
    rw [oneVerdict_iff, ← hfirst]
    refine forall_congr' fun tasks' => forall_congr' fun hperm => ?_
    rw [classify_eq, classify_eq]
    cases hfound : tasks.find? (Decides cfg draft context ·) with
    | none =>
      have hnone : tasks'.find? (Decides cfg draft context ·) = none := by
        rw [List.find?_eq_none] at hfound ⊢
        exact fun task htask => hfound task (hperm.mem_iff.mpr htask)
      rw [hnone]
      exact iff_of_true (ofRelated_perm ((hperm.symm.filter _).map _)) rfl
    | some task =>
      obtain ⟨task', hfound'⟩ := Option.isSome_iff_exists.mp (List.find?_isSome.mpr
        ⟨task, hperm.mem_iff.mp (List.mem_of_find?_eq_some hfound), List.find?_some hfound⟩)
      rw [hfound']
      exact sameOutcome_verdict_iff.trans Option.some_inj.symm
  exact ⟨hiff, fun h tasks' hperm _ _ => proceedAlike_of_same (hiff.mpr h tasks' hperm)⟩

def wordConfig : TaskConfig where
  teamId := "team"
  actionKey := fun _ lineage => lineage
  normalizedText := id
  tokens := fun text => [text]
  messageText := fun _ => ""

def reportDraft : TaskDraft where
  title := "report"
  description := ""
  assigneeRef := some "ann"
  dueAt := none
  priority := none
  sourceEvidenceIds := []

def reportOf (externalId assignee : String) : ExternalTask where
  externalId := externalId
  identifier := externalId
  url := externalId
  title := "report"
  assigneeRef := some assignee
  teamId := "team"

/-- Ann's report comes before Bob's and is reused, or behind it and the user is asked. -/
theorem report_order_matters :
    classify wordConfig reportDraft ⟨true, true, true⟩ [reportOf "1" "ann", reportOf "2" "bob"] [] =
        (.duplicate, some (reportOf "1" "ann"), []) ∧
      classify wordConfig reportDraft ⟨true, true, true⟩
        [reportOf "2" "bob", reportOf "1" "ann"] [] = (.ambiguous, none, []) ∧
      ¬ ∀ tasks', [reportOf "1" "ann", reportOf "2" "bob"].Perm tasks' →
        SameOutcome (classify wordConfig reportDraft ⟨true, true, true⟩ tasks' [])
          (classify wordConfig reportDraft ⟨true, true, true⟩
            [reportOf "1" "ann", reportOf "2" "bob"] []) := by
  refine ⟨by decide, by decide, fun h => ?_⟩
  have hsame := (h [reportOf "2" "bob", reportOf "1" "ann"] (.swap ..)).decision
  exact absurd hsame (by decide)

end TaskSystem
end Matinier
