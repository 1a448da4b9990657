import Matinier.Meeting.CandidateSpec
import Matinier.TaskSystem.Service

/-!
# What the workflow relies on and keeps

While the workflow runs, executions of candidates only go forward: what is executing stays so or
is executed, and what is executed stays executed. Where everybody is careful, what is executing
also stays at its revision, with its content. The workflow itself keeps to this, and where it
ends with a task its candidate is executed.
-/

namespace Matinier
namespace TaskSystem

open Assistant Meeting

/-- What everyone leaves of a candidate; who is careful leaves an execution under way alone. -/
structure Advances (careful : Prop) (old record : ActionCandidateRecord) : Prop where
  root : record.lineageRootId = old.lineageRootId
  executed : old.executionStatus = .executed → record.executionStatus = .executed
  executing : old.executionStatus = .executing →
    record.executionStatus = .executing ∨ record.executionStatus = .executed
  failed : record.executionStatus = .failed → old.executionStatus = .failed
  frozen : careful → old.executionStatus = .executing → record.executionStatus = .executing →
    record.currentRevision = old.currentRevision ∧ record.revisions = old.revisions ∧
      record.contentStatus = old.contentStatus

variable {careful : Prop} {old record : ActionCandidateRecord}

theorem Advances.refl (record : ActionCandidateRecord) : Advances careful record record :=
  ⟨rfl, id, Or.inl, id, fun _ _ _ => ⟨rfl, rfl, rfl⟩⟩

theorem Advances.trans {a b c : ActionCandidateRecord} (h : Advances careful a b)
    (h' : Advances careful b c) : Advances careful a c := by
  refine ⟨h'.root.trans h.root, fun ha => h'.executed (h.executed ha), fun ha => ?_,
    fun hc => h.failed (h'.failed hc), fun hcareful ha hc => ?_⟩
  · rcases h.executing ha with hb | hb
    · exact h'.executing hb
    · exact Or.inr (h'.executed hb)
  · -- What is executing at both ends is executing between them, for nothing leaves `executed`.
    rcases h.executing ha with hb | hb
    · obtain ⟨hrevision, hrevisions, hstatus⟩ := h.frozen hcareful ha hb
      obtain ⟨hrevision', hrevisions', hstatus'⟩ := h'.frozen hcareful hb hc
      exact ⟨hrevision'.trans hrevision, hrevisions'.trans hrevisions, hstatus'.trans hstatus⟩
    · rw [h'.executed hb] at hc
      cases hc

/-- What leaves the candidate alone but for its execution, which goes forward. -/
theorem Advances.of_execution {target : CandidateExecutionStatus}
    (hallowed : old.executionStatus = target ∨ executionAllows old.executionStatus target = true)
    (hfailed : target ≠ .failed) : Advances careful old { old with executionStatus := target } := by
  refine ⟨rfl, fun hold => ?_, fun hold => ?_, fun hrecord => absurd hrecord hfailed,
    fun _ _ _ => ⟨rfl, rfl, rfl⟩⟩
  · change target = .executed
    rw [hold] at hallowed
    revert hallowed
    cases target <;> decide
  · change target = .executing ∨ target = .executed
    rw [hold] at hallowed
    revert hallowed hfailed
    cases target <;> decide

/-- A new candidate is not failed. -/
def NotFailed (record : ActionCandidateRecord) : Prop := record.executionStatus ≠ .failed

abbrev AllAdvance (careful : Prop) (candidates candidates' : Table ActionCandidateRecord) : Prop :=
  Table.Evolves (Advances careful) NotFailed candidates candidates'

theorem AllAdvance.refl (candidates : Table ActionCandidateRecord) :
    AllAdvance careful candidates candidates :=
  Table.Evolves.refl Advances.refl candidates

theorem AllAdvance.trans {a b c : Table ActionCandidateRecord} (h : AllAdvance careful a b)
    (h' : AllAdvance careful b c) : AllAdvance careful a c :=
  Table.Evolves.trans Advances.trans (fun hnot hkept hfailed => hnot (hkept.failed hfailed)) h h'

/-- The mark that a note is, where it is the first of its workflow. -/
def firstMark : TaskNote → Option Mark
  | .markedExecuting mark => some mark
  | .markedExecuted mark true => some mark
  | _ => none

/-- The mark found its candidate at the revision that its workflow runs for. -/
def Mark.Matches (mark : Mark) : Prop := mark.found.currentRevision = mark.expectedRevision

/-- The first mark of every workflow found the revision that the workflow runs for. -/
def Orderly (notes : List TaskNote) : Prop :=
  ∀ note ∈ notes, ∀ mark ∈ firstMark note, mark.Matches

/-- Whatever is marked executed and was not is at the revision that its workflow runs for. -/
def Unconflicted (notes : List TaskNote) : Prop :=
  ∀ mark first, .markedExecuted mark first ∈ notes → mark.found.executionStatus ≠ .executed →
    mark.Matches

/-- A note that is no mark. -/
def Unmarked : TaskNote → Prop
  | .asked _ | .read => True
  | .markedExecuting _ | .markedExecuted _ _ => False

theorem Orderly.of_suffix {notes notes' : List TaskNote} (h : Orderly notes')
    (hsuffix : notes <:+ notes') : Orderly notes :=
  fun note hnote => h note (hsuffix.subset hnote)

/-- The discipline of workflows; the others do what a workflow may do. -/
structure Proceeds (careful : Prop) (s t : Traced taskInterface) : Prop where
  rows : AllAdvance careful s.state.candidates t.state.candidates
  notes : s.notes <:+ t.notes

/-- The candidate is executed. -/
def Executed (candidateId : String) (s : Traced taskInterface) : Prop :=
  ∃ record, s.state.candidates.get candidateId = some record ∧
    record.executionStatus = .executed

/-- No candidate is failed, no workflow of a careful system ran into another revision, and what
was marked executed is executed. -/
structure Sound (careful : Prop) (s : Traced taskInterface) : Prop where
  rows : ∀ id record, s.state.candidates.get id = some record → NotFailed record
  marks : careful → Orderly s.notes → Unconflicted s.notes
  executed : ∀ mark first, .markedExecuted mark first ∈ s.notes → Executed mark.found.id s

theorem Proceeds.refl (s : Traced taskInterface) : Proceeds careful s s :=
  ⟨.refl s.state.candidates, List.suffix_rfl⟩

theorem Proceeds.trans {s t u : Traced taskInterface} (h : Proceeds careful s t)
    (h' : Proceeds careful t u) : Proceeds careful s u :=
  ⟨h.rows.trans h'.rows, h.notes.trans h'.notes⟩

theorem Executed.proceeds {candidateId : String} {s t : Traced taskInterface}
    (h : Executed candidateId s) (hproceeds : Proceeds careful s t) : Executed candidateId t := by
  obtain ⟨record, hrecord, hstatus⟩ := h
  obtain ⟨later, hlater, hkept⟩ := hproceeds.rows.kept candidateId record hrecord
  exact ⟨later, hlater, hkept.executed hstatus⟩

def workflow (careful : Prop) : Discipline taskInterface where
  run task := nomatch task
  env s t := Proceeds careful s t ∧ (Sound careful s → Sound careful t)
  all s t := Proceeds careful s t ∧ (Sound careful s → Sound careful t)
  inv := Sound careful
  env_refl s := ⟨.refl s, id⟩
  env_trans h h' := ⟨h.1.trans h'.1, fun hs => h'.2 (h.2 hs)⟩
  env_inv hs h := h.2 hs
  env_all h := h
  all_trans h h' := ⟨h.1.trans h'.1, fun hs => h'.2 (h.2 hs)⟩

theorem keeps_of {s t : Traced taskInterface} (h : Proceeds careful s t)
    (hsound : Sound careful t) : (workflow careful).inv t ∧ (workflow careful).all s t :=
  ⟨hsound, h, fun _ => hsound⟩

theorem noted {s : Traced taskInterface} {note : TaskNote} (hs : Sound careful s)
    (hnote : Unmarked note) :
    (workflow careful).inv ⟨s.state, note :: s.notes⟩ ∧
      (workflow careful).all s ⟨s.state, note :: s.notes⟩ := by
  have hold : ∀ mark first, .markedExecuted mark first ∈ note :: s.notes →
      .markedExecuted mark first ∈ s.notes := by
    intro mark first hmark
    rcases List.mem_cons.mp hmark with rfl | hmark
    · exact hnote.elim
    · exact hmark
  refine keeps_of ⟨.refl _, List.suffix_cons note s.notes⟩
    ⟨hs.rows, fun hcareful horderly mark first hmark => ?_, fun mark first hmark =>
      hs.executed mark first (hold mark first hmark)⟩
  exact hs.marks hcareful (horderly.of_suffix (List.suffix_cons note s.notes)) mark first
    (hold mark first hmark)

section Programs

variable {P : Traced taskInterface → Prop} {α β : Type}

/-- The program does nothing that could falsify what the others cannot falsify. -/
def Harmless (careful : Prop) (p : TaskProgram α) : Prop :=
  ∀ P, (workflow careful).Stable P → (workflow careful).Meets P p fun _ => P

theorem Harmless.pure (a : α) : Harmless careful (Program.pure a) :=
  fun _ hP => .pure hP fun _ hs => hs

theorem Harmless.throw (e : TaskFault) : Harmless careful (Program.throw e : TaskProgram α) :=
  fun _ _ => .throw

theorem Harmless.bind {p : TaskProgram α} {f : α → TaskProgram β} (h : Harmless careful p)
    (hf : ∀ a, Harmless careful (f a)) : Harmless careful (p >>= f) :=
  fun P hP => .bind (h P hP) fun a => hf a P hP

theorem checked_harmless (x : Except Fault α) : Harmless careful (checked x) :=
  fun _ hP => .ofExcept hP fun _ _ _ hs => hs

theorem unlessInput_harmless (condition : Prop) [Decidable condition] (code question : String) :
    Harmless careful (unlessInput condition code question) := by
  unfold unlessInput
  split_ifs
  · exact .pure ()
  · exact .throw _

theorem inquire_harmless (question : TaskQuestion) (read : TaskAnswer → Except TaskFault α) :
    Harmless careful (.inquire (S := taskInterface) (.asked question) read) := by
  intro P hP
  refine .inquire hP (fun _ => hP) fun t hinv hPt => ?_
  have hkept := noted hinv (show Unmarked (.asked question) from trivial)
  exact ⟨hkept, fun _ _ _ => hP hinv hPt hkept.2⟩

theorem reading_harmless (read : TaskDb → Except Fault α) : Harmless careful (reading read) := by
  intro P hP
  refine .transact hP (fun _ => hP) fun t b s' hinv hPt htx => ?_
  have hkept := noted hinv (show Unmarked .read from trivial)
  obtain ⟨b', hread, hpure⟩ := bind_eq_ok.mp (mapError_eq_ok.mp htx)
  obtain ⟨rfl, rfl⟩ := Prod.mk.inj (pure_eq_ok.mp hpure)
  exact ⟨hkept, hP hinv hPt hkept.2⟩

/-- What is read of the database still holds of it where nobody falsifies it. -/
theorem reading_meets {read : TaskDb → Except Fault β} {R : β → Traced taskInterface → Prop}
    (hR : ∀ b, (workflow careful).Stable (R b))
    (h : ∀ s b, read s.state = .ok b → R b s) :
    (workflow careful).Meets (fun _ => True) (reading read) R := by
  refine .transact Discipline.stable_true hR fun t b s' hinv _ htx => ?_
  have hkept := noted hinv (show Unmarked .read from trivial)
  obtain ⟨b', hread, hpure⟩ := bind_eq_ok.mp (mapError_eq_ok.mp htx)
  obtain ⟨rfl, rfl⟩ := Prod.mk.inj (pure_eq_ok.mp hpure)
  exact ⟨hkept, hR _ hinv (h t _ hread) hkept.2⟩

theorem askTasks_harmless (question : TaskQuestion) : Harmless careful (askTasks question) :=
  inquire_harmless question _

theorem askTask_harmless (taskRef : String) : Harmless careful (askTask taskRef) :=
  inquire_harmless _ _

theorem actionKeyForCandidate_harmless (cfg : TaskConfig) (candidateId : String) (revision : ℕ) :
    Harmless careful (actionKeyForCandidate cfg candidateId revision) :=
  .bind (reading_harmless _) fun _ => checked_harmless _

theorem resolveAssignee_harmless (assignee : GroundedValue AssigneeValue) (actorId : String)
    (required : Bool) : Harmless careful (resolveAssignee assignee actorId required) := by
  unfold resolveAssignee
  split
  · refine .bind (inquire_harmless _ _) fun resolved => ?_
    split_ifs
    · exact .pure _
    · exact .pure _
  · exact .bind (unlessInput_harmless _ _ _) fun _ => .pure _

/-- The candidate is one of the lineage. -/
def Rooted (candidateId root : String) (s : Traced taskInterface) : Prop :=
  ∃ record, s.state.candidates.get candidateId = some record ∧ record.lineageRootId = root

/-- The key is that of the candidate's lineage. -/
def Keyed (cfg : TaskConfig) (candidateId key : String) (s : Traced taskInterface) : Prop :=
  ∃ record, s.state.candidates.get candidateId = some record ∧
    key = cfg.actionKey cfg.teamId record.lineageRootId

theorem rooted_stable {candidateId root : String} :
    (workflow careful).Stable (Rooted candidateId root) := by
  rintro s t - ⟨record, hrecord, hroot⟩ henv
  obtain ⟨later, hlater, hkept⟩ := henv.1.rows.kept candidateId record hrecord
  exact ⟨later, hlater, hkept.root.trans hroot⟩

theorem Keyed.proceeds {cfg : TaskConfig} {candidateId key : String} {s t : Traced taskInterface}
    (h : Keyed cfg candidateId key s) (hproceeds : Proceeds careful s t) :
    Keyed cfg candidateId key t := by
  obtain ⟨record, hrecord, hkey⟩ := h
  obtain ⟨later, hlater, hkept⟩ := hproceeds.rows.kept candidateId record hrecord
  exact ⟨later, hlater, by rw [hkey, hkept.root]⟩

theorem keyed_stable {cfg : TaskConfig} {candidateId key : String} :
    (workflow careful).Stable (Keyed cfg candidateId key) :=
  fun _ h henv => h.proceeds henv.1

theorem loadCandidate_meets (candidateId : String) (revision : Option ℕ) :
    (workflow careful).Meets (fun _ => True) (reading (loadCandidate candidateId revision))
      fun candidate => Rooted candidateId candidate.lineageRootId := by
  refine reading_meets (fun _ => rooted_stable) fun s candidate h => ?_
  simp only [loadCandidate, bind_eq_ok, require_eq_ok, pure_eq_ok] at h
  obtain ⟨record, hrecord, -, -, -, -, rfl⟩ := h
  exact ⟨record, hrecord, rfl⟩

theorem deriveTaskCreateKey_meets (cfg : TaskConfig) (candidateId root : String) :
    (workflow careful).Meets (Rooted candidateId root) (checked (deriveTaskCreateKey cfg root))
      (Keyed cfg candidateId) := by
  refine .ofExcept rooted_stable fun key s h hrooted => ?_
  obtain ⟨-, -, hkey⟩ := bind_eq_ok.mp (mapError_eq_ok.mp h)
  obtain ⟨record, hrecord, rfl⟩ := hrooted
  exact ⟨record, hrecord, (pure_eq_ok.mp hkey).symm⟩

/-- The key under which a candidate is prepared is that of its lineage. -/
theorem prepareCandidate_meets (cfg : TaskConfig) (candidateId : String) (revision : ℕ)
    (actorId : String) (required : Bool) :
    (workflow careful).Meets (fun _ => True)
      (prepareCandidate cfg candidateId revision actorId required)
      fun prepared => Keyed cfg candidateId prepared.actionKey := by
  have hrooted : ∀ root, (workflow careful).Stable (Rooted candidateId root) :=
    fun _ => rooted_stable
  refine .bind (loadCandidate_meets candidateId _) fun candidate => ?_
  refine .bind (unlessInput_harmless _ _ _ _ (hrooted _)) fun _ => ?_
  refine .bind (unlessInput_harmless _ _ _ _ (hrooted _)) fun _ => ?_
  refine .bind (unlessInput_harmless _ _ _ _ (hrooted _)) fun _ => ?_
  refine .bind (unlessInput_harmless _ _ _ _ (hrooted _)) fun _ => ?_
  refine .bind (unlessInput_harmless _ _ _ _ (hrooted _)) fun _ => ?_
  refine .bind (resolveAssignee_harmless _ _ _ _ (hrooted _)) fun _ => ?_
  refine .bind (checked_harmless _ _ (hrooted _)) fun _ => ?_
  refine .bind (deriveTaskCreateKey_meets cfg candidateId _) fun actionKey => ?_
  refine .bind (checked_harmless _ _ keyed_stable) fun draft => ?_
  exact .pure keyed_stable fun _ h => h

theorem reconcileCandidate_harmless (cfg : TaskConfig) (candidateId : String) (revision : ℕ) :
    Harmless careful (reconcileCandidate cfg candidateId revision) := by
  refine .bind (reading_harmless _) fun candidate => ?_
  refine .bind (checked_harmless _) fun actionKey => ?_
  refine .bind (askTasks_harmless _) fun found => ?_
  split
  · exact .pure _
  · split_ifs
    · exact .pure _
    · exact .pure _
  · exact .pure _

end Programs

section Marking

variable {candidates candidates' : Table ActionCandidateRecord} {candidateId : String}
  {found : ActionCandidateRecord}

/-- Somebody has begun to execute the candidate; where everybody is careful and it is still
executing, it is at the revision. -/
def Begun (careful : Prop) (candidateId : String) (revision : ℕ) (s : Traced taskInterface) :
    Prop :=
  ∃ record, s.state.candidates.get candidateId = some record ∧
    ¬ ActionCandidateRecord.Waiting record ∧
    (careful → Orderly s.notes → record.executionStatus = .executing →
      record.currentRevision = revision)

/-- A candidate that waits no longer and is not failed is being executed or is executed. -/
theorem executing_or_executed (hfailed : NotFailed record)
    (hwaiting : ¬ ActionCandidateRecord.Waiting record) :
    record.executionStatus = .executing ∨ record.executionStatus = .executed := by
  cases hstatus : record.executionStatus with
  | notRequested => exact absurd (Or.inl hstatus) hwaiting
  | handedOff => exact absurd (Or.inr hstatus) hwaiting
  | executing => exact Or.inl rfl
  | executed => exact Or.inr rfl
  | failed => exact absurd hstatus hfailed

/-- What a candidate does in a mark: it waits no longer, and all else of it stays. -/
theorem startExecuting_ok (careful : Prop)
    (hnot : ∀ id record, candidates.get id = some record → NotFailed record)
    (h : startExecuting candidateId candidates = .ok (found, candidates')) :
    candidates.get candidateId = some found ∧ AllAdvance careful candidates candidates' ∧
      ∃ record, candidates'.get candidateId = some record ∧
        record.currentRevision = found.currentRevision ∧
        (record.executionStatus = .executing ∨
          record.executionStatus = .executed ∧ found.executionStatus = .executed) := by
  simp only [startExecuting, bind_eq_ok, require_eq_ok] at h
  obtain ⟨row, hrow, h⟩ := h
  split_ifs at h with hwaiting
  · simp only [bind_eq_ok, pure_eq_ok, Prod.mk.injEq] at h
    obtain ⟨moved, hmove, rfl, rfl⟩ := h
    obtain ⟨old, hold, hallowed, hwrites⟩ := transitionCandidateExecution_ok hmove
    obtain rfl : row = old := Option.some.inj (hrow.symm.trans hold)
    have hid : row.id = candidateId := Table.key_of_get hrow
    refine ⟨hrow, Table.Evolves.of_writes Advances.refl hwrites (fun other hother => ?_)
      (fun _ h => by cases h), { row with executionStatus := .executing }, ?_, rfl, Or.inl rfl⟩
    · have hother' : candidates.get row.id = some other := hother
      rw [hid, hrow] at hother'
      cases hother'
      exact .of_execution hallowed (fun h => by cases h)
    · rw [← hid]
      exact hwrites.1
  · simp only [pure_eq_ok, Prod.mk.injEq] at h
    obtain ⟨rfl, rfl⟩ := h
    refine ⟨hrow, .refl candidates, row, hrow, rfl, ?_⟩
    exact (executing_or_executed (hnot candidateId row hrow) hwaiting).imp_right fun h => ⟨h, h⟩

theorem finishExecuting_ok (careful : Prop)
    (hnot : ∀ id record, candidates.get id = some record → NotFailed record)
    (h : finishExecuting candidateId candidates = .ok (found, candidates')) :
    candidates.get candidateId = some found ∧ AllAdvance careful candidates candidates' ∧
      ∃ record, candidates'.get candidateId = some record ∧
        record.executionStatus = .executed := by
  simp only [finishExecuting, bind_eq_ok, require_eq_ok] at h
  obtain ⟨⟨row, middle⟩, hstart, record, hrecord, h⟩ := h
  obtain ⟨hrow, hadvance, later, hlater, -, hstatus⟩ := startExecuting_ok careful hnot hstart
  obtain rfl : later = record := Option.some.inj (hlater.symm.trans hrecord)
  split_ifs at h with hexecuting
  · simp only [bind_eq_ok, pure_eq_ok, Prod.mk.injEq] at h
    obtain ⟨moved, hmove, rfl, rfl⟩ := h
    obtain ⟨old, hold, hallowed, hwrites⟩ := transitionCandidateExecution_ok hmove
    obtain rfl : later = old := Option.some.inj (hlater.symm.trans hold)
    have hid : later.id = candidateId := Table.key_of_get hlater
    refine ⟨hrow, hadvance.trans (Table.Evolves.of_writes Advances.refl hwrites
      (fun other hother => ?_) (fun _ h => by cases h)),
        { later with executionStatus := .executed }, ?_,
      rfl⟩
    · have hother' : middle.get later.id = some other := hother
      rw [hid, hlater] at hother'
      cases hother'
      exact .of_execution hallowed (fun h => by cases h)
    · rw [← hid]
      exact hwrites.1
  · simp only [pure_eq_ok, Prod.mk.injEq] at h
    obtain ⟨rfl, rfl⟩ := h
    exact ⟨hrow, hadvance, later, hlater, (hstatus.resolve_left hexecuting).1⟩

theorem AllAdvance.notFailed (h : AllAdvance careful candidates candidates')
    (hnot : ∀ id record, candidates.get id = some record → NotFailed record) :
    ∀ id record, candidates'.get id = some record → NotFailed record := by
  intro id record hrecord
  cases hold : candidates.get id with
  | none => exact h.fresh id record hrecord hold
  | some old =>
    obtain ⟨row, hrow, hkept⟩ := h.kept id old hold
    obtain rfl : row = record := Option.some.inj (hrow.symm.trans hrecord)
    exact fun hfailed => hnot id old hold (hkept.failed hfailed)

theorem executed_stable : (workflow careful).Stable (Executed candidateId) :=
  fun _ h henv => h.proceeds henv.1

theorem begun_stable {revision : ℕ} :
    (workflow careful).Stable (Begun careful candidateId revision) := by
  rintro s t hinv ⟨record, hrecord, hwaiting, hrevision⟩ henv
  obtain ⟨later, hlater, hkept⟩ := henv.1.rows.kept candidateId record hrecord
  have hstatus := executing_or_executed (hinv.rows candidateId record hrecord) hwaiting
  refine ⟨later, hlater, ?_, fun hcareful horderly hexecuting => ?_⟩
  · rcases hstatus with hstatus | hstatus
    · rcases hkept.executing hstatus with h | h <;> simp [ActionCandidateRecord.Waiting, h]
    · simp [ActionCandidateRecord.Waiting, hkept.executed hstatus]
  · rcases hstatus with hstatus | hstatus
    · rw [(hkept.frozen hcareful hstatus hexecuting).1]
      exact hrevision hcareful (horderly.of_suffix henv.1.notes) hstatus
    · rw [hkept.executed hstatus] at hexecuting
      cases hexecuting

/-- The candidate is marked: somebody is executing it, at the revision the mark was to find. -/
theorem markCandidateExecuting_meets (revision : ℕ) :
    (workflow careful).Meets (fun _ => True) (markCandidateExecuting candidateId revision)
      fun _ => Begun careful candidateId revision := by
  refine .transact Discipline.stable_true (fun _ => begun_stable) fun t mark s' hinv _ htx => ?_
  simp only [mapError_eq_ok, bind_eq_ok, pure_eq_ok, Prod.mk.injEq, Prod.exists] at htx
  obtain ⟨found, candidates, hstart, rfl, rfl⟩ := htx
  obtain ⟨hfound, hadvance, record, hrecord, hrevision, hstatus⟩ :=
    startExecuting_ok careful hinv.rows hstart
  refine ⟨keeps_of ⟨hadvance, List.suffix_cons _ _⟩ ⟨hadvance.notFailed hinv.rows, ?_, ?_⟩,
    record, hrecord, ?_, fun _ horderly _ => ?_⟩
  · intro hcareful horderly mark first hmark
    rcases List.mem_cons.mp hmark with heq | hmark
    · cases heq
    · exact hinv.marks hcareful (horderly.of_suffix (List.suffix_cons _ _)) mark first hmark
  · intro mark first hmark
    rcases List.mem_cons.mp hmark with heq | hmark
    · cases heq
    · exact (hinv.executed mark first hmark).proceeds
        (⟨hadvance, List.suffix_cons _ _⟩ : Proceeds careful t _)
  · rcases hstatus with h | ⟨h, -⟩ <;> simp [ActionCandidateRecord.Waiting, h]
  · rw [hrevision]
    exact horderly _ List.mem_cons_self _ rfl

theorem markCandidateExecuted_meets (revision : ℕ) (first : Bool) :
    (workflow careful).Meets
      (fun s => first = false → Begun careful candidateId revision s)
      (markCandidateExecuted candidateId revision first) fun _ => Executed candidateId := by
  refine .transact (fun hinv h henv hfirst => begun_stable hinv (h hfirst) henv)
    (fun _ => executed_stable) fun t mark s' hinv hbegun htx => ?_
  simp only [mapError_eq_ok, bind_eq_ok, pure_eq_ok, Prod.mk.injEq, Prod.exists] at htx
  obtain ⟨found, candidates, hfinish, rfl, rfl⟩ := htx
  obtain ⟨hfound, hadvance, hexecuted⟩ := finishExecuting_ok careful hinv.rows hfinish
  have hproceeds : Proceeds careful t ⟨{ t.state with candidates },
      .markedExecuted ⟨found, revision⟩ first :: t.notes⟩ := ⟨hadvance, List.suffix_cons _ _⟩
  refine ⟨keeps_of hproceeds ⟨hadvance.notFailed hinv.rows, ?_, ?_⟩, hexecuted⟩
  · intro hcareful horderly mark other hmark hmoved
    have hbefore := horderly.of_suffix (List.suffix_cons _ _)
    rcases List.mem_cons.mp hmark with heq | hmark
    · cases heq
      cases first with
      | true => exact horderly _ List.mem_cons_self _ rfl
      | false =>
        -- The workflow marked the candidate before, so it is executing since.
        obtain ⟨record, hrecord, hwaiting, hrevision⟩ := hbegun rfl
        obtain rfl : found = record := Option.some.inj (hfound.symm.trans hrecord)
        have hstatus := executing_or_executed (hinv.rows candidateId found hfound) hwaiting
        exact hrevision hcareful hbefore (hstatus.resolve_right hmoved)
    · exact hinv.marks hcareful hbefore mark other hmark hmoved
  · intro mark other hmark
    rcases List.mem_cons.mp hmark with heq | hmark
    · cases heq
      obtain rfl : found.id = candidateId := Table.key_of_get hfound
      exact hexecuted
    · exact (hinv.executed mark other hmark).proceeds hproceeds

end Marking

section Workflow

/-- The workflow ends with the candidate executed, under the key it was prepared with. -/
def EndsUnder (candidateId key : String) (outcome : TaskServiceOutcome)
    (s : Traced taskInterface) : Prop :=
  Executed candidateId s ∧ outcome.actionKey = key

theorem createTask_meets (request : ExecuteCandidate) (prepared : PreparedCandidate)
    (disposition : TaskDisposition) (related : List String) :
    (workflow careful).Meets (fun _ => True) (createTask request prepared disposition related)
      (EndsUnder request.candidateId prepared.actionKey) := by
  refine .bind (markCandidateExecuting_meets request.expectedRevision) fun _ => ?_
  refine .bind (inquire_harmless _ _ _ begun_stable) fun made => ?_
  refine .bind (askTask_harmless _ _ begun_stable) fun task => ?_
  refine .bind (checked_harmless _ _ begun_stable) fun _ => ?_
  refine .bind (.conseq (markCandidateExecuted_meets request.expectedRevision false)
    (fun _ hbegun _ => hbegun) fun _ _ h => h) fun _ => ?_
  exact .pure executed_stable fun _ h => ⟨h, rfl⟩

theorem reuseTask_meets (request : ExecuteCandidate) (prepared : PreparedCandidate)
    (disposition : TaskDisposition) (found : ExternalTask) :
    (workflow careful).Meets (fun _ => True) (reuseTask request prepared disposition found)
      (EndsUnder request.candidateId prepared.actionKey) := by
  refine .bind (askTask_harmless _ _ Discipline.stable_true) fun task => ?_
  refine .bind (.conseq (markCandidateExecuted_meets request.expectedRevision true)
    (fun _ _ => nofun) fun _ _ h => h) fun _ => ?_
  exact .pure executed_stable fun _ h => ⟨h, rfl⟩

/-- The candidate is executed, and the outcome has the key of its lineage. -/
def Done (cfg : TaskConfig) (candidateId : String) (outcome : TaskServiceOutcome)
    (s : Traced taskInterface) : Prop :=
  Executed candidateId s ∧ Keyed cfg candidateId outcome.actionKey s

theorem done_of_endsUnder {cfg : TaskConfig} {candidateId key : String}
    {p : TaskProgram TaskServiceOutcome}
    (h : (workflow careful).Meets (fun _ => True) p (EndsUnder candidateId key)) :
    (workflow careful).Meets (Keyed cfg candidateId key) p (Done cfg candidateId) :=
  (h.keep (D := workflow careful) (R := Keyed cfg candidateId key) fun hkeyed hall =>
    hkeyed.proceeds hall.1).conseq
    (fun _ hkeyed => ⟨trivial, hkeyed⟩) fun _ _ hends => ⟨hends.1.1, hends.1.2 ▸ hends.2⟩

/-- Where the workflow ends with a task, created or found, its candidate is executed. -/
theorem executeCandidate_meets (cfg : TaskConfig) (request : ExecuteCandidate) :
    (workflow careful).Meets (fun _ => True) (executeCandidate cfg request)
      (Done cfg request.candidateId) := by
  refine .bind (prepareCandidate_meets _ _ _ _ _) fun prepared => ?_
  refine .bind (askTasks_harmless _ _ keyed_stable) fun exact => ?_
  split
  · exact done_of_endsUnder (reuseTask_meets request prepared _ _)
  · exact .throw
  · refine .bind (askTasks_harmless _ _ keyed_stable) fun similar => ?_
    unfold createOrReuse
    split
    · exact .throw
    · exact done_of_endsUnder (reuseTask_meets request prepared _ _)
    · exact done_of_endsUnder (createTask_meets request prepared _ _)

end Workflow

/-- What a result of the adapter says about the call it is of: a success refers to a task, and
where it is not of a reconciliation, under the key of the candidate's lineage, and the candidate
is executed. -/
def Answered (cfg : TaskToolConfig) (flight : Flight) (result : ToolResult)
    (s : Traced taskInterface) : Prop :=
  result.status = .succeeded →
    ∃ request, cfg.createInput flight.context.arguments = some request ∧
      (flight.phase = .execute → Executed request.candidateId s ∧
        ∃ task actionKey, result.externalReference = some (taskReference task actionKey) ∧
          Keyed cfg.toTaskConfig request.candidateId actionKey s)

variable {cfg : TaskToolConfig} {flight : Flight}

theorem Answered.proceeds {result : ToolResult} {s t : Traced taskInterface}
    (h : Answered cfg flight result s) (hproceeds : Proceeds careful s t) :
    Answered cfg flight result t := by
  intro hstatus
  obtain ⟨request, hrequest, hdone⟩ := h hstatus
  refine ⟨request, hrequest, fun hphase => ?_⟩
  obtain ⟨hexecuted, task, actionKey, hreference, hkeyed⟩ := hdone hphase
  exact ⟨hexecuted.proceeds hproceeds, task, actionKey, hreference, hkeyed.proceeds hproceeds⟩

theorem answered_of_unsuccessful {result : ToolResult} (h : result.status ≠ .succeeded) :
    (workflow careful).Meets (fun _ => True) (Program.pure result) (Answered cfg flight) :=
  fun _ _ _ _ _ hstatus => absurd hstatus h

theorem refused_meets (errorCode errorMessage : String) :
    (workflow careful).Meets (fun _ => True) (Program.pure (refused errorCode errorMessage))
      (Answered cfg flight) :=
  answered_of_unsuccessful nofun

theorem readInput_meets (arguments : Json) :
    (workflow careful).Meets (fun _ => True) (readInput cfg arguments)
      fun request _ => cfg.createInput arguments = some request := by
  refine .ofExcept Discipline.stable_true fun request s h _ => ?_
  exact require_eq_ok.mp (mapError_eq_ok.mp h)

theorem runWorkflow_meets {request : TaskCreateInput} (actorId : String)
    (hrequest : cfg.createInput flight.context.arguments = some request) :
    (workflow careful).Meets (fun _ => True) (runWorkflow cfg flight.context request actorId)
      (Answered cfg flight) := by
  refine .bind (reading_harmless _ _ Discipline.stable_true) fun trusted => .catchFault ?_ ?_
  · refine .bind (executeCandidate_meets _ _) fun outcome => .pure ?_ ?_
    · exact fun hs h henv => ⟨executed_stable hs h.1 henv, keyed_stable hs h.2 henv⟩
    · intro s hdone _
      exact ⟨request, hrequest, fun _ => ⟨hdone.1, _, _, rfl, hdone.2⟩⟩
  · intro e
    cases e with
    | needsInput code question => exact refused_meets code question
    | raised fault => exact .throw

theorem executeCreate_meets :
    (workflow careful).Meets (fun _ => True) (executeCreate cfg flight.context)
      (Answered cfg flight) := by
  refine .bind (readInput_meets _) fun request s hs hrequest => ?_
  split_ifs
  · exact refused_meets _ _ s hs trivial
  · refine Discipline.Meets.bind (actionKeyForCandidate_harmless _ _ _ _ Discipline.stable_true)
      (fun expectedKey => ?_) s hs trivial
    split_ifs
    · exact refused_meets _ _
    · split
      · exact refused_meets _ _
      · exact runWorkflow_meets _ hrequest

theorem reconciledResult_meets {request : TaskCreateInput} (found : ExternalTask)
    (hphase : flight.phase = .reconcile)
    (hrequest : cfg.createInput flight.context.arguments = some request) :
    (workflow careful).Meets (fun _ => True) (reconciledResult cfg request found)
      (Answered cfg flight) := by
  refine .bind (askTask_harmless _ _ Discipline.stable_true) fun task => ?_
  refine .bind (Q := fun _ _ => True) ?_ fun actionKey => ?_
  · unfold foundKey
    split
    · exact .pure Discipline.stable_true fun _ h => h
    · exact actionKeyForCandidate_harmless _ _ _ _ Discipline.stable_true
  · refine .pure Discipline.stable_true fun s _ _ => ⟨request, hrequest, fun h => ?_⟩
    rw [hphase] at h
    cases h

theorem reconcileCreate_meets (hphase : flight.phase = .reconcile) :
    (workflow careful).Meets (fun _ => True) (reconcileCreate cfg flight.context)
      (Answered cfg flight) := by
  refine .bind (readInput_meets _) fun request s hs hrequest => ?_
  refine Discipline.Meets.bind (reconcileCandidate_harmless _ _ _ _ Discipline.stable_true)
    (fun result => ?_) s hs trivial
  split
  · exact answered_of_unsuccessful nofun
  · exact answered_of_unsuccessful nofun
  · exact reconciledResult_meets _ hphase hrequest

theorem adapterProgram_meets :
    (workflow careful).Meets (fun _ => True) (adapterProgram cfg flight) (Answered cfg flight) := by
  unfold adapterProgram
  split
  · exact executeCreate_meets
  · rename_i hphase
    exact reconcileCreate_meets hphase

end TaskSystem
end Matinier
