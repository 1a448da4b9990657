import Matinier.Assistant.ExecutorInvariant
import Matinier.Meeting.CandidateGraph
import Matinier.TaskSystem.Marks
import Matinier.TaskSystem.References

/-!
# Interleavings of workflows and operations

Any number of calls of the executor are under way, and the adapter of each call that creates a
task runs its program, one command at a time, while batches of operations change the candidates.
A call may run out of time or be lost with its program at any point, and what it left unknown may
be reconciled any number of times.

In every run in which no batch cancels a candidate that is executing, a candidate that is
executing keeps its revision, its content and its status until it is executed. Where besides the
first mark of every workflow finds the revision that the workflow runs for, whatever is marked
executed is at that revision. To cancel a candidate that is executing is not refused.
-/

namespace Matinier
namespace TaskSystem

open Assistant Meeting

structure TaskSystemConfig where
  executor : ExecutorConfig
  tools : TaskToolConfig
  candidates : CandidateConfig

/-- The executor, the candidates and what was noted of them, the program of each call requested
where its adapter has begun, and the replies that the calls ended with. No step reads what the
tracker told each call and which candidates its workflow marked executed. -/
structure TaskWorld where
  executor : ExecutorWorld
  traced : Traced taskInterface
  running : List (Option (TaskProgram ToolResult)) := []
  replied : List (Flight × ToolResult) := []
  heard : List (ToolCallId × TaskAnswer) := []
  marked : List (ToolCallId × String) := []

inductive TaskAction where
  | delta (sessionId : SessionId) (evidence : List ProjectionSegment)
      (operations : List CandidateOperation)
  | conclude (executionId : ExecutionId) (context : TaskDecisionContext)
  | executor (action : ExecutorAction)
  | begin (flight : ℕ)
  | command (flight : ℕ) (choice : Choice taskInterface)
  | answer (flight : ℕ)

def IsCreate (flight : Flight) : Prop := flight.tool.spec.name = "task.create"

instance (flight : Flight) : Decidable (IsCreate flight) := inferInstanceAs (Decidable (_ = _))

def answerOf : TaskProgram ToolResult → Option AdapterAnswer
  | .pure result => some (.result result)
  | .throw _ => some .raised
  | _ => none

/-- The mark that the next command of a program is, where it is the first of its workflow. -/
def nextMark (db : TaskDb) : TaskProgram ToolResult → Option Mark
  | .atomic note tx _ => (tx db).toOption.bind fun result => firstMark (note result.1)
  | .ask question _ => firstMark question
  | _ => none

def told : Choice taskInterface → Option TaskAnswer
  | .answer answer => some answer
  | _ => none

/-- The candidate that a note says was marked executed. -/
def executedMark : TaskNote → Option String
  | .markedExecuted mark _ => some mark.found.id
  | _ => none

/-- The candidates that were marked executed since there were `count` notes. -/
def marksSince (count : ℕ) (notes : List TaskNote) : List String :=
  (notes.take (notes.length - count)).filterMap executedMark

/-- What the second transaction of a call replies. -/
def replies (w : ExecutorWorld) : ExecutorAction → List (Flight × ToolResult)
  | .persist i now =>
    match w.answered[i]? with
    | none => []
    | some (flight, answer) =>
      match adapterResult flight answer >>= fun result =>
        persistResult flight result now w.db.newObservationId w.db with
      | .error _ => []
      | .ok (reply, _) => [(flight, reply)]
  | _ => []

namespace TaskWorld

variable {cfg : TaskSystemConfig}

/-- The adapter of a call that creates a task answers by its program, or runs out of time. -/
def permitted (w : TaskWorld) : ExecutorAction → Bool
  | .callAdapter _ .timeout => true
  | .callAdapter i _ => (w.executor.requested[i]?).all fun flight => ¬ IsCreate flight
  | _ => true

def realigned (w : TaskWorld) (executor : ExecutorWorld) :
    ExecutorAction → List (Option (TaskProgram ToolResult))
  | .execute _ | .reconcile .. =>
    w.running ++ List.replicate (executor.requested.length - w.running.length) none
  | .callAdapter i _ | .abandonRequested i => w.running.eraseIdx i
  | .crash => []
  | .persist .. | .abandonAnswered _ | .service _ => w.running

def withState (w : TaskWorld) (state : TaskDb) : TaskWorld :=
  { w with traced := { w.traced with state } }

def next (cfg : TaskSystemConfig) (w : TaskWorld) : TaskAction → Option TaskWorld
  | .delta sessionId evidence operations =>
    let candidates := nextCandidates cfg.candidates w.traced.state.candidates
      (.delta sessionId evidence operations)
    some (w.withState { w.traced.state with candidates })
  | .conclude executionId context =>
    some (w.withState { w.traced.state with
      context := Function.update w.traced.state.context executionId context })
  | .executor action =>
    if w.permitted action = true then
      (w.executor.next cfg.executor action).map fun executor =>
        { w with
          executor
          running := w.realigned executor action
          replied := w.replied ++ replies w.executor action }
    else none
  | .begin i =>
    match w.executor.requested[i]?, w.running[i]? with
    | some flight, some none =>
      if IsCreate flight then
        some { w with running := w.running.set i (some (adapterProgram cfg.tools flight)) }
      else none
    | _, _ => none
  | .command i choice =>
    match w.executor.requested[i]?, w.running[i]? with
    | some flight, some (some program) => (program.advance choice w.traced).map fun step =>
        { w with
          traced := step.1
          running := w.running.set i (some step.2)
          heard := (told choice).toList.map (flight.context.toolCallId, ·) ++ w.heard
          marked := (marksSince w.traced.notes.length step.1.notes).map
            (flight.context.toolCallId, ·) ++ w.marked }
    | _, _ => none
  | .answer i =>
    match w.running[i]? with
    | some (some program) => (answerOf program).bind fun answer =>
        (w.executor.next cfg.executor (.callAdapter i answer)).map fun executor =>
          { w with executor, running := w.running.eraseIdx i }
    | _ => none

abbrev Steps (cfg : TaskSystemConfig) : TaskWorld → TaskAction → TaskWorld → Prop :=
  fun w a w' => w.next cfg a = some w'

/-- Nothing was called yet, and no candidate is failed. -/
structure Initial (w : TaskWorld) : Prop where
  executor : w.executor.Initial
  notes : w.traced.notes = []
  running : w.running = []
  replied : w.replied = []
  heard : w.heard = []
  marked : w.marked = []
  candidates : ∀ id record, w.traced.state.candidates.get id = some record → NotFailed record

def Accepts (cfg : TaskSystemConfig) (w : TaskWorld) (sessionId : SessionId)
    (evidence : List ProjectionSegment) (operations : List CandidateOperation) : Prop :=
  (({ cfg := cfg.candidates, sessionId, evidence } : CandidateMergePolicy).applyOperations
    w.traced.state.candidates operations).toOption.isSome

instance (w : TaskWorld) (sessionId : SessionId) (evidence : List ProjectionSegment)
    (operations : List CandidateOperation) :
    Decidable (w.Accepts cfg sessionId evidence operations) :=
  inferInstanceAs (Decidable (_ = true))

/-- No operation of a batch that is applied cancels a candidate that is executing. -/
def Gentle (cfg : TaskSystemConfig) (w : TaskWorld) : TaskAction → Prop
  | .delta sessionId evidence operations => w.Accepts cfg sessionId evidence operations →
    ∀ id ∈ operations.flatMap CandidateOperation.cancels,
      ∀ record ∈ w.traced.state.candidates.get id, record.executionStatus ≠ .executing
  | _ => True

instance (w : TaskWorld) : (a : TaskAction) → Decidable (w.Gentle cfg a)
  | .delta sessionId evidence operations => inferInstanceAs (Decidable
      (w.Accepts cfg sessionId evidence operations →
        ∀ id ∈ operations.flatMap CandidateOperation.cancels,
          ∀ record ∈ w.traced.state.candidates.get id, record.executionStatus ≠ .executing))
  | .conclude .. | .executor _ | .begin _ | .command .. | .answer _ => .isTrue trivial

variable {w w' : TaskWorld} {careful : Prop} {a : TaskAction}

/-- A batch advances every candidate, and leaves those that are executing where it is gentle. -/
theorem delta_advance {sessionId : SessionId} {evidence : List ProjectionSegment}
    {operations : List CandidateOperation}
    (hgentle : careful → w.Gentle cfg (.delta sessionId evidence operations)) :
    AllAdvance careful w.traced.state.candidates
      (nextCandidates cfg.candidates w.traced.state.candidates
        (.delta sessionId evidence operations)) := by
  unfold nextCandidates
  simp only
  cases happly : ({ cfg := cfg.candidates, sessionId, evidence } :
    CandidateMergePolicy).applyOperations w.traced.state.candidates operations with
  | error e => exact .refl _
  | ok candidates =>
    have haccepts : w.Accepts cfg sessionId evidence operations := by
      simp [Accepts, happly, Except.toOption]
    have hkept := CandidateMergePolicy.applyOperations_undisturbed happly
    refine ⟨fun id old hold => ?_, fun id record hrecord hnone => ?_⟩
    · obtain ⟨record, hrecord, hsame⟩ := hkept.kept id old hold
      have hid : old.id = id := Table.key_of_get hold
      refine ⟨record, hrecord, hsame.root, fun h => hsame.execution.trans h,
        fun h => Or.inl (hsame.execution.trans h), fun h => hsame.execution.symm.trans h,
        fun hcareful hexecuting _ => ?_⟩
      have hnot : old.id ∉ operations.flatMap CandidateOperation.cancels := fun hin =>
        hgentle hcareful haccepts old.id hin old (hid ▸ hold) hexecuting
      rw [hsame.frozen hexecuting hnot]
      exact ⟨rfl, rfl, rfl⟩
    · have hfresh : record.executionStatus = .notRequested :=
        hkept.fresh id record hrecord hnone
      simp [NotFailed, hfresh]

/-- The program of a call that was requested before a step of the executor, and still is. -/
theorem realigned_program {executor : ExecutorWorld} {action : ExecutorAction}
    {R : Flight → TaskProgram ToolResult → Prop}
    (haligned : ∀ (i : ℕ) p, w.running[i]? = some (some p) →
      ∃ flight, w.executor.requested[i]? = some flight ∧ R flight p)
    (hnext : w.executor.next cfg.executor action = some executor) {i : ℕ}
    {p : TaskProgram ToolResult} (hp : (w.realigned executor action)[i]? = some (some p)) :
    ∃ flight, executor.requested[i]? = some flight ∧ R flight p := by
  -- What is requested besides has no program yet.
  have hlonger : ∀ {count : ℕ}, (w.running ++ List.replicate count none)[i]? = some (some p) →
      ∃ flight, w.executor.requested[i]? = some flight ∧ R flight p := by
    intro count h
    rw [List.getElem?_append] at h
    split_ifs at h
    · exact haligned i p h
    · simp [List.getElem?_replicate] at h
  have herased : ∀ {j : ℕ}, (w.running.eraseIdx j)[i]? = some (some p) →
      ∃ flight, (w.executor.requested.eraseIdx j)[i]? = some flight ∧ R flight p := by
    intro j h
    rw [List.getElem?_eraseIdx] at h ⊢
    split_ifs at h ⊢
    · exact haligned i p h
    · exact haligned (i + 1) p h
  have happended : ∀ {flight later : Flight}, w.executor.requested[i]? = some flight →
      (w.executor.requested ++ [later])[i]? = some flight := fun h =>
    (List.getElem?_append_left (List.getElem?_eq_some_iff.mp h).1).trans h
  cases action with
  | execute input =>
    obtain ⟨flight, hflight, hR⟩ := hlonger hp
    simp only [ExecutorWorld.next] at hnext
    split at hnext <;> cases hnext
    · exact ⟨flight, happended hflight, hR⟩
    · exact ⟨flight, hflight, hR⟩
  | reconcile id refs now =>
    obtain ⟨flight, hflight, hR⟩ := hlonger hp
    simp only [ExecutorWorld.next] at hnext
    split at hnext <;> cases hnext
    · exact ⟨flight, happended hflight, hR⟩
    · exact ⟨flight, hflight, hR⟩
  | callAdapter j answer =>
    obtain ⟨flight, -, rfl⟩ := Option.map_eq_some_iff.mp hnext
    exact herased hp
  | persist j now =>
    obtain ⟨answered, -, rfl⟩ := Option.map_eq_some_iff.mp hnext
    exact haligned i p hp
  | abandonRequested j =>
    cases hnext
    exact herased hp
  | abandonAnswered j =>
    cases hnext
    exact haligned i p hp
  | crash => simp [realigned] at hp
  | service action =>
    simp only [ExecutorWorld.next] at hnext
    split at hnext <;> cases hnext <;> exact haligned i p hp

theorem answered_of_next {executor : ExecutorWorld} {action : ExecutorAction}
    {flight : Flight} {answer : AdapterAnswer}
    (hnext : w.executor.next cfg.executor action = some executor)
    (h : (flight, answer) ∈ executor.answered) :
    (flight, answer) ∈ w.executor.answered ∨
      ∃ i, action = .callAdapter i answer ∧ w.executor.requested[i]? = some flight := by
  cases action with
  | callAdapter i later =>
    obtain ⟨called, hcalled, rfl⟩ := Option.map_eq_some_iff.mp hnext
    rcases List.mem_append.mp h with h | h
    · exact Or.inl h
    · obtain ⟨rfl, rfl⟩ := Prod.mk.inj (List.mem_singleton.mp h)
      exact Or.inr ⟨i, rfl, hcalled⟩
  | persist i now =>
    obtain ⟨answered, -, rfl⟩ := Option.map_eq_some_iff.mp hnext
    exact Or.inl (List.mem_of_mem_eraseIdx h)
  | abandonAnswered i =>
    cases hnext
    exact Or.inl (List.mem_of_mem_eraseIdx h)
  | crash =>
    cases hnext
    cases h
  | abandonRequested i =>
    cases hnext
    exact Or.inl h
  | execute input =>
    simp only [ExecutorWorld.next] at hnext
    split at hnext <;> cases hnext <;> exact Or.inl h
  | reconcile id refs now =>
    simp only [ExecutorWorld.next] at hnext
    split at hnext <;> cases hnext <;> exact Or.inl h
  | service action =>
    simp only [ExecutorWorld.next] at hnext
    split at hnext <;> cases hnext <;> exact Or.inl h

def toldTo (w : TaskWorld) (flight : Flight) : Set TaskAnswer :=
  {answer | (flight.context.toolCallId, answer) ∈ w.heard}

/-- The program of a call keeps to the discipline, and refers to what its call was told. -/
def Follows (careful : Prop) (cfg : TaskSystemConfig) (w : TaskWorld) (flight : Flight)
    (p : TaskProgram ToolResult) : Prop :=
  IsCreate flight ∧ (workflow careful).Safe (Answered cfg.tools flight) p w.traced ∧
    p.Tells (Refers flight) (w.toldTo flight)

/-- The programs keep to their discipline, what they answered is so, and what a workflow marked
executed is executed. -/
structure Disciplined (careful : Prop) (cfg : TaskSystemConfig) (w : TaskWorld) : Prop where
  sound : Sound careful w.traced
  known : ExecutorWorld.Known cfg.executor w.executor
  programs : ∀ (i : ℕ) p, w.running[i]? = some (some p) →
    ∃ flight, w.executor.requested[i]? = some flight ∧ w.Follows careful cfg flight p
  answers : ∀ flight result, (flight, AdapterAnswer.result result) ∈ w.executor.answered →
    IsCreate flight → Answered cfg.tools flight result w.traced ∧
      Refers flight result (w.toldTo flight)
  marked : ∀ toolCallId candidateId, (toolCallId, candidateId) ∈ w.marked →
    Executed candidateId w.traced

theorem Initial.disciplined (h : w.Initial) : w.Disciplined careful cfg := by
  refine ⟨⟨h.candidates, fun _ _ mark first hmark => ?_, fun mark first hmark => ?_⟩,
    h.executor.known, fun i p hp => ?_, fun flight result hmem => ?_, fun _ _ hmem => ?_⟩
  · rw [h.notes] at hmark
    cases hmark
  · rw [h.notes] at hmark
    cases hmark
  · simp [h.running] at hp
  · rw [h.executor.idle.2.1] at hmem
    cases hmem
  · rw [h.marked] at hmem
    cases hmem

theorem Disciplined.of_env {traced : Traced taskInterface} (h : w.Disciplined careful cfg)
    (henv : (workflow careful).env w.traced traced) :
    ({ w with traced } : TaskWorld).Disciplined careful cfg := by
  refine ⟨henv.2 h.sound, h.known, fun i p hp => ?_, fun flight result hmem hcreate => ?_,
    fun toolCallId candidateId hmem => (h.marked toolCallId candidateId hmem).proceeds henv.1⟩
  · obtain ⟨flight, hflight, hcreate, hsafe, htells⟩ := h.programs i p hp
    exact ⟨flight, hflight, hcreate, hsafe.of_env henv, htells⟩
  · obtain ⟨hanswered, hrefers⟩ := h.answers flight result hmem hcreate
    exact ⟨hanswered.proceeds henv.1, hrefers⟩

/-- More that the tracker tells, and marks of candidates that are executed, change nothing. -/
theorem Disciplined.told (heard : List (ToolCallId × TaskAnswer))
    {marked : List (ToolCallId × String)} (h : w.Disciplined careful cfg)
    (hmarked : ∀ entry ∈ marked, Executed entry.2 w.traced) :
    ({ w with heard := heard ++ w.heard, marked := marked ++ w.marked } :
      TaskWorld).Disciplined careful cfg := by
  have hsub : ∀ flight, w.toldTo flight ⊆
      ({ w with heard := heard ++ w.heard, marked := marked ++ w.marked } : TaskWorld).toldTo
        flight := fun _ _ hmem => List.mem_append_right _ hmem
  refine ⟨h.sound, h.known, fun i p hp => ?_, fun flight result hmem hcreate => ?_,
    fun toolCallId candidateId hmem => ?_⟩
  · obtain ⟨flight, hflight, hcreate, hsafe, htells⟩ := h.programs i p hp
    exact ⟨flight, hflight, hcreate, hsafe, htells.mono (hsub flight) fun _ _ _ => .mono⟩
  · obtain ⟨hanswered, hrefers⟩ := h.answers flight result hmem hcreate
    exact ⟨hanswered, hrefers.mono (hsub flight)⟩
  · rcases List.mem_append.mp hmem with hnew | hold
    · exact hmarked _ hnew
    · exact h.marked toolCallId candidateId hold

/-- What the notes say was marked executed is executed. -/
theorem executed_of_marksSince {s : Traced taskInterface} (h : Sound careful s) {count : ℕ}
    {candidateId : String} (hmem : candidateId ∈ marksSince count s.notes) :
    Executed candidateId s := by
  obtain ⟨note, hnote, hmark⟩ := List.mem_filterMap.mp hmem
  cases note with
  | markedExecuted mark first =>
    cases hmark
    exact h.executed mark first (List.mem_of_mem_take hnote)
  | asked | read | markedExecuting => cases hmark

/-- A step of the executor, to which the adapter of a task gave an answer of its program. -/
theorem Disciplined.executor {executor : ExecutorWorld} {action : ExecutorAction}
    {replied : List (Flight × ToolResult)} (h : w.Disciplined careful cfg)
    (hnext : w.executor.next cfg.executor action = some executor)
    (hanswer : ∀ i flight result, action = .callAdapter i (.result result) →
      w.executor.requested[i]? = some flight → IsCreate flight →
      Answered cfg.tools flight result w.traced ∧ Refers flight result (w.toldTo flight)) :
    ({ w with executor, running := w.realigned executor action, replied } :
      TaskWorld).Disciplined careful cfg := by
  refine ⟨h.sound, h.known.step (ExecutorWorld.stepped_of_next hnext), fun i p hp =>
    realigned_program h.programs hnext hp, fun flight result hmem hcreate => ?_, h.marked⟩
  rcases answered_of_next hnext hmem with hbefore | ⟨i, rfl, hflight⟩
  · exact h.answers flight result hbefore hcreate
  · exact hanswer i flight result rfl hflight hcreate

theorem Disciplined.command {i : ℕ} {choice : Choice taskInterface} (h : w.Disciplined careful cfg)
    (hstep : w.next cfg (.command i choice) = some w') :
    w'.Disciplined careful cfg ∧ Proceeds careful w.traced w'.traced := by
  simp only [next] at hstep
  split at hstep
  · rename_i flight program hrequested hprogram
    obtain ⟨⟨traced, rest⟩, hadvance, rfl⟩ := Option.map_eq_some_iff.mp hstep
    obtain ⟨flight', hflight', hcreate, hsafe, htells⟩ := h.programs i program hprogram
    obtain rfl : flight = flight' := Option.some.inj (hrequested.symm.trans hflight')
    obtain ⟨hsound, hrest, hall⟩ := hsafe.advance h.sound hadvance
    have henv : (workflow careful).env w.traced traced := by
      rcases hall with rfl | hall
      · exact (workflow careful).env_refl w.traced
      · exact hall
    have hmarked : ∀ entry ∈ (marksSince w.traced.notes.length traced.notes).map
        (flight.context.toolCallId, ·), Executed entry.2 traced := by
      intro entry hentry
      obtain ⟨candidateId, hid, rfl⟩ := List.mem_map.mp hentry
      exact executed_of_marksSince hsound hid
    have hlater := (h.of_env henv).told
      ((TaskSystem.told choice).toList.map (flight.context.toolCallId, ·)) hmarked
    refine ⟨⟨hsound, h.known, fun j p hp => ?_, hlater.answers, hlater.marked⟩, henv.1⟩
    rw [List.getElem?_set] at hp
    split_ifs at hp with hij
    · cases hp
      subst hij
      refine ⟨flight, hrequested, hcreate, hrest, htells.advance hadvance
        (fun _ hmem => List.mem_append_right _ hmem) (fun answer hchoice => ?_)
        fun _ _ _ => .mono⟩
      subst hchoice
      exact List.mem_append_left _ (List.mem_singleton.mpr rfl)
    · exact hlater.programs j p hp
  · cases hstep

theorem Disciplined.step (h : w.Disciplined careful cfg) (hgentle : careful → w.Gentle cfg a)
    (hstep : w.next cfg a = some w') :
    w'.Disciplined careful cfg ∧ Proceeds careful w.traced w'.traced := by
  cases a with
  | delta sessionId evidence operations =>
    cases hstep
    have hrows := delta_advance hgentle
    let candidates := nextCandidates cfg.candidates w.traced.state.candidates
      (.delta sessionId evidence operations)
    have hproceeds : Proceeds careful w.traced
        (w.withState { w.traced.state with candidates }).traced := ⟨hrows, List.suffix_rfl⟩
    refine ⟨h.of_env ⟨hproceeds, fun hs => ⟨hrows.notFailed hs.rows, hs.marks, ?_⟩⟩, hproceeds⟩
    exact fun mark first hmark => (hs.executed mark first hmark).proceeds hproceeds
  | conclude executionId context =>
    cases hstep
    let context := Function.update w.traced.state.context executionId context
    have hproceeds : Proceeds careful w.traced
        (w.withState { w.traced.state with context }).traced :=
      ⟨.refl w.traced.state.candidates, List.suffix_rfl⟩
    refine ⟨h.of_env ⟨hproceeds, fun hs => ⟨hs.rows, hs.marks, ?_⟩⟩, hproceeds⟩
    exact fun mark first hmark => (hs.executed mark first hmark).proceeds hproceeds
  | executor action =>
    simp only [next] at hstep
    split_ifs at hstep with hpermitted
    obtain ⟨executor, hnext, rfl⟩ := Option.map_eq_some_iff.mp hstep
    refine ⟨h.executor hnext fun i flight result haction hflight hcreate => ?_, .refl w.traced⟩
    subst haction
    simp [permitted, hflight, hcreate] at hpermitted
  | begin i =>
    simp only [next] at hstep
    split at hstep
    · rename_i flight hflight hnone
      split_ifs at hstep with hcreate
      cases hstep
      refine ⟨⟨h.sound, h.known, fun j p hp => ?_, h.answers, h.marked⟩, .refl w.traced⟩
      rw [List.getElem?_set] at hp
      split_ifs at hp with hij
      · cases hp
        subst hij
        exact ⟨flight, hflight, hcreate, adapterProgram_meets _ h.sound trivial,
          adapterProgram_tells⟩
      · exact h.programs j p hp
    · cases hstep
  | command i choice => exact h.command hstep
  | answer i =>
    simp only [next] at hstep
    split at hstep
    · rename_i program hprogram
      obtain ⟨answer, hanswer, hstep⟩ := Option.bind_eq_some_iff.mp hstep
      obtain ⟨executor, hnext, rfl⟩ := Option.map_eq_some_iff.mp hstep
      obtain ⟨flight, hflight, hcreate, hsafe, htells⟩ := h.programs i program hprogram
      refine ⟨h.executor hnext fun j other result haction hother _ => ?_, .refl w.traced⟩
      cases haction
      obtain rfl : flight = other := Option.some.inj (hflight.symm.trans hother)
      cases program with
      | pure value =>
        cases hanswer
        exact ⟨hsafe w.traced ((workflow careful).env_refl w.traced), htells⟩
      | throw | atomic | ask | gather => cases hanswer
    · cases hstep

end TaskWorld

section Example

def reportProposal : CandidateContentProposal :=
  { spokenProposal "send" with
    deliverable := (spokenProposal "report").title }

theorem reportCaption_projectable : reportCaption.Projectable := by decide
theorem no_summary : Brief none := by decide

/-- A tracker whose keys are the lineages, and calls that are all for one candidate. -/
def plainTools : TaskToolConfig where
  teamId := "team"
  actionKey := fun _ root => root
  normalizedText := id
  tokens := fun _ => []
  messageText := fun _ => ""
  createInput := fun _ => some { candidateId := "csend", candidateRevision := 1 }
  createOutput := fun _ => .null

def plainSystem : TaskSystemConfig where
  executor := fileTaskConfig
  tools := plainTools
  candidates := plainCandidates

def sendGrant : GrantRecord := { fileTaskGrant with candidateIds := ["csend"] }

/-- An execution under a grant for one candidate, which is not there yet. -/
def sendStart : TaskWorld where
  executor :=
    { db :=
        { executions := (Table.empty.insert (filingExecution (some 1))).getD .empty
          grants := (Table.empty.insert sendGrant).getD .empty } }
  traced := { state := {}, notes := [] }

theorem sendStart_initial : sendStart.Initial := by
  refine ⟨⟨⟨rfl, rfl, rfl, rfl⟩, rfl, rfl⟩, rfl, rfl, rfl, rfl, rfl, fun id record h => ?_⟩
  cases h

def sendInput : ExecuteInput where
  request :=
    { executionId := 1
      toolName := "task.create"
      arguments := .obj []
      grantId := some 1
      candidateId := some "csend"
      logicalActionKey := some "csend"
      idempotencyKey := some "grant-1:csend" }
  now := 1
  toolCallId := 1
  claimId := 1

/-- The candidate is created, the call requested, and its workflow finds no task and marks the
candidate executing. -/
def sendTrace : List TaskAction :=
  [.delta 1 [⟨reportCaption, reportCaption_projectable⟩]
      [.create { content := reportProposal, summary_brief := no_summary }],
    .executor (.execute sendInput), .begin 0, .command 0 .commit, .command 0 .commit,
    .command 0 .commit, .command 0 (.answer (.tasks [])), .command 0 (.answer (.tasks [])),
    .command 0 .commit]

def sentTask : ExternalTask where
  externalId := "1"
  identifier := "TEAM-1"
  url := "tracker/1"
  title := "send"
  teamId := "team"
  actionKey := some "csend"

/-- The tracker creates the task, and the candidate is marked executed. -/
def sentTrace : List TaskAction :=
  [.command 0 (.answer (.created sentTask true)), .command 0 (.answer (.task sentTask)),
    .command 0 .commit]

end Example

namespace TaskWorld

variable {cfg : TaskSystemConfig}

/-- A command that is the first mark of its workflow finds the revision it runs for. -/
def MarksMatch (w : TaskWorld) : TaskAction → Prop
  | .command i _ =>
    ∀ program ∈ w.running[i]?.join, ∀ mark ∈ nextMark w.traced.state program, mark.Matches
  | _ => True

instance (w : TaskWorld) : (a : TaskAction) → Decidable (w.MarksMatch a)
  | .command i _ => inferInstanceAs (Decidable (∀ program ∈ w.running[i]?.join,
      ∀ mark ∈ nextMark w.traced.state program,
        mark.found.currentRevision = mark.expectedRevision))
  | .delta .. | .conclude .. | .executor _ | .begin _ | .answer _ => .isTrue trivial

/-- Nothing is cancelled while it is executing, or marked first at another revision than the
one its workflow runs for. -/
def Careful (cfg : TaskSystemConfig) (w : TaskWorld) (a : TaskAction) : Prop :=
  w.Gentle cfg a ∧ w.MarksMatch a

instance (w : TaskWorld) (a : TaskAction) : Decidable (w.Careful cfg a) :=
  inferInstanceAs (Decidable (_ ∧ _))

/-- What was executing in `v` is executed in `w` or is as it was, and what was marked executed
was at the revision its workflow ran for. -/
structure KeepsExecuting (v w : TaskWorld) : Prop where
  frozen : ∀ id record, v.traced.state.candidates.get id = some record →
    record.executionStatus = .executing →
    ∃ later, w.traced.state.candidates.get id = some later ∧
      (later.executionStatus = .executing ∨ later.executionStatus = .executed) ∧
      (later.executionStatus = .executing →
        later.currentRevision = record.currentRevision ∧ later.revisions = record.revisions ∧
          later.contentStatus = record.contentStatus)
  unconflicted : Unconflicted w.traced.notes

variable {u v w w' : TaskWorld} {a : TaskAction}

theorem orderly_advance {p rest : TaskProgram ToolResult} {choice : Choice taskInterface}
    {s t : Traced taskInterface} (hnotes : Orderly s.notes)
    (hmatch : ∀ mark ∈ nextMark s.state p, mark.Matches)
    (h : p.advance choice s = some (t, rest)) : Orderly t.notes := by
  have hcons : ∀ note : TaskNote, (∀ mark ∈ firstMark note, mark.Matches) →
      Orderly (note :: s.notes) := by
    intro note hnote other hother
    rcases List.mem_cons.mp hother with rfl | hother
    · exact hnote
    · exact hnotes other hother
  cases p with
  | pure | throw | gather => cases h
  | atomic note tx next =>
    cases htx : tx s.state with
    | error e =>
      simp only [Program.advance, htx] at h
      cases choice <;> cases h <;> exact hnotes
    | ok result =>
      have hnote : ∀ mark ∈ firstMark (note result.1), mark.Matches := fun mark hmark =>
        hmatch mark (by simpa [nextMark, htx, Except.toOption] using hmark)
      simp only [Program.advance, htx] at h
      cases choice <;> cases h
      · exact hcons _ hnote
      · exact hnotes
      · exact hcons _ hnote
  | ask question next =>
    cases choice <;> cases h <;> exact hcons question hmatch

theorem orderly_step (hnotes : Orderly w.traced.notes) (hmatch : w.MarksMatch a)
    (hstep : w.next cfg a = some w') : Orderly w'.traced.notes := by
  cases a with
  | delta | conclude =>
    cases hstep
    exact hnotes
  | executor action =>
    simp only [next] at hstep
    split_ifs at hstep
    obtain ⟨executor, -, rfl⟩ := Option.map_eq_some_iff.mp hstep
    exact hnotes
  | begin i =>
    simp only [next] at hstep
    split at hstep
    · split_ifs at hstep
      cases hstep
      exact hnotes
    · cases hstep
  | command i choice =>
    simp only [next] at hstep
    split at hstep
    · rename_i flight program hrequested hprogram
      obtain ⟨step, hadvance, rfl⟩ := Option.map_eq_some_iff.mp hstep
      exact orderly_advance hnotes (hmatch program (by simp [hprogram])) hadvance
    · cases hstep
  | answer i =>
    simp only [next] at hstep
    split at hstep
    · obtain ⟨answer, -, hstep⟩ := Option.bind_eq_some_iff.mp hstep
      obtain ⟨executor, -, rfl⟩ := Option.map_eq_some_iff.mp hstep
      exact hnotes
    · cases hstep

/-- What a careful run keeps. -/
def Frozen (cfg : TaskSystemConfig) (w : TaskWorld) : Prop :=
  w.Disciplined True cfg ∧ Orderly w.traced.notes

theorem Frozen.step (h : w.Frozen cfg) (hstep : Under (Careful cfg) (Steps cfg) w a w') :
    w'.Frozen cfg ∧ Proceeds True w.traced w'.traced := by
  obtain ⟨⟨hgentle, hmatch⟩, hstep⟩ := hstep
  obtain ⟨hlater, hproceeds⟩ := h.1.step (fun _ => hgentle) hstep
  exact ⟨⟨hlater, orderly_step h.2 hmatch hstep⟩, hproceeds⟩

theorem Initial.frozen (h : u.Initial) : u.Frozen cfg := by
  refine ⟨h.disciplined, fun note hnote => ?_⟩
  rw [h.notes] at hnote
  cases hnote

/-- In every careful run, from every state of it on, what is executing stays as it is until it is
executed, and nothing is marked executed at another revision than the one expected. -/
theorem executing_frozen {ls ms : List TaskAction} (hstart : u.Initial)
    (hbefore : Run (Under (Careful cfg) (Steps cfg)) u ls v)
    (hafter : Run (Under (Careful cfg) (Steps cfg)) v ms w) : KeepsExecuting v w := by
  have hv : v.Frozen cfg :=
    hbefore.invariant (fun _ _ _ hi hs => (hi.step hs).1) hstart.frozen
  have hw : w.Frozen cfg := hafter.invariant (fun _ _ _ hi hs => (hi.step hs).1) hv
  have hproceeds : Proceeds True v.traced w.traced :=
    hafter.relation (R := fun s t => Proceeds True s.traced t.traced)
      (fun s => .refl s.traced) Proceeds.trans
      (fun _ _ _ hi hs => (hi.step hs).1) (fun _ _ _ hi hs => (hi.step hs).2) hv
  refine ⟨fun id record hrecord hexecuting => ?_, hw.1.sound.marks trivial hw.2⟩
  obtain ⟨later, hlater, hkept⟩ := hproceeds.rows.kept id record hrecord
  exact ⟨later, hlater, hkept.executing hexecuting, hkept.frozen trivial hexecuting⟩

def sendingWorld : TaskWorld := (follow (guarded (Careful plainSystem) (next plainSystem)) sendTrace
  sendStart).get (by decide)

def sentWorld : TaskWorld := (follow (guarded (Careful plainSystem) (next plainSystem)) sentTrace
  sendingWorld).get (by decide)

theorem sendingWorld_run :
    Run (Under (Careful plainSystem) (Steps plainSystem)) sendStart sendTrace sendingWorld :=
  run_under_to_get (Careful plainSystem) (next plainSystem) sendTrace _ _

/-- The candidate whose task is being created is frozen until it is executed. -/
theorem sentWorld_frozen :
    Run (Under (Careful plainSystem) (Steps plainSystem)) sendingWorld sentTrace sentWorld ∧
      KeepsExecuting sendingWorld sentWorld := by
  have hrun : Run (Under (Careful plainSystem) (Steps plainSystem)) sendingWorld
    sentTrace sentWorld :=
    run_under_to_get (Careful plainSystem) (next plainSystem) sentTrace _ _
  exact ⟨hrun, executing_frozen sendStart_initial sendingWorld_run hrun⟩

theorem taken_id : CandidateName "csend" := by decide
theorem taken_sources : [1] ≠ [] := List.cons_ne_nil _ _
theorem taken_reason : 1 ≤ "taken back".length ∧ "taken back".length ≤ 1000 := by decide

def takeBack : TaskAction :=
  .delta 1 [⟨reportCaption, reportCaption_projectable⟩] [.cancel
    { candidateId := "csend"
      expectedRevision := 1
      reason := "taken back"
      sourceSegmentIds := [1]
      id_name := taken_id
      revision_pos := Nat.one_pos
      sources_ne := taken_sources
      reason_brief := taken_reason }]

def takenBackWorld : TaskWorld := (sendingWorld.next plainSystem takeBack).get (by decide)

/-- A candidate that is executing is cancelled: it goes on executing, at another revision. -/
theorem not_every_run_freezes :
    ¬ ∀ (cfg : TaskSystemConfig) (u v w : TaskWorld) (ls ms : List TaskAction), u.Initial →
      Run (Steps cfg) u ls v → Run (Steps cfg) v ms w → KeepsExecuting v w := by
  intro hall
  have hkept := hall plainSystem sendStart sendingWorld takenBackWorld sendTrace [takeBack]
    sendStart_initial sendingWorld_run.forget (.single (Option.some_get _).symm)
  have hbefore : (sendingWorld.traced.state.candidates.get "csend").isSome = true := by decide
  have hstatus : ∀ record ∈ sendingWorld.traced.state.candidates.get "csend",
      record.executionStatus = .executing ∧ record.currentRevision = 1 := by decide
  have hafter : ∀ later ∈ takenBackWorld.traced.state.candidates.get "csend",
      later.executionStatus = .executing ∧ later.currentRevision = 2 := by decide
  obtain ⟨record, hrecord⟩ := Option.isSome_iff_exists.mp hbefore
  obtain ⟨hexecuting, hfirst⟩ := hstatus record hrecord
  obtain ⟨later, hlater, -, hsame⟩ := hkept.frozen "csend" record hrecord hexecuting
  obtain ⟨hstill, hsecond⟩ := hafter later hlater
  rw [(hsame hstill).1, hfirst] at hsecond
  exact absurd hsecond (by decide)

end TaskWorld

end TaskSystem
end Matinier
