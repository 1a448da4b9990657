import Std.Data.String.ToNat
import Matinier.Captions.Reconciler
import Matinier.Foundation.Naming

/-!
# The recognition adapter

The adapter of the recognition provider handles the messages of one task in the order in which
they come, between the audio it sends. A message that it refuses fails the task: nothing is handled
behind it, so a run has no step for it.
-/

namespace Matinier
namespace Captions

/-- What an adapter keeps of its task. -/
structure ProviderTask where
  taskId : String
  eventSequence : ℕ := 0
  generatedSegmentSequence : ℕ := 0
  activeGeneratedSegmentId : Option String := none

namespace ProviderTask

variable (task : ProviderTask)

def generatedSegmentId (sequence : ℕ) : String := s!"{task.taskId}:segment:{sequence}"

/-- `_segment_id`, for what a message has under `sentence_id`, as a text. -/
def segmentId (sentenceId : Option String) (isFinal : Bool) : String × ProviderTask :=
  match sentenceId with
  | some sentenceId =>
    (sentenceId, if isFinal then { task with activeGeneratedSegmentId := none } else task)
  | none =>
    match task.activeGeneratedSegmentId with
    | some active =>
      (active, if isFinal then { task with activeGeneratedSegmentId := none } else task)
    | none =>
      let sequence := task.generatedSegmentSequence + 1
      let generated := task.generatedSegmentId sequence
      (generated, { task with
        generatedSegmentSequence := sequence
        activeGeneratedSegmentId := if isFinal then none else some generated })

/-- `_provider_event_id`, for what the header of a message has. -/
def providerEventId (eventId : Option String) : String × ProviderTask :=
  match eventId with
  | some eventId => (eventId, task)
  | none =>
    let sequence := task.eventSequence + 1
    (s!"{task.taskId}:{sequence}", { task with eventSequence := sequence })

end ProviderTask

/-- A `result-generated` message whose sentence has a text and is no heartbeat. -/
structure ResultMessage where
  eventId : Option String := none
  sentenceId : Option String := none
  text : String
  sentenceEnd : Bool := false
  beginTime : Option ℤ := none
  endTime : Option ℤ := none
  confidence : Option ℚ := none
  receivedAtMs : ℤ := 0

namespace ResultMessage

variable (message : ResultMessage)

def event (segmentId providerEventId : String) : ProviderEvent where
  eventType := if message.sentenceEnd then .finalResult else .partialResult
  providerEventId := providerEventId
  segmentId := some segmentId
  text := some message.text
  beginTimeMs := message.beginTime
  endTimeMs := message.endTime
  confidence := message.confidence
  receivedAtMs := message.receivedAtMs

end ResultMessage

inductive RecognitionState where
  | starting
  | started
  | finishing
  | completed
  deriving DecidableEq, Repr

/-- The adapter, with the result events it has given out, each with the utterance it is of. -/
structure RecognitionProvider where
  task : ProviderTask
  state : RecognitionState := .starting
  emitted : List (ℕ × ProviderEvent) := []

/-- What happens to the adapter. The utterance of a result is known to the provider only. -/
inductive RecognitionInput where
  | audio (size : ℕ)
  | finish
  | taskStarted (eventId : Option String)
  | heartbeat
  | result (utterance : ℕ) (message : ResultMessage)
  | taskFinished (eventId : Option String)
  | unknown

namespace RecognitionInput

def said : RecognitionInput → Option (Said ℕ String)
  | .result utterance message => some ⟨utterance, message.sentenceId, message.sentenceEnd⟩
  | _ => none

end RecognitionInput

namespace RecognitionProvider

variable (provider : RecognitionProvider)

def Running : Prop := provider.state = .started ∨ provider.state = .finishing

instance : Decidable provider.Running := inferInstanceAs (Decidable (_ ∨ _))

def handleResult (utterance : ℕ) (message : ResultMessage) : RecognitionProvider :=
  let (segmentId, task) := provider.task.segmentId message.sentenceId message.sentenceEnd
  let (providerEventId, task) := task.providerEventId message.eventId
  { provider with
    task
    emitted := provider.emitted ++ [(utterance, message.event segmentId providerEventId)] }

/-- `send_audio`, `finish` and `_handle_server_message`, where they do not raise. -/
def next : RecognitionInput → Option RecognitionProvider
  | .audio _ => if provider.Running then some provider else none
  | .finish => if provider.state = .started then some
    { provider with state := .finishing } else none
  | .taskStarted eventId =>
    if provider.state = .starting then
      some { provider with state := .started, task := (provider.task.providerEventId eventId).2 }
    else none
  | .heartbeat => if provider.Running then some provider else none
  | .result utterance message =>
    if provider.Running then some (provider.handleResult utterance message) else none
  | .taskFinished eventId =>
    if provider.state = .completed then none
    else some { provider with
      state := .completed
      task := (provider.task.providerEventId eventId).2 }
  | .unknown => if provider.state = .completed then none else some provider

def Handles (input : RecognitionInput) (provider' : RecognitionProvider) : Prop :=
  provider.next input = some provider'

def fresh (taskId : String) : RecognitionProvider := { task := { taskId } }

/-- Events of one utterance have one segment, and events of two have two. -/
def Consistent : Prop :=
  ∀ e ∈ provider.emitted, ∀ e' ∈ provider.emitted, e.1 = e'.1 ↔ e.2.segmentId = e'.2.segmentId

instance : Decidable provider.Consistent :=
  inferInstanceAs (Decidable (∀ e ∈ provider.emitted, ∀ e' ∈ provider.emitted, _))

theorem run_of_follow {inputs : List RecognitionInput} {provider provider' : RecognitionProvider}
    (h : follow next inputs provider = some provider') : Run Handles provider inputs provider' :=
  Matinier.run_of_follow h

end RecognitionProvider
structure Tally where
  opened : Bool := false
  number : ℕ := 0

namespace Tally

/-- What is said opens a segment where it has no name and none goes on; what is final, also with a
name of its own, closes the one that goes on. -/
def count (tally : Tally) (x : Said ℕ String) : Tally :=
  if x.own = none then ⟨!x.closes, if tally.opened then tally.number else tally.number + 1⟩
  else { tally with opened := tally.opened && !x.closes }

variable {tally : Tally} {x y : Said ℕ String} {l : List (Said ℕ String)}

theorem count_of_open (hopened : tally.opened = true) (hx : x.closes = false) :
    tally.count x = tally := by
  obtain ⟨opened, number⟩ := tally
  cases hopened
  unfold count
  split_ifs <;> simp_all

theorem count_opened_of_closes (hx : x.closes = true) : (tally.count x).opened = false := by
  unfold count
  split_ifs <;> simp [hx]

theorem number_le_count : tally.number ≤ (tally.count x).number := by
  unfold count
  split_ifs <;> simp

theorem foldl_of_open (hopened : tally.opened = true) (hl : ∀ x ∈ l, x.closes = false) :
    l.foldl count tally = tally := by
  induction l with
  | nil => rfl
  | cons x l ih =>
    rw [List.foldl_cons, count_of_open hopened (hl x List.mem_cons_self)]
    exact ih fun y hy => hl y (List.mem_cons_of_mem _ hy)

theorem number_le_foldl : tally.number ≤ (l.foldl count tally).number := by
  induction l generalizing tally with
  | nil => exact Nat.le_refl _
  | cons x l ih => exact number_le_count.trans ih

/-- Where no segment goes on, the next thing without a name has another number. -/
theorem number_lt_count (hopened : tally.opened = false) (hy : y.own = none) :
    tally.number < ((l.foldl count tally).count y).number := by
  induction l generalizing tally with
  | nil => simp [count, hy, hopened]
  | cons x l ih =>
    rw [List.foldl_cons]
    by_cases hx : x.own = none
    · calc tally.number < (tally.count x).number := by simp [count, hx, hopened]
        _ ≤ (l.foldl count (tally.count x)).number := number_le_foldl
        _ ≤ _ := number_le_count
    · have hkept : tally.count x = tally := by
        obtain ⟨opened, number⟩ := tally
        cases hopened
        simp [count, hx]
      rw [hkept]
      exact ih hopened

end Tally

def tallied (l : List (Said ℕ String)) : Tally := l.foldl Tally.count {}

theorem tallied_append (l m : List (Said ℕ String)) :
    tallied (l ++ m) = m.foldl Tally.count (tallied l) := List.foldl_append ..

/-- The number of the segment that something without a name is of. -/
def segmentNumber (place : List (Said ℕ String) × Said ℕ String) : ℕ :=
  ((tallied place.1).count place.2).number

/-- A segment goes on from one thing without a name to another just if nothing in between, nor the
first, is final. -/
theorem segmentNumber_eq_iff {before between : List (Said ℕ String)} {x y : Said ℕ String}
    (hx : x.own = none) (hy : y.own = none) :
    segmentNumber (before, x) = segmentNumber (before ++ x :: between, y) ↔
      ∀ z ∈ x :: between, z.closes = false := by
  have hlater : segmentNumber (before ++ x :: between, y) =
      ((between.foldl Tally.count ((tallied before).count x)).count y).number := by
    rw [segmentNumber, tallied_append]
    rfl
  rw [hlater]
  constructor
  · intro heq z hz
    rw [Bool.eq_false_iff]
    intro hcloses
    apply heq.not_lt
    rcases List.mem_cons.mp hz with rfl | hz
    · exact Tally.number_lt_count (Tally.count_opened_of_closes hcloses) hy
    · obtain ⟨m, rest, rfl⟩ := List.append_of_mem hz
      rw [List.foldl_append, List.foldl_cons]
      calc segmentNumber (before, x)
          ≤ (m.foldl Tally.count ((tallied before).count x)).number := Tally.number_le_foldl
        _ ≤ ((m.foldl Tally.count ((tallied before).count x)).count z).number :=
            Tally.number_le_count
        _ < _ := Tally.number_lt_count (Tally.count_opened_of_closes hcloses) hy
  · intro hall
    have hopened : ((tallied before).count x).opened = true := by
      simp [Tally.count, hx, hall x List.mem_cons_self]
    rw [Tally.foldl_of_open hopened fun z hz => hall z (List.mem_cons_of_mem _ hz)]
    simp [segmentNumber, Tally.count, hx, hy, hall x List.mem_cons_self]

/-- No final result that brings a name comes between two results of one utterance without one. -/
def SpokenThrough (l : List (Said ℕ String)) : Prop :=
  ∀ before x between y after, l = before ++ x :: between ++ y :: after → x.own = none →
    y.own = none → y.source = x.source → ∀ z ∈ between, z.own ≠ none → z.closes = false

/-- The numbers of segments tell utterances without names apart just if none is disturbed. -/
theorem numbersTell_iff {l : List (Said ℕ String)} (hnames : Said.OwnNames l)
    (hturns : Said.TakesTurns l) :
    Said.NumbersTell (places l) Prod.snd segmentNumber ↔ SpokenThrough l := by
  constructor
  · intro h before x between y after hl hx hy hsame z hz _
    have hplace : (before, x) ∈ places l := ⟨between ++ y :: after, by simp [hl]⟩
    have hplace' : (before ++ x :: between, y) ∈ places l := ⟨after, hl⟩
    have hnumber := (h _ hplace _ hplace' hx hy).mp hsame.symm
    exact (segmentNumber_eq_iff hx hy).mp hnumber z (List.mem_cons_of_mem _ hz)
  · intro h
    -- One place before another one.
    have hordered : ∀ before x between y after, l = before ++ x :: between ++ y :: after →
        x.own = none → y.own = none →
          (x.source = y.source ↔ segmentNumber (before, x) =
            segmentNumber (before ++ x :: between, y)) := by
      intro before x between y after hl hx hy
      rw [segmentNumber_eq_iff hx hy]
      constructor
      · intro hsame z hz
        have hopen := hturns.open_between hnames hl hx hsame.symm z hz
        cases hown : z.own with
        | none => exact hopen hown
        | some own =>
          have hbetween : z ∈ between := (List.mem_cons.mp hz).resolve_left fun heq => by
            rw [heq, hx] at hown
            cases hown
          exact h before x between y after hl hx hy hsame.symm z hbetween (by simp [hown])
      · intro hall
        by_contra hne
        obtain ⟨z, hz, -, hcloses⟩ := hturns.closed_between hnames hl hx hy fun heq => hne heq.symm
        rw [hall z hz] at hcloses
        cases hcloses
    rintro ⟨b, x⟩ ⟨a, hb⟩ ⟨b', y⟩ ⟨a', hb'⟩ hx hy
    rcases places_trichotomy (hb.symm.trans hb') with
      ⟨rfl, rfl, -⟩ | ⟨m, rfl, -⟩ | ⟨m, rfl, -⟩
    · simp
    · exact hordered b x m y a' hb' hx hy
    · rw [eq_comm, hordered b' y m x a hb hy hx, eq_comm]

namespace ProviderTask

/-- The task has counted its segments as they were said. -/
structure Counts (task : ProviderTask) (tally : Tally) : Prop where
  sequence : task.generatedSegmentSequence = tally.number
  active : task.activeGeneratedSegmentId =
    if tally.opened then some (task.generatedSegmentId tally.number) else none

theorem generatedSegmentId_injective (task : ProviderTask) :
    Function.Injective task.generatedSegmentId := by
  intro n m h
  have hrepr : Nat.repr n = Nat.repr m := by
    simpa [generatedSegmentId, toString, String.append_right_inj] using h
  exact Nat.repr_inj.mp hrepr

theorem Counts.segmentId {task : ProviderTask} {tally : Tally} (h : task.Counts tally)
    (x : Said ℕ String) :
    (task.segmentId x.own x.closes).1 =
        x.nameUnder task.generatedSegmentId (tally.count x).number ∧
      (task.segmentId x.own x.closes).2.taskId = task.taskId ∧
      (task.segmentId x.own x.closes).2.Counts (tally.count x) := by
  obtain ⟨source, own, closes⟩ := x
  obtain ⟨opened, number⟩ := tally
  obtain ⟨hsequence, hactive⟩ := h
  unfold ProviderTask.segmentId Said.nameUnder Tally.count
  cases own with
  | some own =>
    refine ⟨rfl, ?_, ?_⟩
    · dsimp only
      split_ifs <;> rfl
    · cases closes
      · exact ⟨hsequence, by simpa using hactive⟩
      · exact ⟨hsequence, by simp⟩
  | none =>
    cases opened
    · have hnone : task.activeGeneratedSegmentId = none := hactive
      rw [hnone]
      refine ⟨by simp [hsequence], rfl, ⟨by simp [hsequence], ?_⟩⟩
      cases closes <;> simp [hsequence, generatedSegmentId]
    · have hsome : task.activeGeneratedSegmentId = some (task.generatedSegmentId number) := hactive
      rw [hsome]
      refine ⟨rfl, ?_, ?_⟩
      · dsimp only
        split_ifs <;> rfl
      · cases closes
        · exact ⟨hsequence, hactive⟩
        · exact ⟨hsequence, by simp⟩

theorem Counts.providerEventId {task : ProviderTask} {tally : Tally} (h : task.Counts tally)
    (eventId : Option String) :
    (task.providerEventId eventId).2.taskId = task.taskId ∧
      (task.providerEventId eventId).2.Counts tally := by
  cases eventId with
  | none => exact ⟨rfl, h.sequence, h.active⟩
  | some eventId => exact ⟨rfl, h⟩

end ProviderTask

namespace RecognitionProvider

/-- What the adapter has given out of what was said. -/
structure Tells (taskId : String) (l : List (Said ℕ String)) (provider : RecognitionProvider) :
    Prop where
  taskId_eq : provider.task.taskId = taskId
  counts : provider.task.Counts (tallied l)
  emitted : ∀ utterance segmentId,
    (utterance, segmentId) ∈ provider.emitted.map (fun e => (e.1, e.2.segmentId)) ↔
      ∃ place ∈ places l, utterance = place.2.source ∧
        segmentId = some (place.2.nameUnder (ProviderTask.generatedSegmentId { taskId })
          (segmentNumber place))

theorem Tells.initial (taskId : String) : Tells taskId [] (fresh taskId) where
  taskId_eq := rfl
  counts := ⟨rfl, rfl⟩
  emitted := by simp [fresh, places]

variable {taskId : String} {l : List (Said ℕ String)} {provider provider' : RecognitionProvider}

theorem Tells.other (h : Tells taskId l provider) {task : ProviderTask}
    (htask : task.taskId = provider.task.taskId ∧ task.Counts (tallied l))
    (state : RecognitionState) :
    Tells taskId l { provider with task, state } :=
  ⟨htask.1.trans h.taskId_eq, htask.2, h.emitted⟩

theorem Tells.result (h : Tells taskId l provider) (utterance : ℕ) (message : ResultMessage) :
    Tells taskId (l ++ [⟨utterance, message.sentenceId, message.sentenceEnd⟩])
      (provider.handleResult utterance message) := by
  obtain ⟨hname, htask, hcounts⟩ :=
    h.counts.segmentId ⟨utterance, message.sentenceId, message.sentenceEnd⟩
  obtain ⟨htask', hcounts'⟩ := hcounts.providerEventId message.eventId
  have htally : tallied (l ++ [⟨utterance, message.sentenceId, message.sentenceEnd⟩]) =
      (tallied l).count ⟨utterance, message.sentenceId, message.sentenceEnd⟩ :=
    tallied_append l _
  refine ⟨htask'.trans (htask.trans h.taskId_eq), htally ▸ hcounts', ?_⟩
  intro u s
  unfold handleResult
  rw [List.map_append, List.mem_append, h.emitted]
  simp only [mem_places_append, or_and_right, exists_or, exists_eq_left]
  apply or_congr Iff.rfl
  rw [List.map_cons, List.map_nil, List.mem_singleton, Prod.mk.injEq]
  apply and_congr Iff.rfl
  have hgenerated : provider.task.generatedSegmentId =
      ProviderTask.generatedSegmentId { taskId } := by
    funext n
    rw [ProviderTask.generatedSegmentId, h.taskId_eq]
    rfl
  rw [← hgenerated]
  change s = some (provider.task.segmentId message.sentenceId message.sentenceEnd).1 ↔ _
  rw [hname]
  rfl

theorem Tells.step (h : Tells taskId l provider) {input : RecognitionInput}
    (hstep : provider.Handles input provider') :
    Tells taskId (l ++ input.said.toList) provider' := by
  unfold Handles next at hstep
  cases input with
  | result utterance message =>
    dsimp only at hstep
    split_ifs at hstep
    cases hstep
    exact h.result utterance message
  | audio _ | heartbeat | unknown =>
    dsimp only at hstep
    split_ifs at hstep
    cases hstep
    simp only [RecognitionInput.said, Option.toList_none, List.append_nil]
    exact h
  | finish =>
    dsimp only at hstep
    split_ifs at hstep
    cases hstep
    simp only [RecognitionInput.said, Option.toList_none, List.append_nil]
    exact h.other ⟨rfl, h.counts⟩ _
  | taskStarted eventId | taskFinished eventId =>
    dsimp only at hstep
    split_ifs at hstep
    cases hstep
    simp only [RecognitionInput.said, Option.toList_none, List.append_nil]
    exact h.other (h.counts.providerEventId eventId) _

theorem tells_of_run {inputs : List RecognitionInput}
    (h : Run Handles (fresh taskId) inputs provider) :
    Tells taskId (inputs.filterMap RecognitionInput.said) provider := by
  have hinitial : Tells taskId (([] : List RecognitionInput).filterMap RecognitionInput.said)
      (fresh taskId) := Tells.initial taskId
  have hrun := h.history
    (I := fun ms p => Tells taskId (ms.filterMap RecognitionInput.said) p)
    (fun ms p input p' hp hstep => by
      rw [List.filterMap_append]
      cases hsaid : input.said with
      | none => simpa [hsaid] using hp.step hstep
      | some x => simpa [hsaid] using hp.step hstep)
    hinitial
  simpa using hrun

/-- The segments of a run are consistent just if no utterance without an identifier of its own is
disturbed, and no identifier of the provider is one that the task generated. -/
theorem consistent_iff {inputs : List RecognitionInput}
    (h : Run Handles (fresh taskId) inputs provider)
    (hnames : Said.OwnNames (inputs.filterMap RecognitionInput.said))
    (hturns : Said.TakesTurns (inputs.filterMap RecognitionInput.said)) :
    provider.Consistent ↔ SpokenThrough (inputs.filterMap RecognitionInput.said) ∧
      Said.NamesApart (places (inputs.filterMap RecognitionInput.said)) Prod.snd
        segmentNumber (ProviderTask.generatedSegmentId { taskId }) := by
  have htells := tells_of_run h
  have hlist : provider.Consistent ↔
      ∀ e ∈ provider.emitted.map (fun e => (e.1, e.2.segmentId)),
        ∀ e' ∈ provider.emitted.map (fun e => (e.1, e.2.segmentId)), e.1 = e'.1 ↔ e.2 = e'.2 := by
    simp only [List.forall_mem_map]
    rfl
  rw [hlist, Said.consistent_of_named htells.emitted,
    Said.consistent_iff (ProviderTask.generatedSegmentId_injective _) hnames
      fun _ hplace => mem_of_mem_places hplace,
    numbersTell_iff hnames hturns]

end RecognitionProvider

end Captions
end Matinier
