import Matinier.Captions.RecognitionAdapter

/-!
# The translation adapter

The adapter of the translation provider has no task whose segments it could count. A result that
does not name its response is named after the number of the next event identifier, and the clock
of the adapter is the audio it has sent. As in the recognition adapter, what is refused ends the
run.

Both adapters name the segments of results that come without an identifier. The recognition adapter
keeps the segment that goes on, and forgets it when a result with an identifier is final. The
translation adapter keeps nothing: whatever draws an event identifier between two results of one
response parts them.
-/

namespace Matinier
namespace Captions

/-- A `response.text.text` message, or a `response.text.done` message where it is final. -/
structure TranslationMessage where
  eventId : Option String := none
  responseId : Option String := none
  itemId : Option String := none
  text : String
  stash : String := ""
  final : Bool := false
  receivedAtMs : ℤ := 0

def TranslationMessage.ownId (message : TranslationMessage) : Option String :=
  message.responseId <|> message.itemId

inductive TranslationState where
  | creating
  | configuring
  | started
  | finishing
  | completed
  deriving DecidableEq, Repr

/-- What happens to the adapter: its session is set up, audio is handed to the connection and has
been sent, and messages come. The response of a result is known to the provider. -/
inductive TranslationInput where
  | sessionCreated
  | sendUpdate
  | sessionUpdated (eventId : Option String)
  | sendAudio (size : ℕ)
  | audioSent (size : ℕ)
  | finish
  | result (response : ℕ) (message : TranslationMessage)
  | sessionFinished (eventId : Option String)
  | unknown

namespace TranslationInput

/-- What a result says, for its response. -/
def said : TranslationInput → Option (Said ℕ String)
  | .result response message => some ⟨response, message.ownId, message.final⟩
  | _ => none

/-- An event identifier is drawn: for a message that is sent, and for an event whose message has
none. -/
def draws : TranslationInput → Bool
  | .sendUpdate => true
  | .sendAudio size => size ≠ 0
  | .finish => true
  | .sessionUpdated eventId => eventId.isNone
  | .result _ message => message.eventId.isNone
  | .sessionFinished eventId => eventId.isNone
  | _ => false

end TranslationInput

def sampleRate : ℕ := 16000

def audioMs (size : ℕ) : ℕ := size * 1000 / (sampleRate * 2)

/-- The adapter, with the digits it has for its event identifiers and with the result events it
has given out, each with the response it is of. -/
structure TranslationProvider where
  hex : ℕ → String
  state : TranslationState := .creating
  created : Bool := false
  eventSequence : ℕ := 0
  audioTimeMs : ℕ := 0
  lastFinalEndMs : ℕ := 0
  segmentStartMs : String → Option ℕ := fun _ => none
  sending : List ℕ := []
  emitted : List (ℕ × ProviderEvent) := []

/-- The segment that is named after the number of an event identifier. -/
def numberedSegment (number : ℕ) : String := s!"translation:{number}"

namespace TranslationProvider

variable (provider : TranslationProvider)

def Running : Prop := provider.state = .started ∨ provider.state = .finishing

instance : Decidable provider.Running := inferInstanceAs (Decidable (_ ∨ _))

def segmentId (message : TranslationMessage) : String :=
  message.ownId.getD (numberedSegment (provider.eventSequence + 1))

def nextEventId : String × TranslationProvider :=
  let sequence := provider.eventSequence + 1
  (s!"event_{provider.hex sequence}_{sequence}", { provider with eventSequence := sequence })

def providerEventId (eventId : Option String) : String × TranslationProvider :=
  match eventId with
  | some eventId => (eventId, provider)
  | none => provider.nextEventId

/-- `_segment_start`: where a segment begins, the end of the last Final if it is new. -/
def segmentStart (segmentId : String) : ℕ × TranslationProvider :=
  match provider.segmentStartMs segmentId with
  | some start => (start, provider)
  | none =>
    (provider.lastFinalEndMs, { provider with
      segmentStartMs :=
        Function.update provider.segmentStartMs segmentId (some provider.lastFinalEndMs) })

/-- A result is given out; a Final closes its segment. -/
def handleResult (response : ℕ) (message : TranslationMessage) : TranslationProvider :=
  let segmentId := provider.segmentId message
  let endTimeMs := provider.audioTimeMs
  let (providerEventId, provider) := provider.providerEventId message.eventId
  let (beginTimeMs, provider) := provider.segmentStart segmentId
  let event : ProviderEvent :=
    { eventType := if message.final then .finalResult else .partialResult
      providerEventId
      segmentId := some segmentId
      text := some (if message.final then message.text else message.text ++ message.stash)
      beginTimeMs := some beginTimeMs
      endTimeMs := some endTimeMs
      receivedAtMs := message.receivedAtMs }
  let provider := { provider with emitted := provider.emitted ++ [(response, event)] }
  if message.final then
    { provider with
      lastFinalEndMs := endTimeMs
      segmentStartMs := Function.update provider.segmentStartMs segmentId none }
  else provider

/-- `start`, `send_audio`, `finish` and `_handle_server_message`, where they do not raise. -/
def next : TranslationInput → Option TranslationProvider
  | .sessionCreated =>
    if provider.state = .creating then some { provider with created := true } else none
  | .sendUpdate =>
    if provider.state = .creating ∧ provider.created = true then
      some { provider.nextEventId.2 with state := .configuring }
    else none
  | .sessionUpdated eventId =>
    if provider.state = .configuring then
      some { (provider.providerEventId eventId).2 with state := .started }
    else none
  | .sendAudio size =>
    if provider.Running then
      if size = 0 then some provider
      else some { provider.nextEventId.2 with sending := provider.sending ++ [size] }
    else none
  | .audioSent size =>
    if size ∈ provider.sending then
      some { provider with
        sending := provider.sending.erase size
        audioTimeMs := provider.audioTimeMs + audioMs size }
    else none
  | .finish =>
    if provider.state = .started then some { provider.nextEventId.2 with state := .finishing }
    else none
  | .result response message =>
    -- The state is looked at for a Partial only.
    if provider.state = .completed ∨ message.final = false ∧ ¬ provider.Running then none
    else some (provider.handleResult response message)
  | .sessionFinished eventId =>
    if provider.state = .completed then none
    else some { (provider.providerEventId eventId).2 with state := .completed }
  | .unknown => if provider.state = .completed then none else some provider

def Handles (input : TranslationInput) (provider' : TranslationProvider) : Prop :=
  provider.next input = some provider'

def fresh (hex : ℕ → String) : TranslationProvider := { hex }

/-- Events of one response have one segment, and events of two have two. -/
def Consistent : Prop :=
  ∀ e ∈ provider.emitted, ∀ e' ∈ provider.emitted, e.1 = e'.1 ↔ e.2.segmentId = e'.2.segmentId

instance : Decidable provider.Consistent :=
  inferInstanceAs (Decidable (∀ e ∈ provider.emitted, ∀ e' ∈ provider.emitted, _))

theorem run_of_follow {inputs : List TranslationInput} {provider provider' : TranslationProvider}
    (h : follow next inputs provider = some provider') : Run Handles provider inputs provider' :=
  Matinier.run_of_follow h

section Result

variable {provider} {response : ℕ} {message : TranslationMessage}

variable (provider) in
theorem providerEventId_fields (eventId : Option String) :
    (provider.providerEventId eventId).2 = { provider with
      eventSequence := provider.eventSequence + if eventId.isNone then 1 else 0 } := by
  cases eventId <;> rfl

def beginMs (provider : TranslationProvider) (segmentId : String) : ℕ :=
  (provider.segmentStartMs segmentId).getD provider.lastFinalEndMs

variable (provider) in
theorem segmentStart_fields (segmentId : String) :
    (provider.segmentStart segmentId).1 = provider.beginMs segmentId ∧
      (provider.segmentStart segmentId).2 = { provider with
        segmentStartMs := Function.update provider.segmentStartMs segmentId
          (some (provider.beginMs segmentId)) } := by
  unfold segmentStart beginMs
  cases h : provider.segmentStartMs segmentId with
  | some start =>
    have hsame := Function.update_eq_self segmentId provider.segmentStartMs
    rw [h] at hsame
    exact ⟨rfl, by rw [Option.getD_some, hsame]⟩
  | none => exact ⟨rfl, rfl⟩

def eventOf (provider : TranslationProvider) (message : TranslationMessage) : ProviderEvent where
  eventType := if message.final then .finalResult else .partialResult
  providerEventId := (provider.providerEventId message.eventId).1
  segmentId := some (provider.segmentId message)
  text := some (if message.final then message.text else message.text ++ message.stash)
  beginTimeMs := some (provider.beginMs (provider.segmentId message))
  endTimeMs := some provider.audioTimeMs
  receivedAtMs := message.receivedAtMs

theorem handleResult_eq : provider.handleResult response message =
    { provider with
      eventSequence := provider.eventSequence + if message.eventId.isNone then 1 else 0
      emitted := provider.emitted ++ [(response, provider.eventOf message)]
      lastFinalEndMs := if message.final then provider.audioTimeMs else provider.lastFinalEndMs
      segmentStartMs := Function.update provider.segmentStartMs (provider.segmentId message)
        (if message.final then none else some
          (provider.beginMs (provider.segmentId message))) } := by
  have hevent := providerEventId_fields provider message.eventId
  have hstart := segmentStart_fields (provider.providerEventId message.eventId).2
    (provider.segmentId message)
  rw [hevent] at hstart
  unfold handleResult eventOf
  dsimp only
  rw [hevent, hstart.1, hstart.2]
  cases message.final <;> simp [beginMs]

end Result

/-- The results of a run, each with the inputs before it. -/
def heard (inputs : List TranslationInput) : Set (List TranslationInput × Said ℕ String) :=
  {place | ∃ input, (place.1, input) ∈ places inputs ∧ input.said = some place.2}

/-- One more than the event identifiers that were drawn before a result. -/
def drawnBefore (place : List TranslationInput × Said ℕ String) : ℕ :=
  place.1.countP TranslationInput.draws + 1

theorem heard_append {inputs : List TranslationInput} {input : TranslationInput}
    {place : List TranslationInput × Said ℕ String} :
    place ∈ heard (inputs ++ [input]) ↔
      place ∈ heard inputs ∨ place.1 = inputs ∧ input.said = some place.2 := by
  unfold heard
  simp only [Set.mem_ofPred_eq, mem_places_append, or_and_right, exists_or]
  apply or_congr Iff.rfl
  constructor
  · rintro ⟨input', heq, hsaid⟩
    obtain ⟨hplace, rfl⟩ := Prod.mk.inj heq
    exact ⟨hplace, hsaid⟩
  · rintro ⟨hplace, hsaid⟩
    exact ⟨input, by rw [hplace], hsaid⟩

/-- What the adapter has given out of its inputs. -/
structure Tells (inputs : List TranslationInput) (provider : TranslationProvider) : Prop where
  sequence : provider.eventSequence = inputs.countP TranslationInput.draws
  emitted : ∀ response segmentId,
    (response, segmentId) ∈ provider.emitted.map (fun e => (e.1, e.2.segmentId)) ↔
      ∃ place ∈ heard inputs, response = place.2.source ∧
        segmentId = some (place.2.nameUnder numberedSegment (drawnBefore place))

theorem Tells.initial (hex : ℕ → String) : Tells [] (fresh hex) where
  sequence := rfl
  emitted := by simp [fresh, heard, places]

section Steps

variable {inputs : List TranslationInput} {provider provider' : TranslationProvider}
  {input : TranslationInput}

theorem Tells.other (h : Tells inputs provider) (hsaid : input.said = none)
    (hsequence : provider'.eventSequence =
      provider.eventSequence + if input.draws = true then 1 else 0)
    (hemitted : provider'.emitted = provider.emitted) :
    Tells (inputs ++ [input]) provider' where
  sequence := by
    rw [hsequence, h.sequence, List.countP_append, List.countP_singleton]
  emitted := by
    intro u s
    rw [hemitted, h.emitted]
    simp [heard_append, hsaid]

theorem Tells.result (h : Tells inputs provider) (response : ℕ) (message : TranslationMessage) :
    Tells (inputs ++ [.result response message]) (provider.handleResult response message) := by
  rw [handleResult_eq]
  constructor
  · dsimp only
    rw [h.sequence, List.countP_append, List.countP_singleton]
    rfl
  · intro u s
    dsimp only
    rw [List.map_append, List.mem_append, h.emitted]
    simp only [heard_append, or_and_right, exists_or]
    apply or_congr Iff.rfl
    rw [List.map_cons, List.map_nil, List.mem_singleton, Prod.mk.injEq]
    constructor
    · rintro ⟨rfl, rfl⟩
      refine ⟨(inputs, ⟨_, message.ownId, message.final⟩), ⟨rfl, rfl⟩, rfl, ?_⟩
      rw [drawnBefore, ← h.sequence]
      rfl
    · rintro ⟨⟨before, x⟩, ⟨hbefore, hsaid⟩, rfl, rfl⟩
      cases hsaid
      dsimp only at hbefore
      rw [hbefore, drawnBefore, ← h.sequence]
      exact ⟨rfl, rfl⟩

theorem Tells.step (h : Tells inputs provider) (hstep : provider.Handles input provider') :
    Tells (inputs ++ [input]) provider' := by
  unfold Handles next at hstep
  cases input with
  | result response message =>
    dsimp only at hstep
    split_ifs at hstep
    cases hstep
    exact h.result response message
  | sendAudio size =>
    dsimp only at hstep
    split_ifs at hstep with _ hsize
    · cases hstep
      exact h.other rfl (by simp [TranslationInput.draws, hsize]) rfl
    · cases hstep
      exact h.other rfl (by simp [TranslationInput.draws, hsize, nextEventId]) rfl
  | sessionUpdated eventId | sessionFinished eventId =>
    dsimp only at hstep
    split_ifs at hstep
    cases hstep
    rw [providerEventId_fields]
    exact h.other rfl rfl rfl
  | sessionCreated | sendUpdate | audioSent _ | finish | unknown =>
    dsimp only at hstep
    split_ifs at hstep
    cases hstep
    exact h.other rfl rfl rfl

theorem tells_of_run {hex : ℕ → String} (h : Run Handles (fresh hex) inputs provider) :
    Tells inputs provider := by
  have hrun := h.history (I := Tells) (fun _ _ _ _ hp hstep => hp.step hstep)
    (Tells.initial hex)
  simpa using hrun

end Steps

/-- From one result without an identifier to another one no event identifier is drawn just if the
two are of one response. -/
def DrawnApart (inputs : List TranslationInput) : Prop :=
  ∀ before input between input' after x y, inputs = before ++ input :: between ++ input' :: after →
    input.said = some x → input'.said = some y → x.own = none → y.own = none →
      (x.source = y.source ↔ ∀ z ∈ input :: between, z.draws = false)

theorem drawnBefore_eq_iff {before between : List TranslationInput} {input : TranslationInput}
    {x y : Said ℕ String} : drawnBefore (before, x) = drawnBefore (before ++ input :: between, y) ↔
      ∀ z ∈ input :: between, z.draws = false := by
  unfold drawnBefore
  rw [List.countP_append, Nat.add_right_cancel_iff, Nat.left_eq_add, List.countP_eq_zero]
  simp only [Bool.not_eq_true]

theorem numberedSegment_injective : Function.Injective numberedSegment := by
  intro n m h
  have hrepr : Nat.repr n = Nat.repr m := by
    simpa [numberedSegment, toString, String.append_right_inj] using h
  exact Nat.repr_inj.mp hrepr

theorem numbersTell_iff {inputs : List TranslationInput} :
    Said.NumbersTell (heard inputs) Prod.snd drawnBefore ↔ DrawnApart inputs := by
  constructor
  · intro h before input between input' after x y hinputs hx hy hown hown'
    have hplace : (before, x) ∈ heard inputs :=
      ⟨input, ⟨between ++ input' :: after, by simp [hinputs]⟩, hx⟩
    have hplace' : (before ++ input :: between, y) ∈ heard inputs :=
      ⟨input', ⟨after, hinputs⟩, hy⟩
    rw [h _ hplace _ hplace' hown hown', drawnBefore_eq_iff]
  · rintro h ⟨b, x⟩ ⟨input, ⟨a, hb⟩, hx⟩ ⟨b', y⟩ ⟨input', ⟨a', hb'⟩, hy⟩ hown hown'
    dsimp only at hb hb' hx hy
    rcases places_trichotomy (hb.symm.trans hb') with
      ⟨rfl, rfl, -⟩ | ⟨m, rfl, -⟩ | ⟨m, rfl, -⟩
    · rw [hx] at hy
      cases hy
      simp [drawnBefore]
    · rw [h b input m input' a' x y hb' hx hy hown hown', drawnBefore_eq_iff]
    · rw [eq_comm, h b' input' m input a y x hb hy hx hown' hown, ← drawnBefore_eq_iff, eq_comm]

/-- The segments of a run are consistent just if results without an identifier draw apart, and no
identifier of the provider is one that the adapter made up. -/
theorem consistent_iff {hex : ℕ → String} {inputs : List TranslationInput}
    {provider : TranslationProvider} (h : Run Handles (fresh hex) inputs provider)
    (hnames : Said.OwnNames (inputs.filterMap TranslationInput.said)) :
    provider.Consistent ↔ DrawnApart inputs ∧
      Said.NamesApart (heard inputs) Prod.snd drawnBefore numberedSegment := by
  have htells := tells_of_run h
  have hlist : provider.Consistent ↔
      ∀ e ∈ provider.emitted.map (fun e => (e.1, e.2.segmentId)),
        ∀ e' ∈ provider.emitted.map (fun e => (e.1, e.2.segmentId)), e.1 = e'.1 ↔ e.2 = e'.2 := by
    simp only [List.forall_mem_map]
    rfl
  have hsaid : ∀ place ∈ heard inputs, place.2 ∈ inputs.filterMap TranslationInput.said := by
    rintro place ⟨input, hplace, hsaid⟩
    exact List.mem_filterMap.mpr ⟨input, mem_of_mem_places hplace, hsaid⟩
  rw [hlist, Said.consistent_of_named htells.emitted,
    Said.consistent_iff numberedSegment_injective hnames hsaid, numbersTell_iff]

end TranslationProvider

/-- When segments tell utterances apart: in the recognition adapter, where no final result with an
identifier comes between two results of an utterance without one; in the translation adapter, where
from one result without an identifier to another no event identifier is drawn just if they are of
one utterance; and where no identifier of the provider is one that was made up. -/
theorem segments_consistent_iff (taskId : String) (hex : ℕ → String) :
    (∀ inputs provider,
      Run RecognitionProvider.Handles (.fresh taskId) inputs provider →
      Said.OwnNames (inputs.filterMap RecognitionInput.said) →
      Said.TakesTurns (inputs.filterMap RecognitionInput.said) →
        (provider.Consistent ↔ SpokenThrough (inputs.filterMap RecognitionInput.said) ∧
          Said.NamesApart (places (inputs.filterMap RecognitionInput.said)) Prod.snd
            segmentNumber (ProviderTask.generatedSegmentId { taskId }))) ∧
      ∀ inputs provider,
        Run TranslationProvider.Handles (.fresh hex) inputs provider →
        Said.OwnNames (inputs.filterMap TranslationInput.said) →
        Said.TakesTurns (inputs.filterMap TranslationInput.said) →
          (provider.Consistent ↔ TranslationProvider.DrawnApart inputs ∧
            Said.NamesApart (TranslationProvider.heard inputs) Prod.snd
              TranslationProvider.drawnBefore numberedSegment) :=
  ⟨fun _ _ h hnames hturns => RecognitionProvider.consistent_iff h hnames hturns,
    fun _ _ h hnames _ => TranslationProvider.consistent_iff h hnames⟩

def overlapping : List RecognitionInput :=
  [.taskStarted (some "event-0"),
    .result 1 { eventId := some "event-1", sentenceId := some "7", text := "one" },
    .result 2 { eventId := some "event-2", text := "two" },
    .result 1
      { eventId := some "event-3", sentenceId := some "7", text := "one", sentenceEnd := true },
    .result 2 { eventId := some "event-4", text := "two", sentenceEnd := true }]

def streamed : List TranslationInput :=
  [.sessionCreated, .sendUpdate, .sessionUpdated (some "event-0"),
    .result 1 { eventId := some "event-1", text := "one" },
    .sendAudio 3200,
    .result 1 { eventId := some "event-2", text := "one", final := true }]

def held : List TranslationInput :=
  [.sessionCreated, .sendUpdate, .sessionUpdated (some "event-0"),
    .result 1 { eventId := some "event-1", text := "one" },
    .result 1 { eventId := some "event-2", text := "one", final := true }]

theorem ownNames_overlapping : Said.OwnNames (overlapping.filterMap RecognitionInput.said) where
  same := by decide
  apart := by decide

theorem takesTurns_overlapping :
    Said.TakesTurns (overlapping.filterMap RecognitionInput.said) := by
  have hsaid : overlapping.filterMap RecognitionInput.said =
      [⟨1, some "7", false⟩, ⟨2, none, false⟩, ⟨1, some "7", true⟩, ⟨2, none, true⟩] := rfl
  rw [hsaid]
  constructor
  · intro before x after h hown hcloses y hy
    rcases before with _ | ⟨a, _ | ⟨b, _ | ⟨c, _ | ⟨d, before⟩⟩⟩⟩ <;> simp at h
    · simp [← h.1] at hown
    · simp [← h.2.1] at hcloses
    · simp [← h.2.2.1] at hown
    · simp [h.2.2.2.2] at hy
  · intro before x between y after h hown hfirst
    rcases before with _ | ⟨a, _ | ⟨b, _ | ⟨c, _ | ⟨d, before⟩⟩⟩⟩ <;> simp at h
    · simp [← h.1] at hown
    · obtain ⟨rfl, rfl, hrest⟩ := h
      rcases between with _ | ⟨c, _ | ⟨d, between⟩⟩ <;> simp at hrest
      · obtain ⟨rfl, -⟩ := hrest
        simp at hfirst
      · obtain ⟨rfl, rfl, -⟩ := hrest
        simp at hfirst
    · simp [← h.2.2.1] at hown

theorem turns_single : Said.OwnNames [(⟨1, none, false⟩ : Said ℕ String), ⟨1, none, true⟩] ∧
    Said.TakesTurns [(⟨1, none, false⟩ : Said ℕ String), ⟨1, none, true⟩] := by
  refine ⟨⟨by decide, by decide⟩, ?_, ?_⟩
  · intro before x after h hown hcloses y hy
    rcases before with _ | ⟨a, _ | ⟨b, before⟩⟩ <;> simp at h
    · simp [← h.1] at hcloses
    · simp [h.2.2] at hy
  · intro before x between y after h hown hfirst
    rcases before with _ | ⟨a, before⟩
    · obtain ⟨rfl, hrest⟩ := List.cons_eq_cons.mp h
      have hy : y ∈ [(⟨1, none, true⟩ : Said ℕ String)] := by simp [hrest]
      rw [List.mem_singleton.mp hy] at hfirst
      simp at hfirst
    · obtain ⟨rfl, hrest⟩ := List.cons_eq_cons.mp h
      have hy : y ∈ [(⟨1, none, true⟩ : Said ℕ String)] := by simp [hrest]
      rw [List.mem_singleton.mp hy] at hfirst
      simp at hfirst

/-- A response whose results come without audio in between keeps its segment. -/
theorem held_consistent : ∃ provider,
    Run TranslationProvider.Handles (.fresh fun _ => "") held provider ∧ provider.Consistent ∧
      TranslationProvider.DrawnApart held ∧ Said.NamesApart (TranslationProvider.heard held)
        Prod.snd TranslationProvider.drawnBefore numberedSegment := by
  refine ⟨_, TranslationProvider.run_of_follow rfl, ?_⟩
  refine (and_iff_left_of_imp ((segments_consistent_iff "task" _).2 held _
    (TranslationProvider.run_of_follow rfl) turns_single.1 turns_single.2).mp).mpr ?_
  decide +kernel

/-- In either adapter the two results of one utterance can have two segments. -/
theorem utterance_parted :
    (∃ provider, Run RecognitionProvider.Handles (.fresh "task") overlapping provider ∧
      Said.OwnNames (overlapping.filterMap RecognitionInput.said) ∧
      Said.TakesTurns (overlapping.filterMap RecognitionInput.said) ∧ ¬ provider.Consistent) ∧
    ∃ provider, Run TranslationProvider.Handles (.fresh fun _ => "") streamed provider ∧
      Said.OwnNames (streamed.filterMap TranslationInput.said) ∧
      Said.TakesTurns (streamed.filterMap TranslationInput.said) ∧ ¬ provider.Consistent := by
  constructor
  · refine ⟨_, RecognitionProvider.run_of_follow rfl, ownNames_overlapping,
      takesTurns_overlapping, ?_⟩
    decide +kernel
  · refine ⟨_, TranslationProvider.run_of_follow rfl, turns_single.1,
      turns_single.2, ?_⟩
    decide +kernel

end Captions
end Matinier
