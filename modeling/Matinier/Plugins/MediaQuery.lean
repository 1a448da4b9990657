import Matinier.Plugins.DeliveryProgress

/-!
# Queries for media events

A plugin may ask for the events of a media session that have certain types. The host reads one
window of the log, whatever the types of its events, and answers with those of the window that
have one of the types, in one message. A plugin that wants all of them asks again from the last
event it was given, until an answer is empty.
-/

namespace Matinier
namespace Plugins

open JsonText

structure MediaQueryInput where
  afterSequence : ℤ := 0
  limit : ℕ := 100
  eventTypes : List String
  afterSequence_nonneg : 0 ≤ afterSequence := by decide
  limit_range : 1 ≤ limit ∧ limit ≤ 1000 := by decide
  eventTypes_range : 1 ≤ eventTypes.length ∧ eventTypes.length ≤ 32

def maxQueryBytes : ℕ := 512 * 1024

namespace MediaQueryInput

variable (value : MediaQueryInput)

def Asks (e : MediaEvent) : Bool := e.eventType ∈ value.eventTypes

def found (log : EventLog) : List MediaEvent :=
  (log.listEventsAfter value.afterSequence value.limit).filter value.Asks

def fromStart : MediaQueryInput :=
  { value with
    afterSequence := 0
    afterSequence_nonneg := le_rfl }

def after (last : MediaEvent) : MediaQueryInput :=
  { value with
    afterSequence := last.sequence
    afterSequence_nonneg := le_trans (by decide) last.valid.sequence }

end MediaQueryInput

def mediaQuery (session : Option EventLog) (value : MediaQueryInput) :
    Except Raised (List MediaEvent) := do
  let log ← require session .value
  let events := log.listEventsAfter value.afterSequence value.limit
  let allowed := events.filter value.Asks
  ensure (BoundedJson maxQueryBytes maxEventPayloadDepth (.arr (allowed.map MediaEvent.toJson)))
    .value
  return allowed

def queryResult (events : List MediaEvent) : JsonDocument where
  value := .obj [("events", .arr (events.map MediaEvent.toJson))]
  unique := by
    apply JsonValue.Unique.obj
    · simp
    · simp only [List.forall_mem_cons]
      refine ⟨.arr ?_, fun _ hmem => absurd hmem List.not_mem_nil⟩
      intro item hitem
      obtain ⟨e, -, rfl⟩ := List.mem_map.mp hitem
      exact e.unique

/-- What comes of a request: what the query finds, where the host can send it. -/
def queryAnswer (session : Option EventLog) (id : RpcId) (value : MediaQueryInput) :
    Except Raised (List MediaEvent) := do
  let allowed ← mediaQuery session value
  ensure ((hostSend (.result id (queryResult allowed))).isSome = true) .value
  return allowed

/-- The answers to a plugin that asks, each time from the highest sequence of the answer before,
until one is empty. -/
inductive QueryWalk (log : EventLog) (ids : ℕ → RpcId) :
    ℕ → MediaQueryInput → List (List MediaEvent) → Prop where
  | finished {k : ℕ} {value : MediaQueryInput}
      (empty : queryAnswer (some log) (ids k) value = .ok []) : QueryWalk log ids k value []
  | answered {k : ℕ} {value : MediaQueryInput} {page : List MediaEvent}
      {pages : List (List MediaEvent)} {last : MediaEvent}
      (answer : queryAnswer (some log) (ids k) value = .ok page) (mem : last ∈ page)
      (highest : ∀ e ∈ page, e.sequence ≤ last.sequence)
      (rest : QueryWalk log ids (k + 1) (value.after last) pages) :
      QueryWalk log ids k value (page :: pages)

/-- A plugin that asks from the start, under these identifiers, comes to an empty answer, and has
then been given all events of its types, each of them once and in their order. -/
def QueryComplete (log : EventLog) (ids : ℕ → RpcId) (value : MediaQueryInput) : Prop :=
  ∃ pages, QueryWalk log ids 0 value.fromStart pages ∧
    pages.flatten = log.events.filter value.Asks

/-- Fewer events than the limit stand in a row, without one of the types among them, in front of an
event that has one. -/
def NoGap (value : MediaQueryInput) (events : List MediaEvent) : Prop :=
  ∀ skipped e rest, skipped ++ e :: rest <:+ events → (∀ s ∈ skipped, value.Asks s = false) →
    value.Asks e = true → skipped.length < value.limit

/-- The query that follows on another where the window of that one ends in a certain event for the
plugin. -/
def Follows (log : EventLog) (query query' : ℕ × MediaQueryInput) : Prop :=
  ∃ last ∈ (query.2.found log).getLast?, query' = (query.1 + 1, query.2.after last)

/-- What is found is within the limits of an answer, and of the message that it is sent in. -/
def AnswerFits (log : EventLog) (id : RpcId) (value : MediaQueryInput) : Prop :=
  BoundedJson maxQueryBytes maxEventPayloadDepth (.arr ((value.found log).map MediaEvent.toJson)) ∧
    (hostSend (.result id (queryResult (value.found log)))).isSome = true

def AnswersFit (log : EventLog) (ids : ℕ → RpcId) (k : ℕ) (value : MediaQueryInput) : Prop :=
  ∀ query, Relation.ReflTransGen (Follows log) (k, value) query →
    AnswerFits log (ids query.1) query.2

variable {log : EventLog} {ids : ℕ → RpcId} {k : ℕ} {value : MediaQueryInput}

theorem queryAnswer_eq_ok {id : RpcId} {page : List MediaEvent} :
    queryAnswer (some log) id value = .ok page ↔
      AnswerFits log id value ∧ page = value.found log := by
  simp only [queryAnswer, mediaQuery, bind_eq_ok, require_eq_ok, ensure_eq_ok, pure_eq_ok,
    Option.some.injEq]
  constructor
  · rintro ⟨_, ⟨_, rfl, _, hfits, rfl⟩, _, hsends, rfl⟩
    exact ⟨⟨hfits, hsends⟩, rfl⟩
  · rintro ⟨⟨hfits, hsends⟩, rfl⟩
    exact ⟨_, ⟨log, rfl, (), hfits, rfl⟩, (), hsends, rfl⟩

theorem found_increasing (log : EventLog) (value : MediaQueryInput) :
    (value.found log).Pairwise fun e e' => e.sequence < e'.sequence :=
  (log.listEventsAfter_increasing _ _).filter _

/-- The highest event of what is found is its last. -/
theorem found_highest {last : MediaEvent} (hmem : last ∈ value.found log)
    (hhighest : ∀ e ∈ value.found log, e.sequence ≤ last.sequence) :
    (value.found log).getLast? = some last := by
  obtain ⟨before, behind, hfound, -⟩ := List.eq_append_cons_of_mem hmem
  have hincreasing := found_increasing log value
  rw [hfound, List.pairwise_append, List.pairwise_cons] at hincreasing
  have hbehind : behind = [] := by
    apply List.eq_nil_iff_forall_not_mem.mpr
    intro e he
    have hlt := hincreasing.2.1.1 e he
    have hle := hhighest e (hfound ▸ by simp [he])
    omega
  rw [hfound, hbehind, List.getLast?_append_cons, List.getLast?_singleton]

def Behind (log : EventLog) (value : MediaQueryInput) (events : List MediaEvent) : Prop :=
  (log.events.filter fun e => value.afterSequence < e.sequence) = events ∧ events <:+ log.events

theorem behind_fromStart (log : EventLog) (value : MediaQueryInput) :
    Behind log value.fromStart log.events := by
  refine ⟨List.filter_eq_self.mpr fun e _ => ?_, List.suffix_rfl⟩
  have hsequence := e.valid.sequence
  have hstart : value.fromStart.afterSequence = 0 := rfl
  rw [hstart, decide_eq_true_eq]
  omega

theorem behind_after {before events : List MediaEvent} {last : MediaEvent}
    (h : before ++ last :: events <:+ log.events) : Behind log (value.after last) events := by
  obtain ⟨start, hstart⟩ := h
  have hincreasing := log.increasing
  rw [← hstart, ← List.append_assoc, List.pairwise_append, List.pairwise_cons] at hincreasing
  have hposition : (value.after last).afterSequence = last.sequence := rfl
  have hno : (start ++ before).filter (fun e => last.sequence < e.sequence) = [] := by
    apply List.filter_eq_nil_iff.mpr
    intro e he
    have hlt := hincreasing.2.2 e he last (by simp)
    rw [decide_eq_true_eq]
    omega
  have hall : events.filter (fun e => last.sequence < e.sequence) = events :=
    List.filter_eq_self.mpr fun e he => decide_eq_true (hincreasing.2.1.1 e he)
  refine ⟨?_, start ++ before ++ [last], by simpa using hstart⟩
  rw [hposition, ← hstart, ← List.append_assoc, List.filter_append, hno, List.nil_append,
    List.filter_cons_of_neg (by simp), hall]

/-- What is found is the asked for of the first events behind the position. -/
theorem Behind.found {events : List MediaEvent} (h : Behind log value events) :
    value.found log = (events.take value.limit).filter value.Asks := by
  rw [MediaQueryInput.found, EventLog.listEventsAfter, h.1]

/-- Where a window has events of the types, the events behind the position are what is found, with
others in between, then those behind the next position. -/
theorem Behind.split {events : List MediaEvent} {last : MediaEvent} (h : Behind log value events)
    (hlast : (value.found log).getLast? = some last) :
    ∃ before next, events = before ++ last :: next ∧ before.length < value.limit ∧
      value.found log = before.filter value.Asks ++ [last] ∧ value.Asks last = true ∧
      Behind log (value.after last) next := by
  obtain ⟨init, hinit⟩ := List.getLast?_eq_some_iff.mp hlast
  have hfound := h.found
  rw [hinit] at hfound
  obtain ⟨front, back, htake, hfront, hback⟩ := List.filter_eq_append_iff.mp hfound.symm
  obtain ⟨others, tail, rfl, hothers, hasks, htail⟩ := List.filter_eq_cons_iff.mp hback
  have hnone : others.filter value.Asks = [] :=
    List.filter_eq_nil_iff.mpr hothers
  have hevents : events = (front ++ others) ++ last :: (tail ++ events.drop value.limit) := by
    conv_lhs => rw [← List.take_append_drop value.limit events, htake]
    simp
  refine ⟨front ++ others, tail ++ events.drop value.limit, hevents, ?_, ?_, hasks, ?_⟩
  · have hlength := congrArg List.length htake
    simp only [List.length_append, List.length_cons, List.length_take] at hlength ⊢
    omega
  · rw [hinit, List.filter_append, hfront, hnone, List.append_nil]
  · exact behind_after (hevents ▸ h.2)

theorem NoGap.suffix {events events' : List MediaEvent} (h : NoGap value events)
    (hsuffix : events' <:+ events) : NoGap value events' :=
  fun skipped e rest hrest => h skipped e rest (hrest.trans hsuffix)

theorem NoGap.of_next {before next : List MediaEvent} {last : MediaEvent}
    (hasks : value.Asks last = true) (hbefore : before.length < value.limit)
    (h : NoGap value next) : NoGap value (before ++ last :: next) := by
  intro skipped e rest hsuffix hskipped he
  have hnext : next <:+ before ++ last :: next := ⟨before ++ [last], by simp⟩
  have hlast : last :: next <:+ before ++ last :: next := List.suffix_append _ _
  rcases Nat.lt_or_ge next.length (skipped ++ e :: rest).length with hlonger | hshorter
  · -- the row ends behind the last event found, which is itself not skipped
    obtain ⟨front, hfront⟩ := List.suffix_of_suffix_length_le hlast hsuffix hlonger
    have hlength := hsuffix.length_le
    rw [← hfront] at hlength
    simp only [List.length_append, List.length_cons] at hlength
    rcases List.append_eq_append_iff.mp hfront with ⟨back, rfl, hback⟩ | ⟨back, rfl, -⟩
    · cases back with
      | nil =>
        rw [List.append_nil]
        omega
      | cons b back =>
        obtain ⟨rfl, -⟩ := List.cons.inj hback
        rw [hskipped last (by simp)] at hasks
        cases hasks
    · rw [List.length_append] at hlength
      omega
  · exact h skipped e rest (List.suffix_of_suffix_length_le hsuffix hnext hshorter) hskipped he

/-- Without a gap, nothing is found only where nothing is left. -/
theorem Behind.none_left {events : List MediaEvent} (h : Behind log value events)
    (hgap : NoGap value events) (hnone : value.found log = []) :
    events.filter value.Asks = [] := by
  rw [h.found] at hnone
  cases hfirst : events.find? value.Asks with
  | none => exact List.filter_eq_nil_iff.mpr (by simpa using hfirst)
  | some e =>
    obtain ⟨hasks, skipped, rest, rfl, hskipped⟩ := List.find?_eq_some_iff_append.mp hfirst
    have hlimit := hgap skipped e rest List.suffix_rfl (by simpa using hskipped) hasks
    have hmem : e ∈ (skipped ++ e :: rest).take value.limit := by
      rw [List.take_append, List.take_cons (by omega)]
      simp
    exact absurd hasks (List.filter_eq_nil_iff.mp hnone e hmem)

/-- A walk that gives all events behind its start meets no gap, and no answer too large. -/
theorem QueryWalk.noGap {pages : List (List MediaEvent)} {events : List MediaEvent}
    (h : QueryWalk log ids k value pages) (hbehind : Behind log value events)
    (hall : pages.flatten = events.filter value.Asks) :
    NoGap value events ∧ AnswersFit log ids k value := by
  induction h generalizing events with
  | @finished k value empty =>
    obtain ⟨hfits, hfound⟩ := queryAnswer_eq_ok.mp empty
    have hnone : ∀ e ∈ events, value.Asks e = false := by
      simpa using List.filter_eq_nil_iff.mp hall.symm
    refine ⟨fun skipped e rest hsuffix _ he => ?_, fun query hreach => ?_⟩
    · rw [hnone e (hsuffix.subset (by simp))] at he
      cases he
    · rcases hreach.cases_head with rfl | ⟨_, ⟨last, hlast, -⟩, -⟩
      · exact hfits
      · rw [← hfound] at hlast
        cases hlast
  | @answered k value page pages last answer mem highest rest ih =>
    obtain ⟨hfits, rfl⟩ := queryAnswer_eq_ok.mp answer
    have hlast := found_highest mem highest
    obtain ⟨before, next, rfl, hbefore, hfound, hasks, hnext⟩ := hbehind.split hlast
    have hrest : pages.flatten = next.filter value.Asks := by
      rw [List.flatten_cons, hfound, List.filter_append, List.filter_cons_of_pos hasks,
        List.append_assoc, List.append_cancel_left_eq] at hall
      exact (List.cons.inj hall).2
    obtain ⟨hgap, hfit⟩ := ih hnext hrest
    refine ⟨NoGap.of_next hasks hbefore hgap, fun query hreach => ?_⟩
    rcases hreach.cases_head with rfl | ⟨middle, ⟨last', hlast', rfl⟩, hreach⟩
    · exact hfits
    · obtain rfl : last' = last := Option.some.inj (hlast'.symm.trans hlast)
      exact hfit query hreach

/-- Where there is no gap and no answer is too large, a walk gives all events behind its start. -/
theorem queryWalk_of_noGap {events : List MediaEvent} (hbehind : Behind log value events)
    (hgap : NoGap value events) (hfit : AnswersFit log ids k value) :
    ∃ pages, QueryWalk log ids k value pages ∧ pages.flatten = events.filter value.Asks := by
  induction hlength : events.length using Nat.strong_induction_on generalizing k value events with
  | _ n ih =>
    subst hlength
    have hanswer : queryAnswer (some log) (ids k) value = .ok (value.found log) :=
      queryAnswer_eq_ok.mpr ⟨hfit (k, value) .refl, rfl⟩
    cases hlast : (value.found log).getLast? with
    | none =>
      rw [List.getLast?_eq_none_iff] at hlast
      exact ⟨[], .finished (hlast ▸ hanswer), (hbehind.none_left hgap hlast).symm⟩
    | some last =>
      obtain ⟨before, next, rfl, -, hfound, hasks, hnext⟩ := hbehind.split hlast
      have hsuffix : next <:+ before ++ last :: next := ⟨before ++ [last], by simp⟩
      obtain ⟨pages, hwalk, hall⟩ := ih next.length (by simp; omega) hnext (hgap.suffix hsuffix)
        (fun query hreach => hfit query (.head ⟨last, hlast, rfl⟩ hreach)) rfl
      have hmem : last ∈ value.found log := List.mem_of_getLast? hlast
      have hhighest : ∀ e ∈ value.found log, e.sequence ≤ last.sequence := by
        have hincreasing := found_increasing log value
        rw [hfound, List.pairwise_append] at hincreasing
        intro e he
        rw [hfound, List.mem_append, List.mem_singleton] at he
        rcases he with he | rfl
        · exact (hincreasing.2.2 e he last (by simp)).le
        · exact le_rfl
      refine ⟨value.found log :: pages, .answered hanswer hmem hhighest hwalk, ?_⟩
      have hsame : next.filter (value.after last).Asks = next.filter value.Asks := rfl
      rw [List.flatten_cons, hall, hfound, hsame, List.filter_append,
        List.filter_cons_of_pos hasks, List.append_assoc, List.singleton_append]

/-- A plugin comes by all events of its types just where the log has nowhere as many others in a
row as the limit in front of one of them, and no answer on the way is too large. -/
theorem query_complete_iff (log : EventLog) (ids : ℕ → RpcId) (value : MediaQueryInput) :
    QueryComplete log ids value ↔
      NoGap value log.events ∧ AnswersFit log ids 0 value.fromStart := by
  have hstart := behind_fromStart log value
  constructor
  · rintro ⟨pages, hwalk, hall⟩
    exact hwalk.noGap hstart hall
  · rintro ⟨hgap, hfit⟩
    exact queryWalk_of_noGap hstart hgap hfit

theorem captions_neZero : NeZero 5 := inferInstance

theorem hello_fits :
    byteLength (dumps (.obj (textPayload "Hello").entries)) ≤ maxEventPayloadBytes := by
  decide

attribute [local instance] captions_neZero in
def pausedEvent : MediaEvent where
  toEventFields := { captionFields 0 "Hello" with eventType := "playback.paused" }
  valid := { captionFields_valid 0 (by decide) with
    eventType := show 3 ≤ "playback.paused".length ∧ "playback.paused".length ≤ 96 ∧
      isDottedName "playback.paused" = true by decide
    family := show String.ofList ("playback.paused".toList.takeWhile (· ≠ '.')) ∈
      mediaEventFamilies by decide }

attribute [local instance] captions_neZero in
def pausedLog : EventLog where
  events := [pausedEvent, captionEvent "Hello" hello_fits 1]
  increasing := by
    have hlt : pausedEvent.sequence < (captionEvent "Hello" hello_fits 1).sequence := by decide
    simpa using hlt

def captionQuery : MediaQueryInput where
  limit := 1
  eventTypes := ["transcript.final"]
  eventTypes_range := by decide

/-- A plugin that asks for captions one by one is not given one that comes after a pause. -/
theorem captions_after_pause : ¬ ∀ log ids value, QueryComplete log ids value := by
  intro hcomplete
  obtain ⟨pages, hwalk, hall⟩ := hcomplete pausedLog
    (fun n => .str ("plugin-" ++ toString (n + 1))) captionQuery
  obtain ⟨hgap, -⟩ := hwalk.noGap (behind_fromStart pausedLog captionQuery) hall
  have hlimit : [pausedEvent].length < 1 :=
    hgap [pausedEvent] (captionEvent "Hello" (by decide) 1) [] List.suffix_rfl (by decide)
      (by decide)
  simp at hlimit

end Plugins
end Matinier
