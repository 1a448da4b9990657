import Matinier.Plugins.RpcPeer

/-!
# What the peer settles

A call is settled once at most, with a response that has its identifier. Where no step of closing
the peer raises, and no second close returns, while a call waits, none waits once the peer is
closed. A request of the plugin is answered once if its handler ends while the peer is open, its
answer can be sent, and sending it does not raise behind the writing.
-/

namespace Matinier
namespace Plugins

/-- What becomes of a call in a step. -/
inductive CallMoves : OutgoingCall → OutgoingCall → Prop
  | same (c : OutgoingCall) : CallMoves c c
  | ended (c : OutgoingCall) : CallMoves c c.ended
  | sent {c : OutgoingCall} (h : c.stage = .sending) : CallMoves c { c with stage := .waiting }
  | gaveUp (c : OutgoingCall) : CallMoves c c.giveUp
  | answered {c : OutgoingCall} {response : Envelope} (h : response.id? = some c.id) :
    CallMoves c (c.accept response)
  | failed (c : OutgoingCall) : CallMoves c c.failPending

/-- A call has the response it was settled with, if any; a call that is pending is in the table. -/
structure OutgoingCall.Sound (c : OutgoingCall) : Prop where
  responses : c.responses = match c.future with
    | .answered response => [response]
    | _ => []
  own : ∀ response ∈ c.responses, response.id? = some c.id
  registered : c.isPending = true → c.registered = true

section Pending

variable (c : OutgoingCall)

@[simp] theorem OutgoingCall.ended_isPending : c.ended.isPending = false := by
  simp [ended, isPending]

@[simp] theorem OutgoingCall.giveUp_isPending : c.giveUp.isPending = false := by
  cases hfuture : c.future <;> simp [giveUp, isPending, CallFuture.isPending, hfuture]

@[simp] theorem OutgoingCall.accept_isPending (response : Envelope) :
    (c.accept response).isPending = false := by
  cases hfuture : c.future <;> simp [accept, isPending, CallFuture.isPending, hfuture]

@[simp] theorem OutgoingCall.failPending_isPending :
    c.failPending.isPending = (c.isPending && !c.registered) := by
  cases hin : c.registered <;> cases hfuture : c.future <;>
    simp [failPending, isPending, CallFuture.isPending, hin, hfuture]

/-- A response is accepted by a call that has none, and changes no other. -/
theorem OutgoingCall.accept_cases (response : Envelope) :
    c.accept response = c ∨ c.future = .pending ∧ c.accept response =
      { c with future := .answered response, responses := c.responses ++ [response] } := by
  cases hfuture : c.future <;> simp [accept, CallFuture.isPending, hfuture]

end Pending

theorem CallMoves.isPending {c c' : OutgoingCall} (h : CallMoves c c')
    (hpending : c'.isPending = true) : c.isPending = true := by
  cases h with
  | same => exact hpending
  | ended => simp at hpending
  | sent hstage => simpa [OutgoingCall.isPending, hstage] using hpending
  | gaveUp => simp at hpending
  | answered hid => simp at hpending
  | failed =>
    rw [OutgoingCall.failPending_isPending, Bool.and_eq_true] at hpending
    exact hpending.1

theorem CallMoves.sound {c c' : OutgoingCall} (h : CallMoves c c') (hc : c.Sound) : c'.Sound := by
  have hresponses := hc.responses
  cases h with
  | same => exact hc
  | ended => exact ⟨hresponses, hc.own, by simp⟩
  | sent hstage =>
    refine ⟨hresponses, hc.own, fun hpending => hc.registered ?_⟩
    simpa [OutgoingCall.isPending, hstage] using hpending
  | gaveUp =>
    refine ⟨?_, hc.own, by simp⟩
    cases hfuture : c.future <;>
      simpa [OutgoingCall.giveUp, CallFuture.isPending, hfuture] using hresponses
  | @answered response hid =>
    rcases c.accept_cases response with hsame | ⟨hfuture, haccept⟩
    · rw [hsame]
      exact hc
    · have hnone : c.responses = [] := by simpa [hfuture] using hresponses
      have hpending := c.accept_isPending response
      rw [haccept] at hpending ⊢
      refine ⟨by simp [hnone], ?_, by simp [hpending]⟩
      intro r hr
      obtain rfl : r = response := by simpa [hnone] using hr
      exact hid
  | failed =>
    refine ⟨?_, ?_, ?_⟩
    · cases hin : c.registered <;> cases hfuture : c.future <;>
        simpa [OutgoingCall.failPending, CallFuture.isPending, hin, hfuture] using hresponses
    · cases hin : c.registered <;> simpa [OutgoingCall.failPending, hin] using hc.own
    · intro hpending
      rw [OutgoingCall.failPending_isPending, Bool.and_eq_true] at hpending
      simp [hc.registered hpending.1] at hpending

theorem OutgoingCall.Sound.length_le {c : OutgoingCall} (h : c.Sound) : c.responses.length ≤ 1 := by
  rw [h.responses]
  split <;> simp

namespace Peer

variable {cfg : PeerConfig} {s t : Peer} {a : PeerAction}

def CallsMove (s t : Peer) : Prop := ∀ c' ∈ t.calls, ∃ c ∈ s.calls, CallMoves c c'

theorem CallsMove.of_eq (h : t.calls = s.calls) : CallsMove s t :=
  fun c' hc' => ⟨c', h ▸ hc', .same c'⟩

theorem CallsMove.of_set {i : ℕ} {c c₁ : OutgoingCall} (hc : s.calls[i]? = some c)
    (hmoves : CallMoves c c₁) : CallsMove s (s.setCall i c₁) := by
  intro c' hc'
  rcases List.mem_or_eq_of_mem_set hc' with hold | rfl
  · exact ⟨c', hold, .same c'⟩
  · exact ⟨c, List.mem_of_getElem? hc, hmoves⟩

theorem CallsMove.of_map {f : OutgoingCall → OutgoingCall} (h : t.calls = s.calls.map f)
    (hmoves : ∀ c, CallMoves c (f c)) : CallsMove s t := by
  intro c' hc'
  rw [h] at hc'
  obtain ⟨c, hc, rfl⟩ := List.mem_map.mp hc'
  exact ⟨c, hc, hmoves c⟩

theorem acceptResponse_callsMove {id : Option RpcId} {response : Envelope}
    (h : response.id? = id) : CallsMove s (s.acceptResponse id response) := by
  cases id with
  | none => exact .of_eq rfl
  | some id =>
    refine .of_map rfl fun c => ?_
    split_ifs with hown
    · rw [Bool.and_eq_true, decide_eq_true_eq] at hown
      exact .answered (h.trans (congrArg some hown.2.symm))
    · exact .same c

theorem lineStep_callsMove {message : Envelope} (h : s.lineStep cfg message = some t) :
    CallsMove s t := by
  unfold lineStep at h
  split_ifs at h
  cases message with
  | request id method params =>
    cases h
    unfold acceptRequest
    split_ifs <;> exact .of_eq rfl
  | notification method params =>
    cases h
    unfold acceptNotification
    split_ifs
    · split <;> exact .of_eq rfl
    · exact .of_eq rfl
  | result id value =>
    cases h
    exact acceptResponse_callsMove rfl
  | error id code message data =>
    cases h
    exact acceptResponse_callsMove rfl

/-- Each call behind a step comes of one before it, or of a request that found the peer
available. -/
theorem calls_step (h : PeerSteps cfg s a t) :
    CallsMove s t ∨ s.available = true ∧ ∃ (id : RpcId) (new : OutgoingCall),
      t.calls = s.calls ++ [new] ∧
        (new = { id := id } ∨ new = ({ id := id } : OutgoingCall).ended) := by
  cases a with
  | request method params =>
    simp only [PeerSteps, next, requestStep] at h
    split_ifs at h with havailable hchecked hsendable
    · cases h
      exact Or.inr ⟨havailable.1, _, _, rfl, Or.inl rfl⟩
    · cases h
      exact Or.inr ⟨havailable.1, _, _, rfl, Or.inr rfl⟩
    · cases h
      exact Or.inl (.of_eq rfl)
  | sendEnded call raised =>
    simp only [PeerSteps, next, sendEndedStep, Option.bind_eq_bind, Option.bind_eq_some_iff] at h
    obtain ⟨c, hc, h⟩ := h
    split_ifs at h with hstage hraised
    · cases h
      exact Or.inl (.of_set hc (.ended c))
    · cases h
      exact Or.inl (.of_set hc (.sent hstage))
  | resumed call =>
    simp only [PeerSteps, next, resumedStep, Option.bind_eq_bind, Option.bind_eq_some_iff] at h
    obtain ⟨c, hc, h⟩ := h
    split_ifs at h
    cases h
    exact Or.inl (.of_set hc (.ended c))
  | gaveUp call =>
    simp only [PeerSteps, next, gaveUpStep, Option.bind_eq_bind, Option.bind_eq_some_iff] at h
    obtain ⟨c, hc, h⟩ := h
    split_ifs at h
    cases h
    exact Or.inl (.of_set hc (.gaveUp c))
  | cancelEnded call =>
    simp only [PeerSteps, next, cancelEndedStep, Option.bind_eq_bind, Option.bind_eq_some_iff] at h
    obtain ⟨c, hc, h⟩ := h
    split_ifs at h
    cases h
    exact Or.inl (.of_set hc (.ended c))
  | line message => exact Or.inl (lineStep_callsMove h)
  | refusalEnded raised =>
    simp only [PeerSteps, next, refusalEndedStep] at h
    split_ifs at h <;> cases h <;> exact Or.inl (.of_eq rfl)
  | readEnded closeRaises =>
    simp only [PeerSteps, next, readEndedStep] at h
    split_ifs at h
    · cases h
      exact Or.inl (.of_eq rfl)
    · cases h
      exact Or.inl (.of_eq rfl)
    · cases h
      exact Or.inl (.of_map rfl .failed)
  | handlerEnded task outcome =>
    simp only [PeerSteps, next, handlerEndedStep, Option.bind_eq_bind,
      Option.bind_eq_some_iff] at h
    obtain ⟨task, -, h⟩ := h
    split at h <;> cases h
    exact Or.inl (.of_eq rfl)
  | writeEnded task raised =>
    simp only [PeerSteps, next, writeEndedStep, Option.bind_eq_bind, Option.bind_eq_some_iff] at h
    obtain ⟨task, -, h⟩ := h
    split at h <;> cases h
    exact Or.inl (.of_eq rfl)
  | drainEnded task raised =>
    simp only [PeerSteps, next, drainEndedStep, Option.bind_eq_bind, Option.bind_eq_some_iff] at h
    obtain ⟨task, -, h⟩ := h
    split at h <;> cases h
    exact Or.inl (.of_eq rfl)
  | taskCancelled task =>
    simp only [PeerSteps, next, taskCancelledStep, Option.bind_eq_bind,
      Option.bind_eq_some_iff] at h
    obtain ⟨task, -, h⟩ := h
    split_ifs at h
    cases h
    exact Or.inl (.of_eq rfl)
  | taskDone task =>
    simp only [PeerSteps, next, taskDoneStep, Option.bind_eq_bind, Option.bind_eq_some_iff] at h
    obtain ⟨task, -, h⟩ := h
    split_ifs at h
    cases h
    exact Or.inl (.of_eq rfl)
  | aclose closeRaises =>
    simp only [PeerSteps, next, acloseStep] at h
    split_ifs at h <;> cases h <;> exact Or.inl (.of_eq rfl)
  | closedEnded closer raised =>
    simp only [PeerSteps, next, closedEndedStep, Option.bind_eq_bind,
      Option.bind_eq_some_iff] at h
    obtain ⟨c, -, h⟩ := h
    split_ifs at h
    · cases h
      exact Or.inl (.of_eq rfl)
    · cases h
      exact Or.inl (.of_map rfl .failed)
    · cases h
      exact Or.inl (.of_eq rfl)
  | readerAwaited closer raised =>
    simp only [PeerSteps, next, readerAwaitedStep, Option.bind_eq_bind,
      Option.bind_eq_some_iff] at h
    obtain ⟨c, -, h⟩ := h
    split_ifs at h
    · cases h
      exact Or.inl (.of_eq rfl)
    · cases h
      exact Or.inl (.of_map rfl .failed)
    · cases h
      exact Or.inl (.of_eq rfl)
    · cases h
      exact Or.inl (.of_eq rfl)

def NonePending (s : Peer) : Prop := ∀ c ∈ s.calls, c.isPending = false

instance (s : Peer) : Decidable s.NonePending := inferInstanceAs (Decidable (∀ _ ∈ _, _))

def Underway (s : Peer) : Prop :=
  s.closers.head? = some .waitingClosed ∨ s.closers.head? = some .stoppingReader

instance (s : Peer) : Decidable s.Underway := inferInstanceAs (Decidable (_ ∨ _))

/-- While a call is pending, nothing raises where the peer is closed, and no other call of `aclose`
ends before the first one. A handler ends while the peer is available, and with something to answer;
a write that raises is one of a result, and an error can be sent for it. -/
def Orderly (s : Peer) : PeerAction → Prop
  | .readEnded closeRaises => s.closing = false → closeRaises = true → s.NonePending
  | .aclose closeRaises =>
    (if s.closing then s.reading = .ended ∧ s.Underway else closeRaises = true) → s.NonePending
  | .closedEnded _ raised => raised = true → s.NonePending
  | .readerAwaited closer raised =>
    (if s.closers[closer]? = some .stoppingReader then raised = true else s.Underway) →
      s.NonePending
  | .handlerEnded task outcome => s.available = true ∧
    ∀ t ∈ s.inbound[task]?, (answerTo t.id outcome).isSome = true
  | .writeEnded task raised => raised = true → ∀ t ∈ s.inbound[task]?,
    t.stage.isResult = true ∧ s.available = true ∧ (handlerFailed t.id).isSome = true
  | .drainEnded task raised => raised = true → ∀ t ∈ s.inbound[task]?,
    t.stage.isResult = true → s.available = false ∨ (handlerFailed t.id).isSome = false
  | _ => True

instance (s : Peer) (a : PeerAction) : Decidable (s.Orderly a) := by
  unfold Orderly
  split <;> infer_instance

end Peer

/-- What has been written for a task is at most one answer with its identifier, and that is so of
every task that has ended and was not cancelled. -/
def InboundTask.Sound (t : InboundTask) : Prop :=
  match t.stage with
  | .running => t.answers = []
  | .queued answer _ => t.answers = [] ∧ answer.id? = some t.id
  | .draining _ => ∃ answer, t.answers = [answer] ∧ answer.id? = some t.id
  | .ended => t.answers.length ≤ 1 ∧
    (t.cancelled = false → ∃ answer, t.answers = [answer] ∧ answer.id? = some t.id)

theorem InboundTask.Sound.answered {t : InboundTask} (h : t.Sound) :
    t.answers.length ≤ 1 ∧ (t.stage.isEnded = true → t.cancelled = false →
      ∃ answer, t.answers = [answer] ∧ answer.id? = some t.id) := by
  unfold InboundTask.Sound at h
  split at h
  · rename_i hstage
    simp [h, hstage, TaskStage.isEnded]
  · rename_i hstage
    simp [h.1, hstage, TaskStage.isEnded]
  · rename_i hstage
    obtain ⟨answer, hanswers, -⟩ := h
    simp [hanswers, hstage, TaskStage.isEnded]
  · exact ⟨h.1, fun _ hlive => h.2 hlive⟩

theorem errorAnswer_id {id : RpcId} {code message : String} {data : Option JsonDict}
    {answer : Envelope} (h : errorAnswer id code message data = some answer) :
    answer.id? = some id := by
  simp only [errorAnswer, Option.bind_eq_bind, Option.bind_eq_some_iff] at h
  obtain ⟨reason, -, h⟩ := h
  split_ifs at h
  cases h
  rfl

theorem answerTo_id {id : RpcId} {outcome : HandlerOutcome} {answer : Envelope × Bool}
    (h : answerTo id outcome = some answer) : answer.1.id? = some id := by
  have herror : ∀ {e : Option Envelope}, (∀ answer, e = some answer → answer.id? = some id) →
      e.map (·, false) = some answer → answer.1.id? = some id := by
    intro e he hmap
    obtain ⟨error, rfl, rfl⟩ := Option.map_eq_some_iff.mp hmap
    exact he error rfl
  cases outcome with
  | returned value =>
    simp only [answerTo] at h
    split_ifs at h
    · cases h
      rfl
    · exact herror (fun _ => errorAnswer_id) h
  | publicError code message data => exact herror (fun _ => errorAnswer_id) h
  | failed => exact herror (fun _ => errorAnswer_id) h

namespace InboundTask

variable {t : InboundTask} {available : Bool}

/-- An answer to a task that has none written and can be sent is queued. -/
theorem sound_answerWith {answer : Option (Envelope × Bool)} (hnone : t.answers = [])
    (havailable : available = true) (hsome : answer.isSome = true)
    (hid : ∀ e, answer = some e → e.1.id? = some t.id) : (t.answerWith available answer).Sound := by
  obtain ⟨e, rfl⟩ := Option.isSome_iff_exists.mp hsome
  simp only [answerWith, havailable, if_true]
  exact ⟨hnone, hid e rfl⟩

theorem sound_cancelInbound (h : t.Sound) : t.cancelInbound.Sound := by
  unfold cancelInbound
  split_ifs <;> exact h

theorem handlerFailed_id {e : Envelope × Bool}
    (h : (handlerFailed t.id).map (·, false) = some e) : e.1.id? = some t.id :=
  answerTo_id (show answerTo t.id .failed = some e from h)

end InboundTask

namespace Peer

variable {cfg : PeerConfig} {s t : Peer} {a : PeerAction}

def AllSound (s : Peer) : Prop := ∀ t ∈ s.inbound, t.Sound

theorem AllSound.setTask (h : s.AllSound) {i : ℕ} {task : InboundTask} (htask : task.Sound) :
    (s.setTask i task).AllSound := by
  intro t ht
  rcases List.mem_or_eq_of_mem_set ht with hold | rfl
  · exact h t hold
  · exact htask

theorem AllSound.of_map (h : s.AllSound) {f : InboundTask → InboundTask}
    (hmap : t.inbound = s.inbound.map f) (hf : ∀ task : InboundTask, task.Sound → (f task).Sound) :
    t.AllSound := by
  intro t' ht'
  rw [hmap] at ht'
  obtain ⟨task, htask, rfl⟩ := List.mem_map.mp ht'
  exact hf task (h task htask)

theorem AllSound.lineStep (hs : s.AllSound) {message : Envelope}
    (h : s.lineStep cfg message = some t) : t.AllSound := by
  unfold Peer.lineStep at h
  split_ifs at h
  cases message with
  | request id method params =>
    cases h
    unfold acceptRequest
    split_ifs
    · exact hs
    · intro t ht
      rcases List.mem_append.mp ht with hold | hnew
      · exact hs t hold
      · obtain rfl := List.mem_singleton.mp hnew
        exact rfl
    · exact hs
  | notification method params =>
    cases h
    unfold acceptNotification
    split_ifs
    · split
      · refine hs.of_map rfl fun task htask => ?_
        split_ifs <;> exact htask
      · exact hs
    · exact hs
  | result id value =>
    cases h
    exact hs
  | error id code message data =>
    cases h
    unfold acceptResponse
    split <;> exact hs

/-- A step that meets the condition leaves no task unanswered and none answered twice. -/
theorem AllSound.step (hs : s.AllSound) (horderly : s.Orderly a) (h : PeerSteps cfg s a t) :
    t.AllSound := by
  cases a with
  | request method params =>
    simp only [PeerSteps, next, requestStep] at h
    split_ifs at h <;> cases h <;> exact hs
  | sendEnded call raised =>
    simp only [PeerSteps, next, sendEndedStep, Option.bind_eq_bind, Option.bind_eq_some_iff] at h
    obtain ⟨c, -, h⟩ := h
    split_ifs at h <;> cases h <;> exact hs
  | resumed call =>
    simp only [PeerSteps, next, resumedStep, Option.bind_eq_bind, Option.bind_eq_some_iff] at h
    obtain ⟨c, -, h⟩ := h
    split_ifs at h
    cases h
    exact hs
  | gaveUp call =>
    simp only [PeerSteps, next, gaveUpStep, Option.bind_eq_bind, Option.bind_eq_some_iff] at h
    obtain ⟨c, -, h⟩ := h
    split_ifs at h
    cases h
    exact hs
  | cancelEnded call =>
    simp only [PeerSteps, next, cancelEndedStep, Option.bind_eq_bind, Option.bind_eq_some_iff] at h
    obtain ⟨c, -, h⟩ := h
    split_ifs at h
    cases h
    exact hs
  | line message => exact hs.lineStep h
  | refusalEnded raised =>
    simp only [PeerSteps, next, refusalEndedStep] at h
    split_ifs at h <;> cases h <;> exact hs
  | readEnded closeRaises =>
    simp only [PeerSteps, next, readEndedStep] at h
    split_ifs at h
    · cases h
      exact hs
    · cases h
      exact hs
    · cases h
      exact hs.of_map rfl fun _ => InboundTask.sound_cancelInbound
  | handlerEnded task outcome =>
    obtain ⟨havailable, hanswer⟩ := horderly
    simp only [PeerSteps, next, handlerEndedStep, Option.bind_eq_bind,
      Option.bind_eq_some_iff] at h
    obtain ⟨t₀, ht₀, h⟩ := h
    have hsound := hs t₀ (List.mem_of_getElem? ht₀)
    unfold InboundTask.Sound at hsound
    split at h
    · rename_i hstage
      cases h
      rw [hstage] at hsound
      exact hs.setTask (InboundTask.sound_answerWith hsound havailable (hanswer t₀ ht₀)
        fun _ => answerTo_id)
    · cases h
  | writeEnded task raised =>
    simp only [PeerSteps, next, writeEndedStep, Option.bind_eq_bind, Option.bind_eq_some_iff] at h
    obtain ⟨t₀, ht₀, h⟩ := h
    have hsound := hs t₀ (List.mem_of_getElem? ht₀)
    unfold InboundTask.Sound at hsound
    split at h
    · rename_i answer isResult hstage
      rw [hstage] at hsound
      cases h
      apply hs.setTask
      split_ifs with hraised
      · obtain ⟨hresult, havailable, hfailed⟩ := horderly hraised t₀ ht₀
        simp only [hstage, TaskStage.isResult] at hresult
        rw [InboundTask.sendRaised, if_pos hresult]
        exact InboundTask.sound_answerWith hsound.1 havailable (by simpa using hfailed)
          fun _ => InboundTask.handlerFailed_id
      · exact ⟨answer, by simp [hsound.1], hsound.2⟩
    · cases h
  | drainEnded task raised =>
    simp only [PeerSteps, next, drainEndedStep, Option.bind_eq_bind, Option.bind_eq_some_iff] at h
    obtain ⟨t₀, ht₀, h⟩ := h
    have hsound := hs t₀ (List.mem_of_getElem? ht₀)
    unfold InboundTask.Sound at hsound
    split at h
    · rename_i isResult hstage
      rw [hstage] at hsound
      obtain ⟨answer, hanswers, hid⟩ := hsound
      have hended : ({ t₀ with stage := .ended } : InboundTask).Sound :=
        ⟨by simp [hanswers], fun _ => ⟨answer, hanswers, hid⟩⟩
      cases h
      apply hs.setTask
      split_ifs with hraised
      · unfold InboundTask.sendRaised
        split_ifs with hresult
        · rcases horderly hraised t₀ ht₀ (by rw [hstage]; exact hresult) with havailable | hnone
          · rw [havailable]
            unfold InboundTask.answerWith
            split <;> exact hended
          · rw [Option.isSome_eq_false_iff, Option.isNone_iff_eq_none] at hnone
            rw [hnone]
            exact hended
        · exact hended
      · exact hended
    · cases h
  | taskCancelled task =>
    simp only [PeerSteps, next, taskCancelledStep, Option.bind_eq_bind,
      Option.bind_eq_some_iff] at h
    obtain ⟨t₀, ht₀, h⟩ := h
    split_ifs at h with hlive
    have hsound := hs t₀ (List.mem_of_getElem? ht₀)
    unfold InboundTask.Sound at hsound
    cases h
    refine hs.setTask ⟨?_, fun hcancelled => nomatch hcancelled⟩
    cases hstage : t₀.stage with
    | running => simp_all
    | queued answer isResult => simp_all
    | draining isResult =>
      rw [hstage] at hsound
      obtain ⟨answer, hanswers, -⟩ := hsound
      simp [hanswers]
    | ended => simp [hstage, TaskStage.isEnded] at hlive
  | taskDone task =>
    simp only [PeerSteps, next, taskDoneStep, Option.bind_eq_bind, Option.bind_eq_some_iff] at h
    obtain ⟨t₀, ht₀, h⟩ := h
    split_ifs at h
    cases h
    exact hs.setTask (hs t₀ (List.mem_of_getElem? ht₀))
  | aclose closeRaises =>
    simp only [PeerSteps, next, acloseStep] at h
    split_ifs at h <;> cases h <;> exact hs
  | closedEnded closer raised =>
    simp only [PeerSteps, next, closedEndedStep, Option.bind_eq_bind,
      Option.bind_eq_some_iff] at h
    obtain ⟨c, -, h⟩ := h
    split_ifs at h
    · cases h
      exact hs
    · cases h
      exact hs.of_map rfl fun _ => InboundTask.sound_cancelInbound
    · cases h
      exact hs
  | readerAwaited closer raised =>
    simp only [PeerSteps, next, readerAwaitedStep, Option.bind_eq_bind,
      Option.bind_eq_some_iff] at h
    obtain ⟨c, -, h⟩ := h
    split_ifs at h
    · cases h
      exact hs
    · cases h
      exact hs.of_map rfl fun _ => InboundTask.sound_cancelInbound
    · cases h
      exact hs
    · cases h
      exact hs

/-- The first call of `aclose` is the one that closes. Where a close has ended, or the reader while
nobody closed the peer, no call is pending. -/
structure Control (s : Peer) : Prop where
  fresh : s.closing = false → s.closers = []
  first : s.closing = true → s.closers ≠ []
  head : s.closers.head? ≠ some .waitingReader
  ended : s.reading = .ended → s.closing = false → s.closed = true ∧ s.NonePending
  settled : (∃ c ∈ s.closers, c.isEnded = true) → s.NonePending

theorem NonePending.move (hs : s.NonePending) (h : CallsMove s t) : t.NonePending := by
  intro c' hc'
  obtain ⟨c, hc, hmoves⟩ := h c' hc'
  cases hpending : c'.isPending with
  | false => rfl
  | true => exact absurd (hmoves.isPending hpending) (by simp [hs c hc])

/-- Where every call is sound, none is pending once the table is emptied. -/
theorem settle_nonePending (hs : ∀ c ∈ s.calls, c.Sound) : s.settle.NonePending := by
  intro c' hc'
  obtain ⟨c, hc, rfl⟩ := List.mem_map.mp hc'
  rw [OutgoingCall.failPending_isPending]
  cases hpending : c.isPending with
  | false => rfl
  | true => simp [(hs c hc).registered hpending]

theorem Control.closing_of_mem (hs : s.Control) {c : Closer} (hc : c ∈ s.closers) :
    s.closing = true := by
  cases hclosing : s.closing with
  | true => rfl
  | false =>
    rw [hs.fresh hclosing] at hc
    cases hc

theorem Control.keep (hs : s.Control) (hclosers : t.closers = s.closers)
    (hclosing : t.closing = s.closing) (hclosed : t.closed = s.closed)
    (hreading : t.reading = .ended → s.reading = .ended)
    (hpending : s.available = false → s.NonePending → t.NonePending) : t.Control := by
  constructor
  · rw [hclosers, hclosing]
    exact hs.fresh
  · rw [hclosers, hclosing]
    exact hs.first
  · rw [hclosers]
    exact hs.head
  · rw [hclosing, hclosed]
    intro hended hopen
    obtain ⟨hclosed, hnone⟩ := hs.ended (hreading hended) hopen
    exact ⟨hclosed, hpending (by simp [available, hclosed]) hnone⟩
  · rw [hclosers]
    rintro ⟨c, hc, hended⟩
    have hclosing := hs.closing_of_mem hc
    exact hpending (by simp [available, hclosing]) (hs.settled ⟨c, hc, hended⟩)

theorem Control.nonePending (hs : s.Control) (hclosing : s.closing = true)
    (hover : ¬ s.Underway) : s.NonePending := by
  apply hs.settled
  cases hclosers : s.closers with
  | nil => exact absurd hclosers (hs.first hclosing)
  | cons c rest =>
    refine ⟨c, List.mem_cons_self, ?_⟩
    have hhead := hs.head
    unfold Underway at hover
    rw [hclosers] at hhead hover
    cases c <;> simp_all [Closer.isEnded]

theorem Control.setCloser (hs : s.Control) {i : ℕ} {c₀ c : Closer} (hget : s.closers[i]? = some c₀)
    (hclosers : t.closers = s.closers.set i c) (hclosing : t.closing = s.closing)
    (hfirst : c ≠ .waitingReader) (hended : c.isEnded = true → t.NonePending)
    (hpending : s.NonePending → t.NonePending) : t.Control := by
  have hclosing' := hs.closing_of_mem (List.mem_of_getElem? hget)
  rw [hclosing'] at hclosing
  constructor
  · intro hopen
    rw [hclosing] at hopen
    cases hopen
  · intro _ hnil
    rw [hclosers, List.set_eq_nil_iff] at hnil
    exact hs.first hclosing' hnil
  · have hhead := hs.head
    rw [hclosers]
    cases hlist : s.closers with
    | nil => simp
    | cons c₁ rest =>
      rw [hlist] at hhead
      cases i with
      | zero => simpa using hfirst
      | succ i => simpa using hhead
  · intro _ hopen
    rw [hclosing] at hopen
    cases hopen
  · rintro ⟨c', hc', hc'ended⟩
    rw [hclosers] at hc'
    rcases List.mem_or_eq_of_mem_set hc' with hold | rfl
    · exact hpending (hs.settled ⟨c', hold, hc'ended⟩)
    · exact hended hc'ended

theorem nonePending_step (h : PeerSteps cfg s a t) (havailable : s.available = false)
    (hs : s.NonePending) : t.NonePending := by
  rcases calls_step h with hmoves | ⟨hopen, -⟩
  · exact hs.move hmoves
  · rw [havailable] at hopen
    cases hopen

theorem lineStep_control {message : Envelope} (h : s.lineStep cfg message = some t) :
    t.closers = s.closers ∧ t.closing = s.closing ∧ t.closed = s.closed ∧
      t.reading ≠ .ended := by
  unfold lineStep at h
  split_ifs at h with hreading
  cases message with
  | request id method params =>
    cases h
    unfold acceptRequest refuse
    split_ifs <;> simp [hreading]
  | notification method params =>
    cases h
    unfold acceptNotification
    split_ifs
    · split <;> simp [hreading]
    · simp [hreading]
  | result id value =>
    cases h
    simp [acceptResponse, hreading]
  | error id code message data =>
    cases h
    unfold acceptResponse
    split <;> simp [hreading]

theorem Control.readEnded (hs : s.Control) (hsound : ∀ c ∈ s.calls, c.Sound) {closeRaises : Bool}
    (horderly : s.Orderly (.readEnded closeRaises)) (h : s.readEndedStep closeRaises = some t) :
    t.Control := by
  unfold readEndedStep at h
  split_ifs at h with hended hclosing hraises
  · cases h
    refine ⟨hs.fresh, hs.first, hs.head, ?_, hs.settled⟩
    intro _ hopen
    exact absurd (hclosing.symm.trans hopen) (by simp)
  · cases h
    have hnone := horderly (by simpa using hclosing) hraises
    exact ⟨hs.fresh, hs.first, hs.head, fun _ _ => ⟨rfl, hnone⟩, fun _ => hnone⟩
  · cases h
    have hnone := settle_nonePending hsound
    exact ⟨hs.fresh, hs.first, hs.head, fun _ _ => ⟨rfl, hnone⟩, fun _ => hnone⟩

/-- Another call of `aclose` while the peer is being closed, or is. -/
theorem Control.another (hs : s.Control) (hclosing : s.closing = true) {c : Closer}
    (hended : c.isEnded = true → s.NonePending) :
    ({ s with closers := s.closers ++ [c] } : Peer).Control := by
  refine ⟨?_, by simp, ?_, ?_, ?_⟩
  · intro hopen
    exact absurd (hclosing.symm.trans hopen) (by simp)
  · have hhead := hs.head
    cases hlist : s.closers with
    | nil => exact absurd hlist (hs.first hclosing)
    | cons c rest => simpa [hlist] using hhead
  · intro _ hopen
    exact absurd (hclosing.symm.trans hopen) (by simp)
  · rintro ⟨c', hc', hc'ended⟩
    rcases List.mem_append.mp hc' with hold | hnew
    · exact hs.settled ⟨c', hold, hc'ended⟩
    · obtain rfl := List.mem_singleton.mp hnew
      exact hended hc'ended

theorem Control.aclose (hs : s.Control) {closeRaises : Bool}
    (horderly : s.Orderly (.aclose closeRaises)) (h : s.acloseStep closeRaises = some t) :
    t.Control := by
  unfold acloseStep at h
  simp only [Orderly] at horderly
  split_ifs at h with hclosing hreading hraises
  · cases h
    refine hs.another hclosing fun _ => ?_
    by_cases hunder : s.Underway
    · rw [if_pos hclosing] at horderly
      exact horderly ⟨hreading, hunder⟩
    · exact hs.nonePending hclosing hunder
  · cases h
    exact hs.another hclosing fun hended => nomatch hended
  · cases h
    rw [if_neg hclosing] at horderly
    have hnone := horderly hraises
    have hnil := hs.fresh (by simpa using hclosing)
    exact ⟨by simp, by simp, by simp [hnil], by simp, fun _ => hnone⟩
  · cases h
    have hnil := hs.fresh (by simpa using hclosing)
    refine ⟨by simp, by simp, by simp [hnil], by simp, ?_⟩
    rintro ⟨c, hc, hended⟩
    simp only [hnil, List.nil_append, List.mem_singleton] at hc
    rw [hc] at hended
    cases hended

theorem Control.closedEnded (hs : s.Control) (hsound : ∀ c ∈ s.calls, c.Sound) {closer : ℕ}
    {raised : Bool} (horderly : s.Orderly (.closedEnded closer raised))
    (h : s.closedEndedStep closer raised = some t) : t.Control := by
  simp only [closedEndedStep, Option.bind_eq_bind, Option.bind_eq_some_iff] at h
  obtain ⟨c, hget, h⟩ := h
  split_ifs at h with hwaiting hraised hreading
  · cases h
    have hnone := horderly hraised
    exact hs.setCloser hget rfl rfl (by simp) (fun _ => hnone) fun _ => hnone
  · cases h
    have hnone := settle_nonePending hsound
    exact hs.setCloser hget rfl rfl (by simp) (fun _ => hnone) fun _ => hnone
  · cases h
    exact hs.setCloser hget rfl rfl (by simp) (fun hended => nomatch hended) fun hnone => hnone

theorem Control.readerAwaited (hs : s.Control) (hsound : ∀ c ∈ s.calls, c.Sound) {closer : ℕ}
    {raised : Bool} (horderly : s.Orderly (.readerAwaited closer raised))
    (h : s.readerAwaitedStep closer raised = some t) : t.Control := by
  simp only [readerAwaitedStep, Option.bind_eq_bind, Option.bind_eq_some_iff] at h
  obtain ⟨c, hget, h⟩ := h
  simp only [Orderly, hget, Option.some.injEq] at horderly
  have hover : c ≠ .stoppingReader → s.NonePending := by
    intro hne
    rw [if_neg hne] at horderly
    by_cases hunder : s.Underway
    · exact horderly hunder
    · exact hs.nonePending (hs.closing_of_mem (List.mem_of_getElem? hget)) hunder
  split_ifs at h with hstopping hraised hreading hwaiting hraised hreading
  · cases h
    rw [if_pos hstopping] at horderly
    have hnone := horderly hraised
    exact hs.setCloser hget rfl rfl (by simp) (fun _ => hnone) fun _ => hnone
  · cases h
    have hnone := settle_nonePending hsound
    exact hs.setCloser hget rfl rfl (by simp) (fun _ => hnone) fun _ => hnone
  · cases h
    have hnone := hover hstopping
    exact hs.setCloser hget rfl rfl (by simp) (fun _ => hnone) fun _ => hnone
  · cases h
    have hnone := hover hstopping
    exact hs.setCloser hget rfl rfl (by simp) (fun _ => hnone) fun _ => hnone

theorem Control.step (hs : s.Control) (hsound : ∀ c ∈ s.calls, c.Sound) (horderly : s.Orderly a)
    (h : PeerSteps cfg s a t) : t.Control := by
  have hnone := fun havailable => nonePending_step h havailable
  cases a with
  | request method params =>
    simp only [PeerSteps, next, requestStep] at h
    split_ifs at h <;> cases h <;> exact hs.keep rfl rfl rfl id hnone
  | sendEnded call raised =>
    simp only [PeerSteps, next, sendEndedStep, Option.bind_eq_bind, Option.bind_eq_some_iff] at h
    obtain ⟨c, -, h⟩ := h
    split_ifs at h <;> cases h <;> exact hs.keep rfl rfl rfl id hnone
  | resumed call =>
    simp only [PeerSteps, next, resumedStep, Option.bind_eq_bind, Option.bind_eq_some_iff] at h
    obtain ⟨c, -, h⟩ := h
    split_ifs at h
    cases h
    exact hs.keep rfl rfl rfl id hnone
  | gaveUp call =>
    simp only [PeerSteps, next, gaveUpStep, Option.bind_eq_bind, Option.bind_eq_some_iff] at h
    obtain ⟨c, -, h⟩ := h
    split_ifs at h
    cases h
    exact hs.keep rfl rfl rfl id hnone
  | cancelEnded call =>
    simp only [PeerSteps, next, cancelEndedStep, Option.bind_eq_bind, Option.bind_eq_some_iff] at h
    obtain ⟨c, -, h⟩ := h
    split_ifs at h
    cases h
    exact hs.keep rfl rfl rfl id hnone
  | line message =>
    obtain ⟨hclosers, hclosing, hclosed, hreading⟩ := lineStep_control h
    exact hs.keep hclosers hclosing hclosed (fun hended => absurd hended hreading) hnone
  | refusalEnded raised =>
    simp only [PeerSteps, next, refusalEndedStep] at h
    split_ifs at h <;> cases h <;>
      exact hs.keep rfl rfl rfl (fun hended => nomatch hended) hnone
  | readEnded closeRaises => exact hs.readEnded hsound horderly h
  | handlerEnded task outcome =>
    simp only [PeerSteps, next, handlerEndedStep, Option.bind_eq_bind,
      Option.bind_eq_some_iff] at h
    obtain ⟨task, -, h⟩ := h
    split at h <;> cases h
    exact hs.keep rfl rfl rfl id hnone
  | writeEnded task raised =>
    simp only [PeerSteps, next, writeEndedStep, Option.bind_eq_bind, Option.bind_eq_some_iff] at h
    obtain ⟨task, -, h⟩ := h
    split at h <;> cases h
    exact hs.keep rfl rfl rfl id hnone
  | drainEnded task raised =>
    simp only [PeerSteps, next, drainEndedStep, Option.bind_eq_bind, Option.bind_eq_some_iff] at h
    obtain ⟨task, -, h⟩ := h
    split at h <;> cases h
    exact hs.keep rfl rfl rfl id hnone
  | taskCancelled task =>
    simp only [PeerSteps, next, taskCancelledStep, Option.bind_eq_bind,
      Option.bind_eq_some_iff] at h
    obtain ⟨task, -, h⟩ := h
    split_ifs at h
    cases h
    exact hs.keep rfl rfl rfl id hnone
  | taskDone task =>
    simp only [PeerSteps, next, taskDoneStep, Option.bind_eq_bind, Option.bind_eq_some_iff] at h
    obtain ⟨task, -, h⟩ := h
    split_ifs at h
    cases h
    exact hs.keep rfl rfl rfl id hnone
  | aclose closeRaises => exact hs.aclose horderly h
  | closedEnded closer raised => exact hs.closedEnded hsound horderly h
  | readerAwaited closer raised => exact hs.readerAwaited hsound horderly h

theorem calls_sound (hs : ∀ c ∈ s.calls, c.Sound) (h : PeerSteps cfg s a t) :
    ∀ c ∈ t.calls, c.Sound := by
  rcases calls_step h with hmoves | ⟨-, id, new, hcalls, hnew⟩
  · intro c' hc'
    obtain ⟨c, hc, hmove⟩ := hmoves c' hc'
    exact hmove.sound (hs c hc)
  · intro c' hc'
    rw [hcalls] at hc'
    rcases List.mem_append.mp hc' with hold | hlast
    · exact hs c' hold
    · have hfresh : ({ id := id } : OutgoingCall).Sound := ⟨rfl, by simp, fun _ => rfl⟩
      obtain rfl := List.mem_singleton.mp hlast
      rcases hnew with rfl | rfl
      · exact hfresh
      · exact (CallMoves.ended _).sound hfresh

/-- A call is completed once at most, with a response to it, and none is pending where the peer is
down; a request of the plugin has one answer at most, and one exactly when its task has ended
without being cancelled. -/
structure Settles (s : Peer) : Prop where
  calls : ∀ c ∈ s.calls, c.responses.length ≤ 1 ∧ ∀ response ∈ c.responses, response.id? = some c.id
  pending : (∃ c ∈ s.closers, c.isEnded = true) ∨ s.reading = .ended ∧ ¬ s.Underway → s.NonePending
  tasks : ∀ t ∈ s.inbound, t.answers.length ≤ 1 ∧ (t.stage.isEnded = true → t.cancelled = false →
    ∃ answer, t.answers = [answer] ∧ answer.id? = some t.id)

theorem Control.settles (hs : s.Control) (hcalls : ∀ c ∈ s.calls, c.Sound) (htasks : s.AllSound) :
    s.Settles := by
  refine ⟨fun c hc => ⟨(hcalls c hc).length_le, (hcalls c hc).own⟩, ?_,
    fun t ht => (htasks t ht).answered⟩
  rintro (hended | ⟨hreading, hover⟩)
  · exact hs.settled hended
  · cases hclosing : s.closing with
    | false => exact (hs.ended hreading hclosing).2
    | true => exact hs.nonePending hclosing hover

end Peer

/-- In every run whose steps meet the condition the peer settles everything. -/
theorem peer_settles {cfg : PeerConfig} {s : Peer} {actions : List PeerAction}
    (h : Run (Under Peer.Orderly (PeerSteps cfg)) {} actions s) : s.Settles := by
  have hinv := h.invariant
    (I := fun s => s.Control ∧ (∀ c ∈ s.calls, c.Sound) ∧ s.AllSound)
    (fun s a t ⟨hcontrol, hcalls, htasks⟩ ⟨horderly, hstep⟩ =>
      ⟨hcontrol.step hcalls horderly hstep, Peer.calls_sound hcalls hstep,
        htasks.step horderly hstep⟩)
    ⟨⟨fun _ => rfl, by simp, by simp, by simp, by simp⟩, by simp, by simp [Peer.AllSound]⟩
  exact hinv.1.settles hinv.2.1 hinv.2.2

def noParams : JsonDict := ⟨[], .obj (by simp) (by simp)⟩

/-- A request is answered, a call of the plugin too, and the peer is closed. -/
def orderlyActions : List PeerAction :=
  [.request "plugin.heartbeat" noParams, .sendEnded 0 false,
    .line (.result (.str "host-1") (.obj [])), .resumed 0,
    .line (.request (.str "plugin-1") "capability.invoke" []), .handlerEnded 0 .failed,
    .writeEnded 0 false, .drainEnded 0 false, .taskDone 0, .aclose false, .closedEnded 0 false,
    .readEnded false, .readerAwaited 0 false]

theorem orderlyActions_settle :
    ∃ s, Run (Under Peer.Orderly (PeerSteps { handlers := ["capability.invoke"] })) {}
      orderlyActions s ∧ s.Settles := by
  have h : (follow (guarded Peer.Orderly (Peer.next { handlers := ["capability.invoke"] }))
      orderlyActions {}).isSome = true := by decide +kernel
  have hrun := run_under_to_get Peer.Orderly (Peer.next { handlers := ["capability.invoke"] })
    orderlyActions {} h
  exact ⟨_, hrun, peer_settles hrun⟩

/-- The peer is closed while a request waits for its response, and waiting for the writer to be
closed raises. -/
def raisingActions : List PeerAction :=
  [.request "plugin.heartbeat" noParams, .sendEnded 0 false, .aclose false, .closedEnded 0 true]

theorem raisingActions_unsettled :
    ∃ s, Run (PeerSteps { handlers := [] }) {} raisingActions s ∧ ¬ s.Settles := by
  have h : (follow (Peer.next { handlers := [] }) raisingActions {}).any (fun s =>
      s.closers.any Closer.isEnded && !decide s.NonePending) = true := by decide +kernel
  obtain ⟨s, hfollow, hs⟩ := Option.any_eq_true _ _ |>.mp h
  simp only [Bool.and_eq_true, List.any_eq_true, Bool.not_eq_true', decide_eq_false_iff_not] at hs
  exact ⟨s, run_of_follow hfollow, fun hsettles => hs.2 (hsettles.pending (Or.inl hs.1))⟩

end Plugins
end Matinier
