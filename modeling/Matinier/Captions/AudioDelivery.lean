import Matinier.Captions.AudioSession

/-!
# Audio reaches the provider

Where no frame was refused, `finish` ends with the provider having got exactly the bytes of the
frames, if it finds room for what is left of them. Where one was refused, what is queued behind
the gap is sent all the same.
-/

namespace Matinier
namespace Captions
namespace AudioSession

variable {s t : AudioSession} {a : AudioAction} {pcm : Bytes} {chunks : List Bytes}

def waitingChunks (queue : List QueueItem) : List Bytes :=
  queue.filterMap fun
    | .chunk bytes => some bytes
    | .stop => none

@[simp] theorem waitingChunks_append (queue rest : List QueueItem) :
    waitingChunks (queue ++ rest) = waitingChunks queue ++ waitingChunks rest :=
  List.filterMap_append

@[simp] theorem waitingChunks_chunks (chunks : List Bytes) :
    waitingChunks (chunks.map .chunk) = chunks := by
  simp [waitingChunks, List.filterMap_map]

@[simp] theorem waitingChunks_stop : waitingChunks [.stop] = [] := rfl

@[simp] theorem waitingChunks_chunk (bytes : Bytes) : waitingChunks [.chunk bytes] = [bytes] := rfl

/-- The loop of `send_frame` queues the chunks up to the one it refuses. -/
theorem enqueueAll_spec (chunks : List Bytes) (s : AudioSession) :
    ∃ taken refused refusedAt error,
      enqueueAll chunks s =
        ({ s with
          queue := s.queue ++ taken.map .chunk
          enqueued := s.enqueued ++ taken
          refusedAt }, error) ∧
      chunks = taken ++ refused ∧
      (error = none ∧ refused = [] ∧ refusedAt = s.refusedAt ∨
        error ≠ none ∧ refusedAt = s.refusedAt.or (some (s.enqueued ++ taken).length)) ∧
      (s.queueMax ≤ s.queue.length → taken = []) := by
  induction chunks generalizing s with
  | nil => exact ⟨[], [], s.refusedAt, none, by simp [enqueueAll], rfl,
    .inl ⟨rfl, rfl, rfl⟩, by simp⟩
  | cons chunk chunks ih =>
    unfold enqueueAll
    split_ifs with hroom
    · obtain ⟨taken, refused, refusedAt, error, heq, hchunks, herror, -⟩ := ih (s.putNowait chunk)
      refine ⟨chunk :: taken, refused, refusedAt, error, ?_, by simp [hchunks], ?_, by omega⟩
      · rw [heq]
        simp [putNowait]
      · simpa [putNowait] using herror
    · exact ⟨[], chunk :: chunks, s.refuse.refusedAt, some s.kind.queueFull, by simp [refuse], rfl,
        .inr ⟨by simp, by simp [refuse]⟩, by simp⟩

/-- What a call of `send_frame` does: it raises and changes nothing, or it feeds the chunker
and queues what comes out. -/
theorem sendFrame_cases (s : AudioSession) (pcm : Bytes) :
    (s.sendFrame pcm).1 = s ∧ (s.sendFrame pcm).2 ≠ none ∨
      s.state = .started ∧ s.sender.done = false ∧ ∃ chunks chunker,
        s.chunker.feed pcm = .ok (chunks, chunker) ∧
        s.sendFrame pcm = enqueueAll chunks { s with chunker } := by
  unfold sendFrame
  split_ifs with hstate hdone
  · exact .inl ⟨rfl, by simp⟩
  · exact .inl ⟨rfl, by simp⟩
  · cases hfeed : s.chunker.feed pcm with
    | error message => exact .inl ⟨rfl, by simp⟩
    | ok fed =>
      exact .inr ⟨Decidable.not_not.mp hstate, by simpa using hdone, fed.1, fed.2, rfl, rfl⟩

/-- Neither the provider nor the handler of the events fails. -/
def Healthy : AudioAction → Prop
  | .sendRaises _ | .providerFinishRaises _ | .eventsRaise _ => False
  | _ => True

instance : DecidablePred Healthy
  | .sendRaises _ | .providerFinishRaises _ | .eventsRaise _ => .isFalse id
  | .start | .sendFrame _ | .finish | .resume | .putStop | .take | .sent | .providerFinished
  | .eventsReturn => .isTrue trivial

/-- A frame of which the queue takes nothing. -/
def TakesNothing (s : AudioSession) (pcm : Bytes) : Prop :=
  s.state ≠ .started ∨ s.sender.done = true ∨ s.queueMax ≤ s.queue.length ∨
    pcm.length % s.chunker.sampleWidthBytes ≠ 0 ∨
    s.chunker.buffer.length + pcm.length < s.chunker.bytesPerChunk

instance : Decidable (s.TakesNothing pcm) := inferInstanceAs (Decidable (_ ∨ _))

/-- Nothing goes wrong at a step: after a refused frame nothing is queued any more, and a first
`finish` finds room for the bytes that are left. -/
def Steady (s : AudioSession) : AudioAction → Prop
  | .sendFrame pcm => s.refusedAt = none ∨ s.TakesNothing pcm
  | .finish => s.state = .started → s.chunker.buffer = [] ∨
      if s.queue.length < s.queueMax then s.refusedAt = none else ¬ s.AllTaken
  | _ => True

instance (a : AudioAction) : Decidable (s.Steady a) := by
  cases a <;> unfold Steady <;> infer_instance

/-- A step of a session whose provider and handler are healthy, where nothing goes wrong. -/
def Careful (s : AudioSession) (a : AudioAction) : Prop := Healthy a ∧ s.Steady a

instance (a : AudioAction) : Decidable (s.Careful a) := inferInstanceAs (Decidable (_ ∧ _))

/-- What the provider got and what waits for it is what the queue took, and nothing was queued
behind a gap. -/
structure InOrder (s : AudioSession) : Prop where
  order : s.received ++ waitingChunks s.queue = s.enqueued
  gap : ∀ n ∈ s.refusedAt, s.enqueued.length ≤ n

theorem InOrder.received_le (h : InOrder s) {n : ℕ} (hn : n ∈ s.refusedAt) :
    s.received.length ≤ n := by
  have hlen := h.gap n hn
  rw [← h.order, List.length_append] at hlen
  omega

theorem InOrder.putNowait (h : InOrder s) (hgap : s.refusedAt = none) (chunk : Bytes) :
    InOrder (s.putNowait chunk) where
  order := by simp [AudioSession.putNowait, ← h.order]
  gap n hn := by
    have hsome : n ∈ s.refusedAt := hn
    simp [hgap] at hsome

theorem InOrder.refuse (h : InOrder s) : InOrder s.refuse where
  order := h.order
  gap n hn := by
    have hor : n ∈ s.refusedAt.or (some s.enqueued.length) := hn
    cases hbefore : s.refusedAt with
    | none =>
      simp only [hbefore, Option.none_or, Option.mem_some_iff] at hor
      exact Nat.le_of_eq hor
    | some m =>
      simp only [hbefore, Option.some_or, Option.mem_some_iff] at hor
      exact h.gap n (by rw [hbefore, hor]; rfl)

/-- The loop of `send_frame` keeps the order, and a gap if there was none or nothing is queued. -/
theorem InOrder.enqueueAll (h : InOrder s)
    (hgap : s.refusedAt = none ∨ chunks = [] ∨ s.queueMax ≤ s.queue.length) :
    InOrder (enqueueAll chunks s).1 := by
  induction chunks generalizing s with
  | nil => exact h
  | cons chunk chunks ih =>
    unfold AudioSession.enqueueAll
    split_ifs with hroom
    · rcases hgap with hgap | hgap | hgap
      · exact ih (h.putNowait hgap chunk) (.inl hgap)
      · cases hgap
      · omega
    · exact h.refuse

theorem InOrder.sendFrame (h : InOrder s) (hgap : s.refusedAt = none ∨ s.TakesNothing pcm) :
    InOrder (s.sendFrame pcm).1 := by
  rcases sendFrame_cases s pcm with ⟨heq, -⟩ | ⟨hstate, halive, chunks, chunker, hfeed, heq⟩
  · rw [heq]
    exact h
  · rw [heq]
    refine InOrder.enqueueAll ⟨h.order, h.gap⟩ ?_
    rcases hgap with hgap | hgap | hgap | hgap | hgap | hgap
    · exact .inl hgap
    · exact absurd hstate hgap
    · rw [halive] at hgap
      cases hgap
    · exact .inr (.inr hgap)
    · unfold AudioChunker.feed at hfeed
      rw [if_pos hgap] at hfeed
      cases hfeed
    · exact .inr (.inl (AudioChunker.feed_short hfeed hgap))

/-- How a call of `finish` goes on once its tail is queued touches nothing that is in order. -/
theorem finishSender_eq (s : AudioSession) : ∃ state finishPoint finished,
    s.finishSender = { s with state, finishPoint, finished } := by
  unfold finishSender awaitSender
  split_ifs
  · cases s.sender.exception with
    | none => exact ⟨s.state, some .provider, s.finished, rfl⟩
    | some error => exact ⟨.failed, none, s.finished ++ [some error], rfl⟩
  · exact ⟨s.state, some .stopEnqueue, s.finished, rfl⟩

theorem InOrder.finishSender (h : InOrder s) : InOrder s.finishSender := by
  obtain ⟨state, finishPoint, finished, heq⟩ := finishSender_eq s
  rw [heq]
  exact ⟨h.order, h.gap⟩

theorem finish_of_closed (hstate : s.state ≠ .started) : ∃ error, s.finish = s.endFinish error := by
  unfold finish
  cases hcase : s.state with
  | idle => exact ⟨_, rfl⟩
  | started => exact absurd hcase hstate
  | finishing => exact ⟨_, rfl⟩
  | completed => exact ⟨_, rfl⟩
  | failed => cases s.kind <;> exact ⟨_, rfl⟩

theorem InOrder.finish (h : InOrder s) (hsteady : s.Steady .finish) : InOrder s.finish := by
  by_cases hstate : s.state = .started
  · have hflushed : InOrder s.flushed := ⟨h.order, h.gap⟩
    simp only [AudioSession.finish, hstate]
    unfold finishStarted
    split
    · exact hflushed.finishSender
    · rename_i tail htail
      have hbuffer := (AudioChunker.flush_eq_some.mp htail).1
      rcases hsteady hstate with hempty | hroom
      · exact absurd hempty hbuffer
      · split_ifs with hfull
        · rw [if_pos hfull] at hroom
          exact (hflushed.putNowait hroom tail).finishSender
        · exact ⟨hflushed.refuse.order, hflushed.refuse.gap⟩
  · obtain ⟨error, heq⟩ := finish_of_closed hstate
    rw [heq]
    exact ⟨h.order, h.gap⟩

theorem InOrder.take (h : InOrder s) (hnext : s.take = some t) : InOrder t := by
  unfold AudioSession.take at hnext
  split at hnext
  · rename_i queue hsender hqueue
    cases hnext
    refine ⟨?_, h.gap⟩
    rw [← h.order, hqueue]
    rfl
  · rename_i chunk queue hsender hqueue
    cases hnext
    refine ⟨?_, h.gap⟩
    rw [← h.order, hqueue, List.append_assoc]
    rfl
  · cases hnext

theorem InOrder.resume (h : InOrder s) (hnext : s.resume = some t) : InOrder t := by
  have hawait : InOrder s.awaitSender := by
    unfold awaitSender
    split <;> exact ⟨h.order, h.gap⟩
  unfold AudioSession.resume at hnext
  split at hnext
  · split_ifs at hnext
    cases hnext
    exact hawait
  · split_ifs at hnext
    cases hnext
    exact hawait
  · split at hnext <;> cases hnext <;> exact ⟨h.order, h.gap⟩
  · cases hnext
  · cases hnext

theorem InOrder.next (h : InOrder s) (ha : s.Careful a) (hnext : s.next a = some t) :
    InOrder t := by
  cases a with
  | start | sent | providerFinished | eventsReturn =>
    simp only [AudioSession.next, Option.ite_none_right_eq_some, Option.some.injEq] at hnext
    obtain ⟨-, rfl⟩ := hnext
    exact ⟨h.order, h.gap⟩
  | sendFrame pcm =>
    cases hnext
    have hsent := h.sendFrame ha.2
    exact ⟨hsent.order, hsent.gap⟩
  | finish =>
    cases hnext
    exact h.finish ha.2
  | resume => exact h.resume hnext
  | putStop =>
    simp only [AudioSession.next, Option.ite_none_right_eq_some, Option.some.injEq] at hnext
    obtain ⟨-, rfl⟩ := hnext
    exact ⟨by simp [← h.order], h.gap⟩
  | take =>
    simp only [AudioSession.next, Option.ite_none_left_eq_some] at hnext
    exact h.take hnext.2
  | sendRaises error | providerFinishRaises error | eventsRaise error => cases ha.1

def Alive (s : AudioSession) : Prop := s.sender = .waiting ∨ s.sender = .sending

theorem Alive.not_done (h : s.Alive) : s.sender.done = false := by
  rcases h with h | h <;> rw [h] <;> rfl

def OnlyChunks (queue : List QueueItem) : Prop := queue = (waitingChunks queue).map .chunk

/-- A session before its `finish`: what the queue took, in whole chunks, and what is kept are the
frames, if none was refused. -/
structure Collecting (s : AudioSession) : Prop where
  room : 0 < s.queueMax
  point : s.finishPoint = none
  alive : s.Alive
  queue : OnlyChunks s.queue
  events : ∀ error, s.events ≠ .raised error
  whole : ∀ chunk ∈ s.enqueued, chunk.length = s.chunker.bytesPerChunk
  bytes : s.AllTaken → s.enqueued.flatten ++ s.chunker.buffer = s.frames.flatten

theorem OnlyChunks.append_chunks {queue : List QueueItem} (h : OnlyChunks queue)
    (chunks : List Bytes) : OnlyChunks (queue ++ chunks.map .chunk) := by
  unfold OnlyChunks at *
  rw [waitingChunks_append, waitingChunks_chunks, List.map_append, ← h]

theorem OnlyChunks.cons {item : QueueItem} {queue : List QueueItem}
    (h : OnlyChunks (item :: queue)) : ∃ chunk, item = .chunk chunk ∧ OnlyChunks queue := by
  cases item with
  | stop =>
    have hlen := congrArg List.length h
    have hle : (waitingChunks queue).length ≤ queue.length := List.length_filterMap_le _ _
    simp only [List.length_cons, List.length_map, waitingChunks, List.filterMap_cons] at hlen hle
    omega
  | chunk chunk =>
    refine ⟨chunk, rfl, ?_⟩
    simpa [OnlyChunks, waitingChunks] using h

theorem Collecting.sendFrame (h : Collecting s) :
    Collecting (recordCall pcm (s.sendFrame pcm)) := by
  rcases sendFrame_cases s pcm with ⟨heq, herror⟩ | ⟨-, -, chunks, chunker, hfeed, heq⟩
  · -- A call that raises: the premise of `bytes` is gone.
    exact
      { room := by rw [recordCall, heq]; exact h.room
        point := by rw [recordCall, heq]; exact h.point
        alive := by rw [recordCall, heq]; exact h.alive
        queue := by rw [recordCall, heq]; exact h.queue
        events := by rw [recordCall, heq]; exact h.events
        whole := by rw [recordCall, heq]; exact h.whole
        bytes := fun htaken => absurd (htaken (pcm, (s.sendFrame pcm).2) (by simp [recordCall]))
          herror }
  · obtain ⟨hfed, hbytes, hwhole⟩ := AudioChunker.feed_spec hfeed
    obtain ⟨taken, refused, refusedAt, error, hall, hchunks, herror, -⟩ :=
      enqueueAll_spec chunks { s with chunker }
    rw [heq, hall]
    refine ⟨h.room, h.point, h.alive, h.queue.append_chunks taken, h.events, ?_, ?_⟩
    · intro chunk hchunk
      simp only [recordCall, List.mem_append] at hchunk ⊢
      rw [hbytes]
      rcases hchunk with hchunk | hchunk
      · exact h.whole chunk hchunk
      · apply hwhole
        rw [hchunks]
        exact List.mem_append_left _ hchunk
    · intro htaken
      have hnone : error = none := htaken (pcm, error) (by simp [recordCall])
      have hbefore : s.AllTaken := fun call hcall => htaken call (by simp [recordCall, hcall])
      rcases herror with ⟨-, hrefused, -⟩ | ⟨hsome, -⟩
      · rw [hrefused, List.append_nil] at hchunks
        calc (s.enqueued ++ taken).flatten ++ chunker.buffer
            = s.enqueued.flatten ++ (chunks.flatten ++ chunker.buffer) := by
              rw [hchunks, List.flatten_append, List.append_assoc]
          _ = s.enqueued.flatten ++ s.chunker.buffer ++ pcm := by
              rw [hfed, List.append_assoc]
          _ = (s.frames ++ [pcm]).flatten := by
              rw [h.bytes hbefore, List.flatten_append, List.flatten_singleton]
          _ = _ := by simp [recordCall, frames]
      · exact absurd hnone hsome

theorem collecting_create {kind : SessionKind} {queueMaxChunks chunkDurationMs : ℤ}
    (h : create kind queueMaxChunks chunkDurationMs = .ok s) :
    s.state = .idle ∧ Collecting s ∧ InOrder s := by
  unfold create at h
  split_ifs at h with hmax
  cases hchunker : AudioChunker.create 16000 1 2 chunkDurationMs with
  | error message =>
    rw [hchunker] at h
    cases h
  | ok chunker =>
    rw [hchunker] at h
    cases h
    have hbuffer : chunker.buffer = [] := by
      unfold AudioChunker.create at hchunker
      split_ifs at hchunker
      cases hchunker
      rfl
    refine ⟨rfl, ⟨?_, rfl, .inl rfl, rfl, by simp, by simp, ?_⟩, ⟨rfl, by simp⟩⟩
    · show 0 < queueMaxChunks.toNat
      omega
    · simp [hbuffer, frames]

theorem Collecting.take (h : Collecting s) (hnext : s.take = some t) : Collecting t := by
  unfold AudioSession.take at hnext
  split at hnext
  · rename_i queue hsender hqueue
    have hchunks := h.queue
    rw [hqueue] at hchunks
    obtain ⟨chunk, hstop, -⟩ := hchunks.cons
    cases hstop
  · rename_i chunk queue hsender hqueue
    cases hnext
    have hchunks := h.queue
    rw [hqueue] at hchunks
    obtain ⟨-, -, hrest⟩ := hchunks.cons
    exact ⟨h.room, h.point, .inr rfl, hrest, h.events, h.whole, h.bytes⟩
  · cases hnext

theorem finishSender_open (halive : s.Alive) :
    s.finishSender = { s with finishPoint := some .stopEnqueue } := by
  unfold finishSender
  rw [if_neg (by simp [halive.not_done])]

/-- An open session is not open any more once `finish` was called. -/
theorem finishStarted_state (halive : s.Alive) : s.finishStarted.state = .finishing := by
  have hflushed : s.flushed.Alive := halive
  unfold finishStarted
  split
  · rw [finishSender_open hflushed]
    rfl
  · split_ifs
    · rw [finishSender_open (s := s.flushed.putNowait _) hflushed]
      rfl
    · rfl

theorem Collecting.next (h : Collecting s) (ha : Healthy a) (hnext : s.next a = some t)
    (hopen : t.state = .idle ∨ t.state = .started) : Collecting t := by
  cases a with
  | start =>
    simp only [AudioSession.next, Option.ite_none_right_eq_some, Option.some.injEq] at hnext
    obtain ⟨-, rfl⟩ := hnext
    exact ⟨h.room, h.point, h.alive, h.queue, h.events, h.whole, h.bytes⟩
  | sendFrame pcm =>
    cases hnext
    exact h.sendFrame
  | finish =>
    cases hnext
    by_cases hstate : s.state = .started
    · have hfinishing : s.finish.state = .finishing := by
        simp only [AudioSession.finish, hstate]
        exact finishStarted_state h.alive
      rw [hfinishing] at hopen
      rcases hopen with hopen | hopen <;> cases hopen
    · obtain ⟨error, heq⟩ := finish_of_closed hstate
      rw [heq]
      exact ⟨h.room, h.point, h.alive, h.queue, h.events, h.whole, h.bytes⟩
  | resume =>
    simp only [AudioSession.next, AudioSession.resume, h.point] at hnext
    cases hnext
  | putStop | providerFinished =>
    simp only [AudioSession.next, h.point] at hnext
    cases hnext
  | take =>
    simp only [AudioSession.next, Option.ite_none_left_eq_some] at hnext
    exact h.take hnext.2
  | sent =>
    simp only [AudioSession.next, Option.ite_none_right_eq_some, Option.some.injEq] at hnext
    obtain ⟨-, rfl⟩ := hnext
    exact ⟨h.room, h.point, .inl rfl, h.queue, h.events, h.whole, h.bytes⟩
  | eventsReturn =>
    simp only [AudioSession.next, Option.ite_none_right_eq_some, Option.some.injEq] at hnext
    obtain ⟨-, rfl⟩ := hnext
    exact ⟨h.room, h.point, h.alive, h.queue, by simp, h.whole, h.bytes⟩
  | sendRaises error | providerFinishRaises error | eventsRaise error => cases ha

theorem sendFrame_state (s : AudioSession) (pcm : Bytes) : (s.sendFrame pcm).1.state = s.state := by
  rcases sendFrame_cases s pcm with ⟨heq, -⟩ | ⟨-, -, chunks, chunker, -, heq⟩
  · rw [heq]
  · obtain ⟨taken, refused, refusedAt, error, hall, -⟩ := enqueueAll_spec chunks { s with chunker }
    rw [heq, hall]

theorem awaitSender_state (s : AudioSession) :
    s.awaitSender.state = s.state ∨ s.awaitSender.state = .failed := by
  unfold awaitSender
  split
  · exact .inr rfl
  · exact .inl rfl

theorem resume_state (hnext : s.resume = some t) :
    t.state = s.state ∨ t.state = .failed ∨ t.state = .completed := by
  have hawait := s.awaitSender_state
  unfold AudioSession.resume at hnext
  split at hnext
  · split_ifs at hnext
    cases hnext
    exact hawait.imp_right .inl
  · split_ifs at hnext
    cases hnext
    exact hawait.imp_right .inl
  · split at hnext <;> cases hnext <;> simp [failFinish]
  · cases hnext
  · cases hnext

theorem take_eq_some (hnext : s.take = some t) : s.sender = .waiting ∧
    ∃ queue sender received, t = { s with queue, sender, received } := by
  unfold AudioSession.take at hnext
  split at hnext
  · rename_i queue hsender hqueue
    cases hnext
    exact ⟨hsender, queue, .returned, s.received, rfl⟩
  · rename_i chunk queue hsender hqueue
    cases hnext
    exact ⟨hsender, queue, .sending, s.received ++ [chunk], rfl⟩
  · cases hnext

theorem take_of_waiting (hsender : s.sender = .waiting) (hqueue : s.queue ≠ []) :
    ∃ t, s.take = some t := by
  obtain ⟨item, rest, heq⟩ := List.exists_cons_of_ne_nil hqueue
  unfold AudioSession.take
  rw [hsender, heq]
  cases item with
  | stop => exact ⟨_, rfl⟩
  | chunk chunk => exact ⟨_, rfl⟩

theorem open_of_next (hnext : s.next a = some t) (hopen : t.state = .idle ∨ t.state = .started) :
    s.state = .idle ∨ s.state = .started := by
  cases a with
  | start =>
    simp only [AudioSession.next, Option.ite_none_right_eq_some] at hnext
    exact .inl hnext.1
  | sendFrame pcm =>
    cases hnext
    have hstate := s.sendFrame_state pcm
    simp only [recordCall, hstate] at hopen
    exact hopen
  | finish =>
    cases hnext
    by_cases hstate : s.state = .started
    · exact .inr hstate
    · obtain ⟨error, heq⟩ := finish_of_closed hstate
      rw [heq] at hopen
      exact hopen
  | resume =>
    rcases resume_state hnext with hstate | hstate | hstate <;> rw [hstate] at hopen
    · exact hopen
    · rcases hopen with hopen | hopen <;> cases hopen
    · rcases hopen with hopen | hopen <;> cases hopen
  | take =>
    simp only [AudioSession.next, Option.ite_none_left_eq_some] at hnext
    obtain ⟨-, queue, sender, received, rfl⟩ := take_eq_some hnext.2
    exact hopen
  | putStop | sent | sendRaises error | providerFinished | eventsReturn | eventsRaise error =>
    simp only [AudioSession.next, Option.ite_none_right_eq_some, Option.some.injEq] at hnext
    obtain ⟨-, rfl⟩ := hnext
    exact hopen
  | providerFinishRaises error =>
    simp only [AudioSession.next, Option.ite_none_right_eq_some, Option.some.injEq] at hnext
    obtain ⟨-, rfl⟩ := hnext
    rcases hopen with hopen | hopen <;> cases hopen

/-- Where a `finish` that has room for the tail stands: its bytes are all queued, and what is
left to do is in the queue, the sender, the provider and the events. -/
structure Draining (n : ℕ) (bytes : Bytes) (s : AudioSession) : Prop where
  room : 0 < s.queueMax
  order : s.received ++ waitingChunks s.queue = s.enqueued
  bytes : s.enqueued.flatten = bytes
  blocks : Blocks n s.enqueued
  events : ∀ error, s.events ≠ .raised error
  point : match s.finishPoint with
    | some .stopEnqueue => s.state = .finishing ∧ s.Alive ∧ OnlyChunks s.queue
    | some .sender => s.state = .finishing ∧
        (s.Alive ∧ (∃ queue, OnlyChunks queue ∧ s.queue = queue ++ [.stop]) ∨
          s.sender = .returned ∧ s.queue = [])
    | some .provider => s.state = .finishing ∧ s.sender = .returned ∧ s.queue = []
    | some .events => s.state = .finishing ∧ s.sender = .returned ∧ s.queue = []
    | none => s.state = .completed ∧ s.sender = .returned ∧ s.queue = [] ∧ none ∈ s.finished

theorem Collecting.finish (h : Collecting s) (horder : InOrder s) (hstate : s.state = .started)
    (htaken : s.AllTaken) (hsteady : s.Steady .finish) :
    Draining s.chunker.bytesPerChunk s.frames.flatten s.finish := by
  have hbytes := h.bytes htaken
  simp only [AudioSession.finish, hstate]
  unfold finishStarted
  split
  · rename_i hflush
    rw [AudioChunker.flush_eq_none.mp hflush, List.append_nil] at hbytes
    rw [finishSender_open (s := s.flushed) h.alive]
    exact ⟨h.room, horder.order, hbytes, .of_whole h.whole, h.events, rfl, h.alive, h.queue⟩
  · rename_i tail hflush
    obtain ⟨hbuffer, rfl⟩ := AudioChunker.flush_eq_some.mp hflush
    have hroom : s.queue.length < s.queueMax := by
      by_contra hfull
      rcases hsteady hstate with hempty | hrefused
      · exact hbuffer hempty
      · rw [if_neg hfull] at hrefused
        exact hrefused htaken
    rw [if_pos hroom, finishSender_open (s := s.flushed.putNowait _) h.alive]
    refine ⟨h.room, ?_, ?_, ?_, h.events, rfl, h.alive, h.queue.append_chunks [_]⟩
    · simp [putNowait, flushed, ← horder.order]
    · simpa [putNowait, flushed] using hbytes
    · exact .of_last h.whole hbuffer (Nat.le_of_lt s.chunker.short)

theorem awaitSender_returned (hsender : s.sender = .returned) :
    s.awaitSender = { s with finishPoint := some .provider } := by
  unfold awaitSender
  rw [hsender]
  rfl

/-- A step of a task or of the provider by which `finish` gets on. -/
def Progress : AudioAction → Prop
  | .resume | .putStop | .take | .sent | .providerFinished | .eventsReturn => True
  | _ => False

instance : DecidablePred Progress
  | .resume | .putStop | .take | .sent | .providerFinished | .eventsReturn => .isTrue trivial
  | .start | .sendFrame _ | .finish | .sendRaises _ | .providerFinishRaises _
  | .eventsRaise _ => .isFalse id

/-- How many steps a `finish` has to wait for at most. -/
def rank (s : AudioSession) : ℕ :=
  2 * s.queue.length + (if s.sender = .sending then 1 else 0) +
    (if s.events = .running then 1 else 0) +
    match s.finishPoint with
    | some .stopEnqueue => 6
    | some .sender => 3
    | some .provider => 2
    | some .events => 1
    | none => 0

section
variable {n : ℕ} {bytes : Bytes}

theorem Draining.not_open (h : Draining n bytes s) : s.state = .finishing ∨
    s.state = .completed := by
  have hpoint := h.point
  split at hpoint
  · exact .inl hpoint.1
  · exact .inl hpoint.1
  · exact .inl hpoint.1
  · exact .inl hpoint.1
  · exact .inr hpoint.1

theorem Draining.not_started (h : Draining n bytes s) : s.state ≠ .started := by
  rcases h.not_open with h | h <;> rw [h] <;> simp

theorem Draining.resume (h : Draining n bytes s) (hnext : s.resume = some t) :
    Draining n bytes t ∧ t.rank < s.rank := by
  have hpoint := h.point
  unfold AudioSession.resume at hnext
  split at hnext
  · -- The stop marker has no room yet: the sender is at work.
    rename_i hat
    simp only [hat] at hpoint
    rw [if_neg (by simp [hpoint.2.1.not_done])] at hnext
    cases hnext
  · rename_i hat
    simp only [hat] at hpoint
    rcases hpoint.2 with ⟨halive, -⟩ | ⟨hreturned, hqueue⟩
    · rw [if_neg (by simp [halive.not_done])] at hnext
      cases hnext
    · rw [if_pos (by rw [hreturned]; rfl), awaitSender_returned hreturned] at hnext
      cases hnext
      refine ⟨⟨h.room, h.order, h.bytes, h.blocks, h.events, hpoint.1, hreturned, hqueue⟩, ?_⟩
      simp only [rank, hat]
      omega
  · rename_i hat
    simp only [hat] at hpoint
    split at hnext
    · cases hnext
    · cases hnext
      refine ⟨⟨h.room, h.order, h.bytes, h.blocks, h.events, rfl, hpoint.2.1, hpoint.2.2, by simp⟩,
        ?_⟩
      simp only [rank, hat]
      omega
    · rename_i error hraised
      exact absurd hraised (h.events error)
  · cases hnext
  · cases hnext

theorem OnlyChunks.stop_cons {queue rest : List QueueItem} (h : OnlyChunks queue)
    (heq : queue ++ [.stop] = .stop :: rest) : rest = [] := by
  cases queue with
  | nil => simpa using heq.symm
  | cons item queue =>
    obtain ⟨chunk, rfl, -⟩ := h.cons
    simp at heq

theorem OnlyChunks.chunk_cons {queue rest : List QueueItem} {chunk : Bytes} (h : OnlyChunks queue)
    (heq : queue ++ [.stop] = .chunk chunk :: rest) :
    ∃ behind, OnlyChunks behind ∧ rest = behind ++ [.stop] := by
  cases queue with
  | nil => simp at heq
  | cons item queue =>
    obtain ⟨-, -, hbehind⟩ := h.cons
    simp only [List.cons_append, List.cons.injEq] at heq
    exact ⟨queue, hbehind, heq.2.symm⟩

theorem Draining.take_stop {rest : List QueueItem} (h : Draining n bytes s)
    (hsender : s.sender = .waiting) (hqueue : s.queue = .stop :: rest) :
    Draining n bytes { s with queue := rest, sender := .returned } := by
  have hpoint := h.point
  have horder := h.order
  have hreturned : s.sender ≠ .returned := by simp [hsender]
  split at hpoint
  · have hchunks := hpoint.2.2
    rw [hqueue] at hchunks
    obtain ⟨chunk, hstop, -⟩ := hchunks.cons
    cases hstop
  · rename_i hat
    rcases hpoint.2 with ⟨-, queue, hchunks, hbefore⟩ | ⟨hover, -⟩
    · rw [hbefore] at hqueue
      have hrest := hchunks.stop_cons hqueue
      refine ⟨h.room, ?_, h.bytes, h.blocks, h.events, ?_⟩
      · rw [hbefore, hqueue] at horder
        exact horder
      · simp only [hat]
        exact ⟨hpoint.1, .inr ⟨trivial, hrest⟩⟩
    · exact absurd hover hreturned
  · exact absurd hpoint.2.1 hreturned
  · exact absurd hpoint.2.1 hreturned
  · exact absurd hpoint.2.1 hreturned

theorem Draining.take_chunk {rest : List QueueItem} {chunk : Bytes} (h : Draining n bytes s)
    (hsender : s.sender = .waiting) (hqueue : s.queue = .chunk chunk :: rest) :
    Draining n bytes
      { s with queue := rest, sender := .sending, received := s.received ++ [chunk] } := by
  have hpoint := h.point
  have hreturned : s.sender ≠ .returned := by simp [hsender]
  have horder : (s.received ++ [chunk]) ++ waitingChunks rest = s.enqueued := by
    rw [← h.order, hqueue, List.append_assoc]
    rfl
  refine ⟨h.room, horder, h.bytes, h.blocks, h.events, ?_⟩
  split at hpoint
  · rename_i hat
    have hchunks := hpoint.2.2
    rw [hqueue] at hchunks
    obtain ⟨-, -, hrest⟩ := hchunks.cons
    simp only [hat]
    exact ⟨hpoint.1, .inr rfl, hrest⟩
  · rename_i hat
    rcases hpoint.2 with ⟨-, queue, hchunks, hbefore⟩ | ⟨hover, -⟩
    · rw [hbefore] at hqueue
      simp only [hat]
      exact ⟨hpoint.1, .inl ⟨.inr rfl, hchunks.chunk_cons hqueue⟩⟩
    · exact absurd hover hreturned
  · exact absurd hpoint.2.1 hreturned
  · exact absurd hpoint.2.1 hreturned
  · exact absurd hpoint.2.1 hreturned

theorem Draining.take (h : Draining n bytes s) (hnext : s.take = some t) :
    Draining n bytes t ∧ t.rank < s.rank := by
  unfold AudioSession.take at hnext
  split at hnext
  · rename_i queue hsender hqueue
    cases hnext
    refine ⟨h.take_stop hsender hqueue, ?_⟩
    simp only [rank, hsender, hqueue, List.length_cons, reduceCtorEq, if_false]
    omega
  · rename_i chunk queue hsender hqueue
    cases hnext
    refine ⟨h.take_chunk hsender hqueue, ?_⟩
    simp only [rank, hsender, hqueue, List.length_cons, reduceCtorEq, if_false, if_true]
    omega
  · cases hnext

theorem Draining.putStop (h : Draining n bytes s) (hat : s.finishPoint = some .stopEnqueue) :
    Draining n bytes { s with queue := s.queue ++ [.stop], finishPoint := some .sender } := by
  have hpoint := h.point
  simp only [hat] at hpoint
  refine ⟨h.room, ?_, h.bytes, h.blocks, h.events, hpoint.1,
    .inl ⟨hpoint.2.1, s.queue, hpoint.2.2, rfl⟩⟩
  rw [waitingChunks_append, waitingChunks_stop, List.append_nil]
  exact h.order

theorem Draining.sent (h : Draining n bytes s) (hsending : s.sender = .sending) :
    Draining n bytes { s with sender := .waiting } := by
  have hpoint := h.point
  have hreturned : s.sender ≠ .returned := by simp [hsending]
  refine ⟨h.room, h.order, h.bytes, h.blocks, h.events, ?_⟩
  split at hpoint
  · rename_i hat
    simp only [hat]
    exact ⟨hpoint.1, .inl rfl, hpoint.2.2⟩
  · rename_i hat
    simp only [hat]
    rcases hpoint.2 with ⟨-, hqueue⟩ | ⟨hover, -⟩
    · exact ⟨hpoint.1, .inl ⟨.inl rfl, hqueue⟩⟩
    · exact absurd hover hreturned
  · exact absurd hpoint.2.1 hreturned
  · exact absurd hpoint.2.1 hreturned
  · exact absurd hpoint.2.1 hreturned

/-- A call of `finish` that only ends leaves another one where it is. -/
theorem Draining.endFinish (h : Draining n bytes s) (error : Option AudioError) :
    Draining n bytes (s.endFinish error) := by
  have hpoint := h.point
  refine ⟨h.room, h.order, h.bytes, h.blocks, h.events, ?_⟩
  cases hat : s.finishPoint with
  | none =>
    simp only [hat] at hpoint
    simp only [AudioSession.endFinish, hat]
    exact ⟨hpoint.1, hpoint.2.1, hpoint.2.2.1, List.mem_append_left _ hpoint.2.2.2⟩
  | some point =>
    simp only [AudioSession.endFinish, hat]
    rw [hat] at hpoint
    cases point <;> exact hpoint

/-- A `finish` that drains goes on draining, and gets on by every step that is not a call. -/
theorem Draining.next (h : Draining n bytes s) (ha : Healthy a) (hnext : s.next a = some t) :
    Draining n bytes t ∧ t.rank ≤ s.rank ∧ (Progress a → t.rank < s.rank) := by
  cases a with
  | start =>
    simp only [AudioSession.next, Option.ite_none_right_eq_some] at hnext
    rcases h.not_open with hstate | hstate <;> rw [hstate] at hnext <;> cases hnext.1
  | sendFrame pcm =>
    cases hnext
    have hraises : (s.sendFrame pcm).1 = s := by
      unfold AudioSession.sendFrame
      rw [if_pos h.not_started]
    refine ⟨?_, ?_, fun hprogress => nomatch hprogress⟩
    · rw [recordCall, hraises]
      exact ⟨h.room, h.order, h.bytes, h.blocks, h.events, h.point⟩
    · rw [recordCall, hraises]
      exact Nat.le_refl _
  | finish =>
    cases hnext
    obtain ⟨error, heq⟩ := finish_of_closed h.not_started
    rw [heq]
    exact ⟨h.endFinish error, Nat.le_refl _, fun hprogress => nomatch hprogress⟩
  | resume =>
    obtain ⟨hdraining, hlt⟩ := h.resume hnext
    exact ⟨hdraining, Nat.le_of_lt hlt, fun _ => hlt⟩
  | putStop =>
    simp only [AudioSession.next, Option.ite_none_right_eq_some, Option.some.injEq] at hnext
    obtain ⟨⟨hat, -⟩, rfl⟩ := hnext
    have hlt :
        rank { s with queue := s.queue ++ [.stop], finishPoint := some .sender } < s.rank := by
      simp only [rank, hat, List.length_append, List.length_singleton]
      omega
    exact ⟨h.putStop hat, Nat.le_of_lt hlt, fun _ => hlt⟩
  | take =>
    simp only [AudioSession.next, Option.ite_none_left_eq_some] at hnext
    obtain ⟨hdraining, hlt⟩ := h.take hnext.2
    exact ⟨hdraining, Nat.le_of_lt hlt, fun _ => hlt⟩
  | sent =>
    simp only [AudioSession.next, Option.ite_none_right_eq_some, Option.some.injEq] at hnext
    obtain ⟨hsending, rfl⟩ := hnext
    have hlt : rank { s with sender := .waiting } < s.rank := by
      simp only [rank, hsending, reduceCtorEq, if_false, if_true]
      omega
    exact ⟨h.sent hsending, Nat.le_of_lt hlt, fun _ => hlt⟩
  | providerFinished =>
    simp only [AudioSession.next, Option.ite_none_right_eq_some, Option.some.injEq] at hnext
    obtain ⟨hat, rfl⟩ := hnext
    have hpoint := h.point
    simp only [hat] at hpoint
    have hlt : rank { s with finishPoint := some .events } < s.rank := by
      simp only [rank, hat]
      omega
    exact ⟨⟨h.room, h.order, h.bytes, h.blocks, h.events, hpoint⟩, Nat.le_of_lt hlt, fun _ => hlt⟩
  | eventsReturn =>
    simp only [AudioSession.next, Option.ite_none_right_eq_some, Option.some.injEq] at hnext
    obtain ⟨⟨-, hrunning⟩, rfl⟩ := hnext
    have hlt : rank { s with events := .returned } < s.rank := by
      simp only [rank, hrunning, reduceCtorEq, if_false, if_true]
      omega
    exact ⟨⟨h.room, h.order, h.bytes, h.blocks, by simp, h.point⟩, Nat.le_of_lt hlt, fun _ => hlt⟩
  | sendRaises error | providerFinishRaises error | eventsRaise error => cases ha

/-- A `finish` that is not over can get on. -/
theorem Draining.not_stuck (h : Draining n bytes s) (hopen : s.state ≠ .completed) :
    ∃ a t, Progress a ∧ Under Careful Steps s a t := by
  have hpoint := h.point
  have hbusy : s.state ≠ .idle := by rcases h.not_open with hstate | hstate <;> simp [hstate]
  -- A sender that is at work goes on with the provider's answer or with the queue.
  have hsending : s.sender = .sending → ∃ a t, Progress a ∧ Under Careful Steps s a t :=
    fun hsender => ⟨.sent, _, trivial, ⟨trivial, trivial⟩, if_pos hsender⟩
  have htake : s.sender = .waiting → s.queue ≠ [] →
      ∃ a t, Progress a ∧ Under Careful Steps s a t := by
    intro hsender hqueue
    obtain ⟨t, ht⟩ := take_of_waiting hsender hqueue
    exact ⟨.take, t, trivial, ⟨trivial, trivial⟩, (if_neg hbusy).trans ht⟩
  split at hpoint
  · rename_i hat
    obtain ⟨-, halive, -⟩ := hpoint
    rcases halive with hsender | hsender
    · by_cases hqueue : s.queue = []
      · refine ⟨.putStop, _, trivial, ⟨trivial, trivial⟩, if_pos ⟨hat, ?_⟩⟩
        rw [hqueue]
        exact h.room
      · exact htake hsender hqueue
    · exact hsending hsender
  · rename_i hat
    rcases hpoint.2 with ⟨halive, queue, -, hqueue⟩ | ⟨hsender, -⟩
    · rcases halive with hsender | hsender
      · exact htake hsender (by simp [hqueue])
      · exact hsending hsender
    · refine ⟨.resume, s.awaitSender, trivial, ⟨trivial, trivial⟩, ?_⟩
      simp [Steps, AudioSession.next, AudioSession.resume, hat, hsender, SenderTask.done]
  · rename_i hat
    exact ⟨.providerFinished, _, trivial, ⟨trivial, trivial⟩, if_pos hat⟩
  · rename_i hat
    cases hevents : s.events with
    | running => exact ⟨.eventsReturn, _, trivial, ⟨trivial, trivial⟩, if_pos ⟨hbusy, hevents⟩⟩
    | returned =>
      refine ⟨.resume, { s with
        state := .completed, finishPoint := none, finished := s.finished ++ [none] }, trivial,
        ⟨trivial, trivial⟩, ?_⟩
      simp [Steps, AudioSession.next, AudioSession.resume, hat, hevents]
    | raised error => exact absurd hevents (h.events error)
  · exact absurd hpoint.1 hopen

theorem Draining.delivered (h : Draining n bytes s) (hstate : s.state = .completed) :
    none ∈ s.finished ∧ s.received.flatten = bytes ∧ Blocks n s.received := by
  have hpoint := h.point
  have hfinishing : s.state ≠ .finishing := by simp [hstate]
  split at hpoint
  · exact absurd hpoint.1 hfinishing
  · exact absurd hpoint.1 hfinishing
  · exact absurd hpoint.1 hfinishing
  · exact absurd hpoint.1 hfinishing
  · have hall : s.received = s.enqueued := by
      rw [← h.order, hpoint.2.2.1]
      exact (List.append_nil _).symm
    rw [hall]
    exact ⟨hpoint.2.2.2, h.bytes, h.blocks⟩

/-- A `finish` that drains goes on draining over a whole run, and gets on no more often than its
rank says. -/
theorem Draining.run {as : List AudioAction} (h : Draining n bytes s)
    (hrun : Run (Under Careful Steps) s as t) :
    Draining n bytes t ∧ as.countP Progress + t.rank ≤ s.rank := by
  induction hrun with
  | done s => exact ⟨h, by simp⟩
  | @more s u t a as hstep hrest ih =>
    obtain ⟨hdraining, hle, hlt⟩ := h.next hstep.1.1 hstep.2
    obtain ⟨hdrained, hcount⟩ := ih hdraining
    refine ⟨hdrained, ?_⟩
    rw [List.countP_cons]
    by_cases hprogress : Progress a
    · have := hlt hprogress
      simp only [hprogress, decide_true, if_true]
      omega
    · simp only [hprogress, decide_false, Bool.false_eq_true, if_false]
      omega

end

/-- `finish` was called on a session of which no frame was refused: it ends well after finitely
many steps of the tasks and the provider, one of which can always be taken, and the provider has
got the bytes then. -/
def FinishDelivers (n : ℕ) (bytes : Bytes) (s : AudioSession) : Prop :=
  ∀ as t, Run (Under Careful Steps) s as t →
    as.countP Progress ≤ s.rank ∧
    (t.state ≠ .completed → ∃ a u, Progress a ∧ Under Careful Steps t a u) ∧
    (t.state = .completed →
      none ∈ t.finished ∧ t.received.flatten = bytes ∧ Blocks n t.received)

/-- What every careful run keeps: the order, and what is collected until `finish`. -/
def Reached (s : AudioSession) : Prop :=
  InOrder s ∧ (s.state = .idle ∨ s.state = .started → Collecting s)

theorem Reached.next (h : Reached s) (ha : s.Careful a) (hnext : s.next a = some t) : Reached t :=
  ⟨h.1.next ha hnext,
    fun hopen => (h.2 (open_of_next hnext hopen)).next ha.1 hnext hopen⟩

/-- A session over a provider that does not fail, in every run whose steps are careful: what was
refused leaves a gap behind which nothing is sent, and a `finish` of a session whose frames were
all taken delivers them. -/
theorem audio_reaches_provider {kind : SessionKind} {queueMaxChunks chunkDurationMs : ℤ}
    {s w : AudioSession} {as : List AudioAction}
    (hcreate : create kind queueMaxChunks chunkDurationMs = .ok s)
    (hrun : Run (Under Careful Steps) s as w) :
    (∀ n ∈ w.refusedAt, w.received.length ≤ n) ∧
      (w.state = .started → w.AllTaken → w.Careful .finish →
        FinishDelivers w.chunker.bytesPerChunk w.frames.flatten w.finish) := by
  obtain ⟨hidle, hcollecting, horder⟩ := collecting_create hcreate
  have hreached : Reached w :=
    hrun.invariant (fun _ _ _ h hstep => h.next hstep.1 hstep.2) ⟨horder, fun _ => hcollecting⟩
  refine ⟨fun n hn => hreached.1.received_le hn, ?_⟩
  intro hstate htaken hfinish as t hrest
  have hdraining := (hreached.2 (.inr hstate)).finish hreached.1 hstate htaken hfinish.2
  obtain ⟨hdrained, hcount⟩ := hdraining.run hrest
  exact ⟨by omega, hdrained.not_stuck, hdrained.delivered⟩

def smallSession : AudioSession where
  kind := .transcription
  queueMax := 1
  chunker := { sampleWidthBytes := 2, bytesPerChunk := 32, buffer := [], short := by decide }

/-- A frame of a chunk and one sample, of which the sender has the chunk when `finish` is
called. -/
def heard : List AudioAction := [.start, .sendFrame (List.replicate 34 0), .take]

theorem heard_delivered :
    FinishDelivers 32 (List.replicate 34 0)
      ((follow (guarded Careful next) heard smallSession).get (by decide +kernel)).finish :=
  (audio_reaches_provider (rfl : create .transcription 1 1 = .ok smallSession)
    (run_under_to_get Careful next heard smallSession (by decide +kernel))).2
    (by decide +kernel) (by decide +kernel) (by decide +kernel)

/-- Where the chunk is still in the queue, `finish` refuses the sample, though no frame was
refused. A session that refused a chunk sends the next one behind the gap. -/
theorem tail_refused_and_gap_passed :
    (∃ w, Run Steps smallSession [.start, .sendFrame (List.replicate 34 0)] w ∧
      w.state = .started ∧ w.AllTaken ∧
      w.finish.finished = [some SessionKind.transcription.queueFull] ∧
      w.finish.enqueued.flatten ≠ w.frames.flatten) ∧
    ∃ w, Run Steps smallSession [.start, .sendFrame (List.replicate 64 0), .take, .sent,
        .sendFrame (List.replicate 32 0), .take] w ∧
      w.refusedAt = some 1 ∧ w.received.length = 2 :=
  ⟨⟨_, run_to_get next _ smallSession (by decide +kernel), by decide +kernel⟩,
    ⟨_, run_to_get next _ smallSession (by decide +kernel), by decide +kernel⟩⟩

end AudioSession
end Captions
end Matinier
