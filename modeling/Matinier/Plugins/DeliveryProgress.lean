import Matinier.Plugins.EventDelivery
import Matinier.Plugins.FramingAgreement

/-!
# Progress of the delivery

A pass that starts with an event for the plugin moves the acknowledged sequence on exactly where
the request with the events of its first window can be sent. What an event may hold on its own
does not make that so: payloads may be nested deeper than a message leaves room for, and a few
large ones are more than a message may hold.
-/

namespace Matinier
namespace Plugins

open JsonText

/-- The request for a batch is within the limits of the host. -/
def BatchFits (requestId : ℕ) (mediaSessionId scope : String) (events : List MediaEvent) : Prop :=
  (RpcId.str ("host-" ++ toString requestId)).HostValid ∧
    (∀ e ∈ events, (JsonValue.obj e.payload.entries).nesting ≤ 12) ∧
    byteLength (dumps (batchMessage requestId mediaSessionId scope events).envelope.toJson) <
      maxLineBytes

theorem optional_nesting {α : Type} {f : α → JsonValue} (value : Option α)
    (h : ∀ a, (f a).nesting = 0) : (value.elim .null f).nesting = 0 := by
  cases value with
  | none => rfl
  | some a => exact h a

theorem MediaEvent.nesting_toJson (e : MediaEvent) (n : ℕ) :
    e.toJson.nesting ≤ n ↔ (JsonValue.obj e.payload.entries).nesting < n := by
  have hint : ∀ k : ℤ, (JsonValue.int k).nesting = 0 := fun _ => rfl
  have hstr : ∀ s : String, (JsonValue.str s).nesting = 0 := fun _ => rfl
  rw [MediaEvent.toJson, JsonValue.nesting_obj_le]
  simp only [List.forall_mem_cons, optional_nesting _ hint, optional_nesting _ hstr, hint, hstr]
  constructor
  · intro h
    exact h.2.2.2.2.2.2.2.2.2.2.2.1
  · intro h
    have hn : 0 < n := by omega
    exact ⟨hn, hn, hn, hn, hn, hn, hn, hn, hn, hn, hn, h, hn,
      fun _ hmem => absurd hmem List.not_mem_nil⟩

theorem batchMessage_nesting (requestId : ℕ) (mediaSessionId scope : String)
    (events : List MediaEvent) (n : ℕ) :
    (batchMessage requestId mediaSessionId scope events).envelope.toJson.nesting ≤ n + 4 ↔
      ∀ e ∈ events, (JsonValue.obj e.payload.entries).nesting ≤ n := by
  have hstr : ∀ s : String, (JsonValue.str s).nesting = 0 := fun _ => rfl
  have hparams : (JsonValue.obj (batchParams mediaSessionId scope events).entries).nesting ≤ n + 3 ↔
      ∀ e ∈ events, (JsonValue.obj e.payload.entries).nesting ≤ n := by
    rw [batchParams, JsonValue.nesting_obj_le]
    simp only [List.forall_mem_cons, hstr, Nat.lt_succ_iff, JsonValue.nesting_arr_le,
      List.forall_mem_map, MediaEvent.nesting_toJson]
    constructor
    · intro h
      exact h.2.2.1
    · intro h
      exact ⟨by omega, by omega, h, fun _ hmem => absurd hmem List.not_mem_nil⟩
  rw [batchMessage, HostMessage.envelope, Envelope.toJson, Envelope.entries,
    JsonValue.nesting_obj_le]
  simp only [List.forall_mem_cons, RpcId.toJson, hstr, Nat.lt_succ_iff, hparams]
  constructor
  · intro h
    exact h.2.2.2.1
  · intro h
    exact ⟨by omega, by omega, by omega, h, fun _ hmem => absurd hmem List.not_mem_nil⟩

theorem sendError_batch (requestId : ℕ) (mediaSessionId scope : String)
    (events : List MediaEvent) :
    sendError (batchMessage requestId mediaSessionId scope events) = none ↔
      BatchFits requestId mediaSessionId scope events := by
  have hnesting := batchMessage_nesting requestId mediaSessionId scope events 12
  have hmethod : isMethod "event.batch" = true := by decide
  have hline : byteLength (encodeLine
      (batchMessage requestId mediaSessionId scope events).envelope.toJson) =
      byteLength (dumps (batchMessage requestId mediaSessionId scope events).envelope.toJson) + 1 :=
    byteLength_append _ _
  have hparams : (batchMessage requestId mediaSessionId scope events).envelope.toJson =
      .obj [("jsonrpc", .str "2.0"), ("id", .str ("host-" ++ toString requestId)),
        ("method", .str "event.batch"),
        ("params", .obj (batchParams mediaSessionId scope events).entries)] := rfl
  unfold sendError BatchFits
  rw [hline]
  constructor
  · intro h
    split_ifs at h with hchecked hbytes
    exact ⟨hchecked.1.1, hnesting.mp hchecked.2.1, hbytes⟩
  · rintro ⟨hid, hpayloads, hbytes⟩
    have hbounded : BoundedJson maxRpcMessageBytes maxEventPayloadDepth
        (batchMessage requestId mediaSessionId scope events).envelope.toJson :=
      ⟨hnesting.mpr hpayloads, Nat.le_of_lt hbytes⟩
    have hentry : BoundedJson maxRpcMessageBytes maxEventPayloadDepth
        (.obj (batchParams mediaSessionId scope events).entries) := by
      rw [hparams] at hbounded
      exact hbounded.entry "params" (by simp)
    rw [if_pos ⟨⟨hid, hmethod, hentry⟩, hbounded⟩, if_pos (Nat.succ_le_of_lt hbytes)]

theorem payloads_le_batchMessage (requestId : ℕ) (mediaSessionId scope : String)
    (events : List MediaEvent) :
    (events.map fun e => byteLength (dumps (.obj e.payload.entries))).sum ≤
      byteLength (dumps (batchMessage requestId mediaSessionId scope events).envelope.toJson) := by
  have hpayload : ∀ e : MediaEvent,
      byteLength (dumps (.obj e.payload.entries)) ≤ byteLength (dumps e.toJson) :=
    fun e => byteLength_entry "payload" (by simp)
  have hevents : (events.map fun e => byteLength (dumps (.obj e.payload.entries))).sum ≤
      byteLength (dumps (.arr (events.map MediaEvent.toJson))) := by
    have hsum : (events.map fun e => byteLength (dumps (.obj e.payload.entries))).sum ≤
        (events.map fun e => byteLength (dumps e.toJson)).sum :=
      List.sum_le_sum fun e _ => hpayload e
    rw [byteLength_arr, List.map_map]
    exact hsum.trans (by simp [Function.comp_def]; omega)
  have hparams : byteLength (dumps (.arr (events.map MediaEvent.toJson))) ≤
      byteLength (dumps (.obj (batchParams mediaSessionId scope events).entries)) :=
    byteLength_entry "events" (by simp [batchParams])
  exact hevents.trans (hparams.trans (byteLength_entry "params"
    (by simp [batchMessage, HostMessage.envelope, Envelope.entries])))

theorem max?_of_increasing {l : List ℤ} (h : l.Pairwise (· < ·)) : l.max? = l.getLast? := by
  rcases List.eq_nil_or_concat l with rfl | ⟨init, last, rfl⟩
  · rfl
  · rw [List.concat_eq_append, List.pairwise_append] at h
    rw [List.concat_eq_append, List.getLast?_concat, List.max?_eq_some_iff]
    refine ⟨by simp, fun a ha => ?_⟩
    rcases List.mem_append.mp ha with ha | ha
    · exact (h.2.2 a ha last (by simp)).le
    · exact (List.mem_singleton.mp ha).le

theorem EventLog.listEventsAfter_increasing (log : EventLog) (cursor : ℤ) (limit : ℕ) :
    (log.listEventsAfter cursor limit).Pairwise fun e e' => e.sequence < e'.sequence :=
  (log.increasing.filter _).sublist (List.take_sublist _ _)

theorem EventLog.mem_listEventsAfter {log : EventLog} {cursor : ℤ} {limit : ℕ} {e : MediaEvent}
    (h : e ∈ log.listEventsAfter cursor limit) : cursor < e.sequence := by
  simpa using (List.mem_filter.mp (List.mem_of_mem_take h)).2

theorem EventLog.listEventsAfter_ne_nil {log : EventLog} {cursor : ℤ} {limit : ℕ}
    (hlimit : 0 < limit) {e : MediaEvent} (he : e ∈ log.events) (hcursor : cursor < e.sequence) :
    log.listEventsAfter cursor limit ≠ [] := by
  intro hnil
  have hnone : (log.events.filter fun e => cursor < e.sequence) = [] := by
    rcases List.take_eq_nil_iff.mp hnil with hzero | hnone
    · omega
    · exact hnone
  have hmem : e ∈ log.events.filter fun e => cursor < e.sequence :=
    List.mem_filter.mpr ⟨he, by simpa using hcursor⟩
  rw [hnone] at hmem
  cases hmem

/-- The plugin acknowledges a batch as a whole. -/
def Round.Acknowledges (r : Round) : Prop :=
  ∀ events : List MediaEvent, ∀ maximum ∈ (events.map fun e => e.sequence).max?,
    r.respond events = .result (.obj [("acknowledged_sequence", .int maximum)])

namespace EventBinding

variable {cfg : DeliveryConfig} {r : Round} {rounds : List Round} {b b' : EventBinding}
  {events : List MediaEvent} {cursor through acknowledged : ℤ}

/-- The supervisor holds no more to be acknowledged than the row says. -/
def Tracks (b : EventBinding) : Prop :=
  ∀ session ∈ b.session, session.lastAcknowledgedSequence ≤ b.lastAcknowledgedSequence

@[simp] theorem advanceDelivery_lastAcknowledged (b : EventBinding) (sequence : ℤ) :
    (b.advanceDelivery sequence).lastAcknowledgedSequence = b.lastAcknowledgedSequence := by
  unfold advanceDelivery
  split_ifs <;> rfl

@[simp] theorem advanceDelivery_session (b : EventBinding) (sequence : ℤ) :
    (b.advanceDelivery sequence).session = b.session := by
  unfold advanceDelivery
  split_ifs <;> rfl

@[simp] theorem advanceDelivery_mediaSessionId (b : EventBinding) (sequence : ℤ) :
    (b.advanceDelivery sequence).mediaSessionId = b.mediaSessionId := by
  unfold advanceDelivery
  split_ifs <;> rfl

@[simp] theorem hold_lastAcknowledged (b : EventBinding) (session : OpenSession) (sequence : ℤ) :
    (b.hold session sequence).lastAcknowledgedSequence = b.lastAcknowledgedSequence := rfl

theorem le_advanceDelivery (b : EventBinding) (sequence : ℤ) :
    sequence ≤ (b.advanceDelivery sequence).lastDeliveredSequence := by
  unfold advanceDelivery
  split_ifs with h
  · exact le_rfl
  · exact not_lt.mp h

theorem answerBatch_ok (hmax : ∀ m ∈ (events.map fun e => e.sequence).max?, m ≤ through)
    (h : b.answerBatch r events through = .ok (acknowledged, b')) :
    acknowledged ≤ through ∧ ∃ session, b.session = some session ∧
      b' = b.hold session acknowledged := by
  unfold answerBatch at h
  split_ifs at h with hempty
  · unfold acknowledgeThrough at h
    simp only [bind_eq_ok, require_eq_ok, ensure_eq_ok, pure_eq_ok, Prod.mk.injEq] at h
    obtain ⟨session, hsession, -, -, rfl, rfl⟩ := h
    exact ⟨le_rfl, session, hsession, rfl⟩
  · unfold deliverEvents at h
    simp only [bind_eq_ok, require_eq_ok, ensure_eq_ok] at h
    obtain ⟨-, -, session, hsession, h⟩ := h
    split at h
    · rename_i hnone
      rw [List.max?_eq_none_iff, List.map_eq_nil_iff] at hnone
      exact absurd (List.isEmpty_iff.mpr hnone) hempty
    · rename_i maximum hmaximum
      split at h
      · simp at h
      · split at h
        · simp at h
        · simp only [bind_eq_ok, require_eq_ok, ensure_eq_ok, pure_eq_ok, Prod.mk.injEq] at h
          obtain ⟨a, -, -, hrange, rfl, rfl⟩ := h
          exact ⟨hrange.2.trans (hmax maximum hmaximum), session, hsession, rfl⟩

theorem acknowledgeBinding_delivered (h : acknowledged ≤ b.lastDeliveredSequence) :
    b.acknowledgeBinding acknowledged = .ok { b with
      lastAcknowledgedSequence := max b.lastAcknowledgedSequence acknowledged } := by
  unfold acknowledgeBinding
  simp only [bind_eq_ok, ensure_eq_ok, pure_eq_ok]
  refine ⟨(), h, ?_⟩
  split_ifs with hlater
  · rw [max_eq_right hlater.le]
  · rw [max_eq_left (not_lt.mp hlater)]

theorem max_subscribed_le (cfg : DeliveryConfig) (log : EventLog) (cursor : ℤ) (limit : ℕ)
    (lastRaw : MediaEvent) :
    ∀ m ∈ (((log.listEventsAfter cursor limit).filter fun e => e.eventType ∈ cfg.subscriptions).map
      fun e => e.sequence).max?,
      m = deliveredThrough cfg (log.listEventsAfter cursor limit) lastRaw := by
  have hincreasing := (log.listEventsAfter_increasing cursor limit).filter
    fun e => e.eventType ∈ cfg.subscriptions
  intro m hm
  rw [max?_of_increasing (List.pairwise_map.mpr hincreasing), List.getLast?_map] at hm
  obtain ⟨last, hlast, rfl⟩ := Option.map_eq_some_iff.mp hm
  rw [deliveredThrough, hlast, Option.getD_some]

/-- What one batch comes to: there was nothing to deliver, or the plugin has not answered, or what
it acknowledges is stored. -/
theorem deliverBatch_cases (cfg : DeliveryConfig) (r : Round) (cursor : ℤ) (b : EventBinding) :
    (r.log.listEventsAfter cursor cfg.batchSize = [] ∧
      b.deliverBatch cfg r cursor = (b, .ok none)) ∨
    ∃ lastRaw, (r.log.listEventsAfter cursor cfg.batchSize).getLast? = some lastRaw ∧
      let raw := r.log.listEventsAfter cursor cfg.batchSize
      let events := raw.filter fun e => e.eventType ∈ cfg.subscriptions
      let advanced : EventBinding := b.advanceDelivery (deliveredThrough cfg raw lastRaw)
      (∃ e, advanced.answerBatch r events (deliveredThrough cfg raw lastRaw) = .error e ∧
        b.deliverBatch cfg r cursor = (advanced, .error e)) ∨
      ∃ acknowledged session next,
        advanced.answerBatch r events (deliveredThrough cfg raw lastRaw) =
          .ok (acknowledged, advanced.hold session acknowledged) ∧
        b.deliverBatch cfg r cursor = ({ advanced.hold session acknowledged with
          lastAcknowledgedSequence := max b.lastAcknowledgedSequence acknowledged }, .ok next) := by
  unfold deliverBatch
  cases hlast : (r.log.listEventsAfter cursor cfg.batchSize).getLast? with
  | none =>
    left
    simp only [hlast]
    exact ⟨List.getLast?_eq_none_iff.mp hlast, trivial⟩
  | some lastRaw =>
    refine Or.inr ⟨lastRaw, rfl, ?_⟩
    have hmax := max_subscribed_le cfg r.log cursor cfg.batchSize lastRaw
    simp only [hlast]
    generalize deliveredThrough cfg (r.log.listEventsAfter cursor cfg.batchSize) lastRaw =
      through at hmax
    cases hanswer : (b.advanceDelivery through).answerBatch r
      ((r.log.listEventsAfter cursor cfg.batchSize).filter
        fun e => e.eventType ∈ cfg.subscriptions) through with
    | error e => exact Or.inl ⟨e, rfl, rfl⟩
    | ok answer =>
      obtain ⟨acknowledged, answered⟩ := answer
      obtain ⟨hthrough, session, -, rfl⟩ := answerBatch_ok (fun m hm => (hmax m hm).le) hanswer
      have hstored : ((b.advanceDelivery through).hold session acknowledged).acknowledgeBinding
          acknowledged = .ok { (b.advanceDelivery through).hold session acknowledged with
            lastAcknowledgedSequence := max b.lastAcknowledgedSequence acknowledged } := by
        have hdelivered := hthrough.trans (le_advanceDelivery b through)
        rw [acknowledgeBinding_delivered (b := (b.advanceDelivery through).hold session _)
          hdelivered, hold_lastAcknowledged, advanceDelivery_lastAcknowledged]
      refine Or.inr ⟨acknowledged, session, nextCursor cfg
        (r.log.listEventsAfter cursor cfg.batchSize) lastRaw cursor acknowledged, rfl, ?_⟩
      simp only [hstored]

/-- The supervisor is not ahead of the row behind a batch either, and the row has not gone back. -/
theorem deliverBatch_tracks (cfg : DeliveryConfig) (r : Round) (cursor : ℤ) (h : b.Tracks) :
    (b.deliverBatch cfg r cursor).1.Tracks ∧
      b.lastAcknowledgedSequence ≤ (b.deliverBatch cfg r cursor).1.lastAcknowledgedSequence := by
  rcases b.deliverBatch_cases cfg r cursor with ⟨-, hnone⟩ | ⟨lastRaw, -, ⟨e, -, herror⟩ |
    ⟨acknowledged, session, next, -, hok⟩⟩
  · rw [hnone]
    exact ⟨h, le_rfl⟩
  · rw [herror]
    simpa [Tracks] using h
  · rw [hok]
    constructor
    · intro held hheld
      cases hheld
      exact le_max_right _ _
    · exact le_max_left _ _

theorem deliverEventBatches_tracks (cfg : DeliveryConfig) (rounds : List Round) (cursor : ℤ)
    (h : b.Tracks) :
    (b.deliverEventBatches cfg rounds cursor).1.Tracks ∧ b.lastAcknowledgedSequence ≤
      (b.deliverEventBatches cfg rounds cursor).1.lastAcknowledgedSequence := by
  induction rounds generalizing b cursor with
  | nil => exact ⟨h, le_rfl⟩
  | cons r rounds ih =>
    have hbatch := deliverBatch_tracks cfg r cursor h
    rw [deliverEventBatches]
    split
    · rename_i hpair
      simpa only [hpair] using hbatch
    · rename_i hpair
      simpa only [hpair] using hbatch
    · rename_i b' cursor' hpair
      rw [hpair] at hbatch
      have hrest := ih cursor' hbatch.1
      exact ⟨hrest.1, hbatch.2.trans hrest.2⟩

def firstBatch (b : EventBinding) (cfg : DeliveryConfig) (r : Round) : List MediaEvent :=
  (r.log.listEventsAfter b.lastAcknowledgedSequence cfg.batchSize).filter
    fun e => e.eventType ∈ cfg.subscriptions

/-- There is nothing for the plugin in the first window, or it can be sent. -/
def FirstBatchFits (b : EventBinding) (cfg : DeliveryConfig) (r : Round) : Prop :=
  b.firstBatch cfg r = [] ∨
    ∀ session ∈ b.session, BatchFits r.requestId b.mediaSessionId session.scope (b.firstBatch cfg r)

/-- The plugin answers a batch that is sent with the last sequence of it. -/
theorem answerBatch_of_fits {session : OpenSession} (hready : r.ready = true)
    (hack : r.Acknowledges) (hsession : b.session = some session)
    (hheld : session.lastAcknowledgedSequence ≤ through)
    (hmax : ∀ m ∈ (events.map fun e => e.sequence).max?, m = through)
    (h : events = [] ∨ BatchFits r.requestId b.mediaSessionId session.scope events) :
    b.answerBatch r events through = .ok (through, b.hold session through) := by
  unfold answerBatch
  by_cases hnil : events = []
  · simp [hnil, acknowledgeThrough, hsession, hheld]
  · have hsend := (sendError_batch _ _ _ _).mpr (h.resolve_left hnil)
    obtain ⟨maximum, hmaximum⟩ : ∃ m, (events.map fun e => e.sequence).max? = some m := by
      apply Option.ne_none_iff_exists'.mp
      simpa using hnil
    obtain rfl := hmax maximum hmaximum
    rw [if_neg (by simpa using hnil)]
    unfold deliverEvents
    simp only [bind_eq_ok, ensure_eq_ok, require_eq_ok]
    refine ⟨(), hready, session, hsession, ?_⟩
    simp only [hmaximum, hsend, hack events maximum hmaximum]
    simp [acknowledgement?, JsonValue.lookup, hheld]

theorem answerBatch_of_not_fits (through : ℤ) {session : OpenSession}
    (hsession : b.session = some session)
    (hnil : events ≠ []) (h : ¬ BatchFits r.requestId b.mediaSessionId session.scope events) :
    ∃ e, b.answerBatch r events through = .error e := by
  have hsend := fun hnone => h ((sendError_batch _ _ _ _).mp hnone)
  cases hanswer : b.answerBatch r events through with
  | error e => exact ⟨e, rfl⟩
  | ok answer =>
    unfold answerBatch deliverEvents at hanswer
    rw [if_neg (by simpa using hnil)] at hanswer
    simp only [bind_eq_ok, require_eq_ok] at hanswer
    obtain ⟨-, -, held, hheld, hanswer⟩ := hanswer
    obtain rfl : held = session := Option.some.inj (hheld.symm.trans hsession)
    split at hanswer
    · rename_i hnone
      rw [List.max?_eq_none_iff, List.map_eq_nil_iff] at hnone
      exact absurd hnone hnil
    · split at hanswer
      · simp at hanswer
      · rename_i hnone
        exact absurd hnone hsend

theorem lt_deliveredThrough (cfg : DeliveryConfig) {log : EventLog} {limit : ℕ}
    {lastRaw : MediaEvent}
    (h : lastRaw ∈ log.listEventsAfter cursor limit) :
    cursor < deliveredThrough cfg (log.listEventsAfter cursor limit) lastRaw := by
  unfold deliveredThrough
  cases hlast : ((log.listEventsAfter cursor limit).filter
      fun e => e.eventType ∈ cfg.subscriptions).getLast? with
  | none => exact EventLog.mem_listEventsAfter h
  | some last =>
    have hmem := (List.mem_filter.mp (List.mem_of_getLast? hlast)).1
    exact EventLog.mem_listEventsAfter hmem

/-- With a plugin that is ready and acknowledges what it receives, a batch moves the acknowledged
sequence on where it can be sent, and is the end of the pass otherwise. -/
theorem deliverBatch_advances (cfg : DeliveryConfig) (htracks : b.Tracks) (hready : r.ready = true)
    (hsession : b.session.isSome = true) (hack : r.Acknowledges)
    (hpending : r.log.listEventsAfter b.lastAcknowledgedSequence cfg.batchSize ≠ []) :
    (b.FirstBatchFits cfg r → b.lastAcknowledgedSequence <
      (b.deliverBatch cfg r b.lastAcknowledgedSequence).1.lastAcknowledgedSequence) ∧
    (¬ b.FirstBatchFits cfg r → ∃ b' e,
      b.deliverBatch cfg r b.lastAcknowledgedSequence = (b', .error e) ∧
        b'.lastAcknowledgedSequence = b.lastAcknowledgedSequence) := by
  obtain ⟨session, hsome⟩ := Option.isSome_iff_exists.mp hsession
  rcases b.deliverBatch_cases cfg r b.lastAcknowledgedSequence with ⟨hnone, -⟩ | ⟨lastRaw, hraw, h⟩
  · exact absurd hnone hpending
  have hmax := max_subscribed_le cfg r.log b.lastAcknowledgedSequence cfg.batchSize lastRaw
  have hthrough := lt_deliveredThrough cfg (List.mem_of_getLast? hraw)
  dsimp only at h
  generalize deliveredThrough cfg (r.log.listEventsAfter b.lastAcknowledgedSequence cfg.batchSize)
    lastRaw = through at h hmax hthrough
  have hadvanced : (b.advanceDelivery through).session = some session := by simpa using hsome
  constructor
  · intro hfits
    have hanswer := answerBatch_of_fits hready hack hadvanced
      ((htracks session hsome).trans hthrough.le) hmax (by
        rw [advanceDelivery_mediaSessionId]
        exact hfits.imp id fun hall => hall session hsome)
    rcases h with ⟨e, herror, -⟩ | ⟨acknowledged, held, next, hok, hbatch⟩
    · exact absurd (hanswer.symm.trans herror) (by simp)
    · have heq := hanswer.symm.trans hok
      simp only [Except.ok.injEq, Prod.mk.injEq] at heq
      obtain ⟨rfl, -⟩ := heq
      rw [hbatch]
      exact lt_max_of_lt_right hthrough
  · intro hfits
    simp only [FirstBatchFits, not_or, not_forall] at hfits
    obtain ⟨hnil, held, hheld, hbatchFits⟩ := hfits
    obtain rfl : session = held := Option.some.inj (hsome.symm.trans hheld)
    rw [← advanceDelivery_mediaSessionId b through] at hbatchFits
    obtain ⟨e, hanswer⟩ := answerBatch_of_not_fits through hadvanced hnil hbatchFits
    rcases h with ⟨e', -, hbatch⟩ | ⟨acknowledged, held, next, hok, -⟩
    · exact ⟨_, e', hbatch, advanceDelivery_lastAcknowledged b through⟩
    · exact absurd (hanswer.symm.trans hok) (by simp)

theorem deliverEventBatches_advances (htracks : b.Tracks) (hready : r.ready = true)
    (hsession : b.session.isSome = true) (hack : r.Acknowledges)
    (hpending : r.log.listEventsAfter b.lastAcknowledgedSequence cfg.batchSize ≠ []) :
    b.lastAcknowledgedSequence < (b.deliverEventBatches cfg (r :: rounds)
      b.lastAcknowledgedSequence).1.lastAcknowledgedSequence ↔ b.FirstBatchFits cfg r := by
  obtain ⟨hadvances, hends⟩ := deliverBatch_advances cfg htracks hready hsession hack
    hpending
  have hbatch := deliverBatch_tracks cfg r b.lastAcknowledgedSequence htracks
  rw [deliverEventBatches]
  by_cases hfits : b.FirstBatchFits cfg r
  · have hlt := hadvances hfits
    simp only [hfits, iff_true]
    split
    · rename_i hpair
      simpa only [hpair] using hlt
    · rename_i hpair
      simpa only [hpair] using hlt
    · rename_i b' cursor' hpair
      rw [hpair] at hlt hbatch
      exact hlt.trans_le (deliverEventBatches_tracks cfg rounds cursor' hbatch.1).2
  · obtain ⟨b', e, hpair, hsame⟩ := hends hfits
    simp only [hpair, hsame, hfits, lt_irrefl]

end EventBinding

/-- The supervisor is not ahead of the row, and the row is not before the first event. -/
theorem DeliverySteps.tracks {cfg : DeliveryConfig} {s t : Delivery} {a : DeliveryAction}
    (hs : s.binding.Tracks ∧ 0 ≤ s.binding.lastAcknowledgedSequence)
    (h : DeliverySteps cfg s a t) :
    t.binding.Tracks ∧ 0 ≤ t.binding.lastAcknowledgedSequence := by
  obtain ⟨htracks, hnonneg⟩ := hs
  cases h with
  | append h => exact ⟨htracks, hnonneg⟩
  | opened scope =>
    refine ⟨fun session hsession => ?_, hnonneg⟩
    cases hsession
    exact hnonneg
  | loaded scope =>
    refine ⟨fun session hsession => ?_, hnonneg⟩
    cases hsession
    exact le_rfl
  | reopened scope =>
    refine ⟨fun session hsession => ?_, hnonneg⟩
    obtain ⟨held, hheld, rfl⟩ := Option.mem_map.mp hsession
    exact htracks held hheld
  | closed => exact ⟨(fun _ hsession => nomatch hsession), hnonneg⟩
  | pass h =>
    rename_i log log' b rounds
    have hpass := EventBinding.deliverEventBatches_tracks cfg rounds
      b.lastAcknowledgedSequence htracks
    exact ⟨hpass.1, hnonneg.trans hpass.2⟩

def Delivery.start (log : EventLog) (mediaSessionId : String) : Delivery :=
  ⟨log, { mediaSessionId := mediaSessionId }⟩

theorem Delivery.tracks_of_run {cfg : DeliveryConfig} {log : EventLog} {mediaSessionId : String}
    {actions : List DeliveryAction} {s : Delivery}
    (h : Run (DeliverySteps cfg) (.start log mediaSessionId) actions s) : s.binding.Tracks :=
  (h.invariant (I := fun s => s.binding.Tracks ∧ 0 ≤ s.binding.lastAcknowledgedSequence)
    (fun _ _ _ hs hstep => hstep.tracks hs)
    ⟨(fun _ hsession => nomatch hsession), le_rfl⟩).1

theorem DeliverySteps.advances {cfg : DeliveryConfig} {s t : Delivery} {r : Round}
    {rounds : List Round} (htracks : s.binding.Tracks)
    (hpass : DeliverySteps cfg s (.pass (r :: rounds)) t) (hready : r.ready = true)
    (hsession : s.binding.session.isSome = true) (hack : r.Acknowledges)
    (hpending : ∃ e ∈ r.log.events, s.binding.lastAcknowledgedSequence < e.sequence) :
    s.binding.lastAcknowledgedSequence < t.binding.lastAcknowledgedSequence ↔
      s.binding.FirstBatchFits cfg r := by
  obtain ⟨e, he, hlater⟩ := hpending
  cases hpass with
  | pass h =>
    have hnil := EventLog.listEventsAfter_ne_nil cfg.batchSize_pos he hlater
    exact EventBinding.deliverEventBatches_advances htracks hready hsession hack hnil

/-- In every run, a pass that begins with an event to deliver, to a plugin that is ready and
acknowledges what it receives, moves the acknowledged sequence on exactly where its first events, if
any, can be sent as one message. -/
theorem delivery_advances {cfg : DeliveryConfig} {log : EventLog} {mediaSessionId : String}
    {actions : List DeliveryAction} {s t : Delivery} {r : Round} {rounds : List Round}
    (hrun : Run (DeliverySteps cfg) (.start log mediaSessionId) actions s)
    (hpass : DeliverySteps cfg s (.pass (r :: rounds)) t) (hready : r.ready = true)
    (hsession : s.binding.session.isSome = true) (hack : r.Acknowledges)
    (hpending : ∃ e ∈ r.log.events, e.eventType ∈ cfg.subscriptions ∧
      s.binding.lastAcknowledgedSequence < e.sequence) :
    s.binding.lastAcknowledgedSequence < t.binding.lastAcknowledgedSequence ↔
      s.binding.FirstBatchFits cfg r := by
  obtain ⟨e, he, -, hlater⟩ := hpending
  exact hpass.advances (Delivery.tracks_of_run hrun) hready hsession hack ⟨e, he, hlater⟩

def textPayload (text : String) : JsonDict where
  entries := [("text", .str text)]
  unique := .obj (by simp) (by simpa using JsonValue.Unique.str text)

def captionFields (n : Fin 5) (text : String) : EventFields where
  eventId := "event-" ++ toString n.val
  sessionId := "media"
  sequence := n.val + 1
  eventType := "transcript.final"
  finality := .final
  source := "host.transcription"
  payload := textPayload text
  createdAt := "2026-01-01T00:00:00Z"

theorem captionFields_valid (n : Fin 5) {text : String}
    (h : byteLength (dumps (.obj (textPayload text).entries)) ≤ maxEventPayloadBytes) :
    (captionFields n text).Valid where
  eventId := (by decide : ∀ n : Fin 5, 1 ≤ ("event-" ++ toString n.val).length ∧
    ("event-" ++ toString n.val).length ≤ 128) n
  sessionId := show 1 ≤ "media".length ∧ "media".length ≤ 128 by decide
  sequence := by simp [captionFields]
  eventType := show 3 ≤ "transcript.final".length ∧ "transcript.final".length ≤ 96 ∧
    isDottedName "transcript.final" = true by decide
  family := show String.ofList ("transcript.final".toList.takeWhile (· ≠ '.')) ∈
    mediaEventFamilies by decide
  mediaTimeMs := by simp [captionFields]
  durationMs := by simp [captionFields]
  logicalId := by simp [captionFields]
  revision := by simp [captionFields]
  revised := by simp [captionFields]
  source := show 3 ≤ "host.transcription".length ∧ "host.transcription".length ≤ 96 ∧
    isDotted ['_', '-'] "host.transcription" = true by decide
  payload := ⟨by simp [captionFields, textPayload, JsonValue.nesting, JsonValue.nestingEntries,
    maxEventPayloadDepth], h⟩
  public_keys := by
    have hkey : (normalizedKey "text" ∈ sensitiveKeys) = False := by decide
    simp [captionFields, textPayload, hasKey, entriesHaveKey, hkey]

/-- A text of one letter over and over, and what it takes in a payload. -/
def longText (n : ℕ) : String := String.ofList (List.replicate n 'a')

theorem byteLength_longText (n : ℕ) :
    byteLength (dumps (.obj (textPayload (longText n)).entries)) = n + 11 := by
  have hkey : byteLength (writeString "text") = 6 := by decide
  have hletter : escapeChar 'a' = ['a'] := by decide
  have ha : 'a'.utf8Size = 1 := rfl
  have htext : byteLength (writeString (longText n)) = n + 2 := by
    simp only [writeString, longText, String.toList_ofList, List.flatMap_replicate, hletter,
      List.flatten_replicate_singleton, byteLength_cons, byteLength_append, byteLength_replicate,
      byteLength_nil, ha]
    have hquote : '"'.utf8Size = 1 := rfl
    omega
  simp only [textPayload, dumps, dumpsEntries, dumpsMoreEntries, byteLength_cons,
    byteLength_append, byteLength_nil, hkey, htext]
  have hopen : '\x7b'.utf8Size = 1 := rfl
  have hclose : '\x7d'.utf8Size = 1 := rfl
  have hcolon : ':'.utf8Size = 1 := rfl
  omega

theorem defaultBatch_pos : 0 < 100 := by decide

def captionConfig : DeliveryConfig where
  batchSize_pos := defaultBatch_pos
  subscriptions := ["transcript.final"]

def captionEvent (text : String)
    (h : byteLength (dumps (.obj (textPayload text).entries)) ≤ maxEventPayloadBytes) (n : Fin 5) :
    MediaEvent :=
  ⟨captionFields n text, captionFields_valid n h⟩

/-- Five captions of a text. -/
def captionLog (text : String)
    (h : byteLength (dumps (.obj (textPayload text).entries)) ≤ maxEventPayloadBytes) :
    EventLog where
  events := (List.finRange 5).map (captionEvent text h)
  increasing := by
    rw [List.pairwise_map]
    apply (List.pairwise_lt_finRange 5).imp
    intro n m hlt
    have hvalue : n.val < m.val := hlt
    simp only [captionEvent, captionFields]
    omega

def acknowledgingRound (log : EventLog) : Round where
  log := log
  ready := true
  requestId := 1
  respond events := .result (.obj [("acknowledged_sequence",
    .int ((events.map fun e => e.sequence).max?.getD 0))])

theorem acknowledgingRound_acknowledges (log : EventLog) :
    (acknowledgingRound log).Acknowledges := by
  intro events maximum hmaximum
  simp only [acknowledgingRound, Option.mem_def.mp hmaximum, Option.getD_some]

theorem longText_fits :
    byteLength (dumps (.obj (textPayload (longText 65000)).entries)) ≤ maxEventPayloadBytes := by
  rw [byteLength_longText]
  decide

def openedDelivery (log : EventLog) : Delivery :=
  ⟨log, { mediaSessionId := "media", session := some ⟨"scope", 0⟩ }⟩

theorem openedDelivery_reached (log : EventLog) :
    Run (DeliverySteps captionConfig) (.start log "media") [.opened "scope"]
      (openedDelivery log) :=
  .single (.opened "scope")

theorem openedDelivery_pass (log : EventLog) :
    DeliverySteps captionConfig (openedDelivery log) (.pass [acknowledgingRound log])
      ⟨log, ((openedDelivery log).binding.deliverEventBatches captionConfig
        [acknowledgingRound log] (openedDelivery log).binding.lastAcknowledgedSequence).1⟩ :=
  .pass ⟨List.prefix_rfl, List.prefix_rfl⟩

theorem shortCaptions_advance :
    ∃ t, DeliverySteps captionConfig (openedDelivery (captionLog "Hello" (by decide)))
        (.pass [acknowledgingRound (captionLog "Hello" (by decide))]) t ∧
      0 < t.binding.lastAcknowledgedSequence := by
  refine ⟨_, openedDelivery_pass _, ?_⟩
  apply (delivery_advances (openedDelivery_reached _) (openedDelivery_pass _) rfl rfl
    (acknowledgingRound_acknowledges _) ⟨captionEvent "Hello" (by decide) 0, ?_, ?_, ?_⟩).mpr
  · right
    intro session hsession
    cases hsession
    exact ⟨by decide, by decide, by decide +kernel⟩
  · exact List.mem_map_of_mem (List.mem_finRange 0)
  · decide
  · decide

/-- Five captions of a length that is allowed. -/
def longCaptions : EventLog := captionLog (longText 65000) longText_fits

theorem longCaptions_not_fits :
    ¬ (openedDelivery longCaptions).binding.FirstBatchFits captionConfig
      (acknowledgingRound longCaptions) := by
  have hfirst : (openedDelivery longCaptions).binding.firstBatch captionConfig
      (acknowledgingRound longCaptions) = longCaptions.events := rfl
  have hsum : (longCaptions.events.map fun e =>
      byteLength (dumps (.obj e.payload.entries))).sum = 5 * 65011 := by
    simp only [longCaptions, captionLog, List.map_map, Function.comp_def, captionEvent,
      captionFields, byteLength_longText]
    rfl
  rintro (hnil | hfits)
  · rw [hfirst] at hnil
    simp [longCaptions, captionLog] at hnil
  · have hbytes := (hfits _ rfl).2.2
    rw [hfirst] at hbytes
    have hlimit := (payloads_le_batchMessage _ _ _ longCaptions.events).trans_lt hbytes
    rw [hsum] at hlimit
    exact absurd hlimit (by decide)

theorem longCaptions_pending :
    ∃ e ∈ longCaptions.events, e.eventType ∈ captionConfig.subscriptions ∧ 0 < e.sequence :=
  ⟨_, List.mem_map_of_mem (List.mem_finRange 0), by simp [captionEvent, captionFields,
    captionConfig], by simp [captionEvent, captionFields]⟩

/-- They are never delivered. -/
theorem longCaptions_stuck :
    ∃ t, Run (DeliverySteps captionConfig) (.start longCaptions "media") [.opened "scope"]
        (openedDelivery longCaptions) ∧
      DeliverySteps captionConfig (openedDelivery longCaptions)
        (.pass [acknowledgingRound longCaptions]) t ∧
      (acknowledgingRound longCaptions).ready = true ∧
      (acknowledgingRound longCaptions).Acknowledges ∧
      (∃ e ∈ longCaptions.events, e.eventType ∈ captionConfig.subscriptions ∧ 0 < e.sequence) ∧
      ¬ (openedDelivery longCaptions).binding.lastAcknowledgedSequence <
        t.binding.lastAcknowledgedSequence := by
  have htracks := Delivery.tracks_of_run (openedDelivery_reached longCaptions)
  obtain ⟨e, he, -, hpositive⟩ := longCaptions_pending
  refine ⟨_, openedDelivery_reached longCaptions, openedDelivery_pass longCaptions, rfl,
    acknowledgingRound_acknowledges longCaptions, longCaptions_pending, ?_⟩
  rw [(openedDelivery_pass longCaptions).advances htracks rfl rfl
    (acknowledgingRound_acknowledges longCaptions) ⟨e, he, hpositive⟩]
  exact longCaptions_not_fits

end Plugins
end Matinier
