import Matinier.Plugins.DeliveryProgress

/-!
# No event is skipped

What the row of a binding says to be acknowledged was in batches that the plugin has acknowledged.
A window has all events from its cursor to its last one, and its cursor is not past the row.
-/

namespace Matinier
namespace Plugins

open EventBinding (deliveredThrough nextCursor)

variable {cfg : DeliveryConfig} {log log' : EventLog} {w : Window} {d d' : Deliveries}

/-- What is not behind an event of a log was there before the log grew. -/
theorem EventLog.Extends.mem_of_le (h : log.Extends log') {e e' : MediaEvent}
    (he : e ∈ log.events) (he' : e' ∈ log'.events) (hle : e'.sequence ≤ e.sequence) :
    e' ∈ log.events := by
  obtain ⟨later, hlater⟩ := h
  rw [← hlater] at he'
  rcases List.mem_append.mp he' with hold | hnew
  · exact hold
  · have hincreasing := log'.increasing
    rw [← hlater, List.pairwise_append] at hincreasing
    exact absurd (hincreasing.2.2 e he e' hnew) (not_lt.mpr hle)

/-- The window has all events of the log from its cursor to its last one. -/
structure Window.Reads (w : Window) (log : EventLog) : Prop where
  mem : ∀ e ∈ w.raw, e ∈ log.events
  increasing : w.raw.Pairwise fun e e' => e.sequence < e'.sequence
  full : ∀ e ∈ log.events, w.cursor < e.sequence → e.sequence ≤ w.lastRaw.sequence → e ∈ w.raw

theorem Window.lastRaw_mem (w : Window) : w.lastRaw ∈ w.raw := List.mem_of_getLast? w.last

theorem Window.Reads.grow (hw : w.Reads log) (h : log.Extends log') : w.Reads log' where
  mem e he := h.subset (hw.mem e he)
  increasing := hw.increasing
  full e he hcursor hle :=
    hw.full e (h.mem_of_le (hw.mem _ w.lastRaw_mem) he hle) hcursor hle

theorem EventLog.window_reads {cursor : ℤ} (h : log.window cfg cursor = some w) :
    w.Reads log ∧ w.cursor = cursor := by
  unfold window at h
  split at h
  · cases h
  · rename_i lastRaw hlast
    obtain rfl := Option.some.inj h
    refine ⟨⟨fun e he => List.mem_of_mem_filter (List.mem_of_mem_take he),
      log.listEventsAfter_increasing cursor cfg.batchSize, fun e he hcursor hle => ?_⟩, rfl⟩
    -- What is left out of a window is behind its last event.
    have hmem : e ∈ log.events.filter fun e => cursor < e.sequence :=
      List.mem_filter.mpr ⟨he, by simpa using hcursor⟩
    have hsorted : (log.events.filter fun e => cursor < e.sequence).Pairwise
        fun e e' => e.sequence < e'.sequence := log.increasing.filter _
    rw [← List.take_append_drop cfg.batchSize (log.events.filter _)] at hmem hsorted
    rcases List.mem_append.mp hmem with htake | hdrop
    · exact htake
    · exact absurd ((List.pairwise_append.mp hsorted).2.2 lastRaw (List.mem_of_getLast? hlast) e
        hdrop) (not_lt.mpr hle)

theorem Window.Reads.events_increasing (hw : w.Reads log) :
    (w.events cfg).Pairwise fun e e' => e.sequence < e'.sequence := hw.increasing.filter _

theorem Window.Reads.le_last (hw : w.Reads log) {e : MediaEvent} (he : e ∈ w.raw) :
    e.sequence ≤ w.lastRaw.sequence := by
  have hmax := max?_of_increasing (List.pairwise_map.mpr hw.increasing)
  rw [List.getLast?_map, w.last, Option.map_some, List.max?_eq_some_iff] at hmax
  exact hmax.2 _ (List.mem_map_of_mem he)

/-- What a plugin has subscribed to between two sequences was in batches that it has
acknowledged. -/
def Covers (cfg : DeliveryConfig) (log : EventLog) (answered : List (List MediaEvent × ℤ))
    (past through : ℤ) : Prop :=
  ∀ e ∈ log.events, e.eventType ∈ cfg.subscriptions → past < e.sequence → e.sequence ≤ through →
    ∃ batch ∈ answered, e ∈ batch.1 ∧ e.sequence ≤ batch.2

def Seen (log : EventLog) (sequence : ℤ) : Prop :=
  sequence ≤ 0 ∨ ∃ e ∈ log.events, sequence ≤ e.sequence

variable {answered answered' : List (List MediaEvent × ℤ)} {past through : ℤ}

theorem Seen.grow (hseen : Seen log through) (h : log.Extends log') : Seen log' through :=
  hseen.imp id fun ⟨e, he, hle⟩ => ⟨e, h.subset he, hle⟩

theorem Covers.grow (hcovers : Covers cfg log answered past through) (hseen : Seen log through)
    (h : log.Extends log') : Covers cfg log' answered past through := by
  intro e he hsubscribed hpast hthrough
  rcases hseen with hzero | ⟨last, hlast, hle⟩
  · have hpositive := e.valid.sequence
    omega
  · exact hcovers e (h.mem_of_le hlast he (hthrough.trans hle)) hsubscribed hpast hthrough

theorem Covers.more (hcovers : Covers cfg log answered past through)
    (hsubset : answered ⊆ answered') : Covers cfg log answered' past through := by
  intro e he hsubscribed hpast hthrough
  obtain ⟨batch, hbatch, hmem, hle⟩ := hcovers e he hsubscribed hpast hthrough
  exact ⟨batch, hsubset hbatch, hmem, hle⟩

theorem Covers.join {middle : ℤ} (hfirst : Covers cfg log answered past middle)
    {cursor : ℤ} (hcursor : cursor ≤ middle) (hsecond : Covers cfg log answered cursor through) :
    Covers cfg log answered past (max middle through) := by
  intro e he hsubscribed hpast hthrough
  rcases le_or_gt e.sequence middle with hle | hlt
  · exact hfirst e he hsubscribed hpast hle
  · rcases le_max_iff.mp hthrough with hle | hle
    · omega
    · exact hsecond e he hsubscribed (by omega) hle

theorem Window.Reads.covers_answered (hw : w.Reads log) (hthrough : through ≤ w.lastRaw.sequence)
    (hanswered : (w.events cfg, through) ∈ answered) :
    Covers cfg log answered w.cursor through := by
  intro e he hsubscribed hpast hle
  refine ⟨_, hanswered, ?_, hle⟩
  exact List.mem_filter.mpr ⟨hw.full e he hpast (hle.trans hthrough), by simpa using hsubscribed⟩

theorem Window.Reads.covers_passed (hw : w.Reads log) (hevents : w.events cfg = []) :
    Covers cfg log answered w.cursor w.lastRaw.sequence := by
  intro e he hsubscribed hpast hle
  have hmem : e ∈ w.events cfg :=
    List.mem_filter.mpr ⟨hw.full e he hpast hle, by simpa using hsubscribed⟩
  rw [hevents] at hmem
  cases hmem

/-- A pass reads on from what the row has, and covers what it is about to store. -/
structure DeliveryPass.Sound (cfg : DeliveryConfig) (d : Deliveries) (pass : DeliveryPass) :
    Prop where
  reads : pass.window.Reads d.log
  cursor : pass.window.cursor ≤ d.binding.lastAcknowledgedSequence
  requested : ∀ session, pass.stage = .requested session → pass.window.events cfg ∈ d.sent
  storing : ∀ through, pass.stage = .storing through →
    through ≤ pass.window.lastRaw.sequence ∧
      Covers cfg d.log d.answered pass.window.cursor through

/-- No event is skipped. -/
structure Deliveries.Sound (cfg : DeliveryConfig) (d : Deliveries) : Prop where
  ordered : d.binding.lastAcknowledgedSequence ≤ d.binding.lastDeliveredSequence
  seen : Seen d.log d.binding.lastAcknowledgedSequence
  covered : Covers cfg d.log d.answered 0 d.binding.lastAcknowledgedSequence
  passes : ∀ id, ∀ pass ∈ d.passes id, pass.Sound cfg d
  increasing : ∀ batch ∈ d.sent, batch.Pairwise fun e e' => e.sequence < e'.sequence
  answered : ∀ batch ∈ d.answered, batch.1 ∈ d.sent

/-- The log, the row and what was sent and answered only grow. -/
structure Deliveries.Grows (d d' : Deliveries) : Prop where
  log : d.log.Extends d'.log
  acknowledged : d.binding.lastAcknowledgedSequence ≤ d'.binding.lastAcknowledgedSequence
  sent : d.sent ⊆ d'.sent
  answered : d.answered ⊆ d'.answered

theorem Deliveries.Grows.refl (d : Deliveries) : d.Grows d :=
  ⟨List.prefix_rfl, le_rfl, List.Subset.refl _, List.Subset.refl _⟩

theorem Deliveries.Grows.trans {d'' : Deliveries} (h : d.Grows d') (h' : d'.Grows d'') :
    d.Grows d'' :=
  ⟨h.log.trans h'.log, h.acknowledged.trans h'.acknowledged, List.Subset.trans h.sent h'.sent,
    List.Subset.trans h.answered h'.answered⟩

theorem DeliveryPass.Sound.grow {pass : DeliveryPass} (h : pass.Sound cfg d) (hgrow : d.Grows d') :
    pass.Sound cfg d' where
  reads := h.reads.grow hgrow.log
  cursor := h.cursor.trans hgrow.acknowledged
  requested session hstage := hgrow.sent (h.requested session hstage)
  storing through hstage := by
    obtain ⟨hle, hcovers⟩ := h.storing through hstage
    have hseen : Seen d.log through := Or.inr ⟨_, h.reads.mem _ pass.window.lastRaw_mem, hle⟩
    exact ⟨hle, (hcovers.grow hseen hgrow.log).more hgrow.answered⟩

namespace Deliveries.Sound

variable {id left : ℕ}

theorem start (cfg : DeliveryConfig) (log : EventLog) (mediaSessionId : String) :
    (Deliveries.start log mediaSessionId).Sound cfg where
  ordered := le_rfl
  seen := Or.inl le_rfl
  covered e _ _ hpast hthrough := absurd hpast (not_lt.mpr hthrough)
  passes _ _ hpass := by cases hpass
  increasing _ hbatch := absurd hbatch List.not_mem_nil
  answered _ hbatch := absurd hbatch List.not_mem_nil

theorem setBinding {b : EventBinding} (h : d.Sound cfg)
    (hacknowledged : b.lastAcknowledgedSequence = d.binding.lastAcknowledgedSequence)
    (hdelivered : d.binding.lastDeliveredSequence ≤ b.lastDeliveredSequence) :
    (d.setBinding b).Sound cfg where
  ordered := by
    rw [Deliveries.setBinding, hacknowledged]
    exact h.ordered.trans hdelivered
  seen := by
    rw [Deliveries.setBinding, hacknowledged]
    exact h.seen
  covered := by
    rw [Deliveries.setBinding, hacknowledged]
    exact h.covered
  passes id pass hpass := (h.passes id pass hpass).grow
    ⟨List.prefix_rfl, hacknowledged.ge, List.Subset.refl _, List.Subset.refl _⟩
  increasing := h.increasing
  answered := h.answered

theorem setPass {pass : Option DeliveryPass} (h : d.Sound cfg)
    (hpass : ∀ p ∈ pass, p.Sound cfg d) : (d.setPass id pass).Sound cfg where
  ordered := h.ordered
  seen := h.seen
  covered := h.covered
  passes id' p hp := by
    have hgrow : d.Grows (d.setPass id pass) :=
      ⟨List.prefix_rfl, le_rfl, List.Subset.refl _, List.Subset.refl _⟩
    simp only [Deliveries.setPass, Option.mem_def, Function.update_apply] at hp
    split_ifs at hp
    · exact (hpass p hp).grow hgrow
    · exact (h.passes id' p hp).grow hgrow
  increasing := h.increasing
  answered := h.answered

theorem endPass (h : d.Sound cfg) : (d.setPass id none).Sound cfg :=
  h.setPass fun _ hp => by cases hp

theorem readWindow {cursor : ℤ} (h : d.Sound cfg)
    (hcursor : cursor ≤ d.binding.lastAcknowledgedSequence) :
    (d.readWindow cfg id left cursor).Sound cfg := by
  cases left with
  | zero => exact h.endPass
  | succ left =>
    apply h.setPass
    intro p hp
    obtain ⟨window, hwindow, rfl⟩ := Option.map_eq_some_iff.mp hp
    obtain ⟨hreads, hself⟩ := EventLog.window_reads hwindow
    exact ⟨hreads, hself.trans_le hcursor, fun _ hstage => (by cases hstage),
      fun _ hstage => (by cases hstage)⟩

theorem send (h : d.Sound cfg) (hw : w.Reads d.log) :
    Deliveries.Sound cfg { d with sent := w.events cfg :: d.sent } where
  ordered := h.ordered
  seen := h.seen
  covered := h.covered
  passes id pass hpass := (h.passes id pass hpass).grow
    ⟨List.prefix_rfl, le_rfl, List.subset_cons_self _ _, List.Subset.refl _⟩
  increasing := List.forall_mem_cons.mpr ⟨hw.events_increasing, h.increasing⟩
  answered batch hbatch := List.mem_cons_of_mem _ (h.answered batch hbatch)

theorem answer (acknowledged : ℤ) (h : d.Sound cfg) (hsent : w.events cfg ∈ d.sent) :
    Deliveries.Sound cfg { d with answered := (w.events cfg, acknowledged) :: d.answered } where
  ordered := h.ordered
  seen := h.seen
  covered := h.covered.more (List.subset_cons_self _ _)
  passes id pass hpass := (h.passes id pass hpass).grow
    ⟨List.prefix_rfl, le_rfl, List.Subset.refl _, List.subset_cons_self _ _⟩
  increasing := h.increasing
  answered := List.forall_mem_cons.mpr ⟨hsent, h.answered⟩

/-- A window is stored: the row goes on to what is acknowledged of it. -/
theorem store {acknowledged : ℤ} {b : EventBinding} (h : d.Sound cfg) (hw : w.Reads d.log)
    (hcursor : w.cursor ≤ d.binding.lastAcknowledgedSequence)
    (hlast : acknowledged ≤ w.lastRaw.sequence)
    (hcovers : Covers cfg d.log d.answered w.cursor acknowledged)
    (hstored : d.binding.acknowledgeBinding acknowledged = .ok b) :
    (d.setBinding b).Sound cfg ∧ d.Grows (d.setBinding b) ∧
      acknowledged ≤ b.lastAcknowledgedSequence := by
  have hdelivered : acknowledged ≤ d.binding.lastDeliveredSequence := by
    unfold EventBinding.acknowledgeBinding at hstored
    simp only [bind_eq_ok, ensure_eq_ok] at hstored
    exact hstored.choose_spec.1
  rw [EventBinding.acknowledgeBinding_delivered hdelivered] at hstored
  obtain rfl := Except.ok.inj hstored
  have hgrow : d.Grows (d.setBinding { d.binding with
      lastAcknowledgedSequence := max d.binding.lastAcknowledgedSequence acknowledged }) :=
    ⟨List.prefix_rfl, le_max_left _ _, List.Subset.refl _, List.Subset.refl _⟩
  refine ⟨⟨max_le h.ordered hdelivered, ?_, h.covered.join hcursor hcovers, ?_, h.increasing,
    h.answered⟩, hgrow, le_max_right _ _⟩
  · rcases max_choice d.binding.lastAcknowledgedSequence acknowledged with hold | hnew
    · simp only [Deliveries.setBinding, hold]
      exact h.seen
    · simp only [Deliveries.setBinding, hnew]
      exact Or.inr ⟨_, hw.mem _ w.lastRaw_mem, hlast⟩
  · intro id pass hpass
    exact (h.passes id pass hpass).grow hgrow

end Deliveries.Sound

theorem Deliveries.readWindow_grows (d : Deliveries) (cfg : DeliveryConfig) (id left : ℕ)
    (cursor : ℤ) : d.Grows (d.readWindow cfg id left cursor) := by
  cases left <;> exact ⟨List.prefix_rfl, le_rfl, List.Subset.refl _, List.Subset.refl _⟩

theorem EventBinding.nextCursor_eq {raw : List MediaEvent} {lastRaw : MediaEvent}
    {cursor acknowledged next : ℤ}
    (h : nextCursor cfg raw lastRaw cursor acknowledged = some next) : next = acknowledged := by
  unfold nextCursor at h
  split_ifs at h <;> exact (Option.some.inj h).symm

theorem Overlaps.sound {label : DeliveryLabel} (h : Overlaps cfg d label d') (hd : d.Sound cfg) :
    d'.Sound cfg ∧ d.Grows d' := by
  have hsame {d' : Deliveries} (hlog : d'.log = d.log)
      (hacknowledged : d'.binding.lastAcknowledgedSequence = d.binding.lastAcknowledgedSequence)
      (hsent : d'.sent = d.sent) (hanswered : d'.answered = d.answered) : d.Grows d' :=
    ⟨hlog ▸ List.prefix_rfl, hacknowledged.ge, hsent ▸ List.Subset.refl _,
      hanswered ▸ List.Subset.refl _⟩
  cases h with
  | append hgrow =>
    have hgrows : d.Grows { d with log := _ } :=
      ⟨hgrow, le_rfl, List.Subset.refl _, List.Subset.refl _⟩
    exact ⟨⟨hd.ordered, hd.seen.grow hgrow, hd.covered.grow hd.seen hgrow,
      fun id pass hpass => (hd.passes id pass hpass).grow hgrows, hd.increasing, hd.answered⟩,
      hgrows⟩
  | opened | loaded | reopened | closed => exact ⟨hd.setBinding rfl le_rfl, hsame rfl rfl rfl rfl⟩
  | begun maxBatches _ => exact ⟨hd.readWindow le_rfl, d.readWindow_grows cfg _ maxBatches _⟩
  | @advanced id left w hpass =>
    have hself := hd.passes id _ hpass
    have hacknowledged := d.binding.advanceDelivery_lastAcknowledged (w.through cfg)
    have hdelivered : d.binding.lastDeliveredSequence ≤
        (d.binding.advanceDelivery (w.through cfg)).lastDeliveredSequence := by
      unfold EventBinding.advanceDelivery
      split_ifs with hlater
      · exact hlater.le
      · exact le_rfl
    refine ⟨(hd.setBinding hacknowledged hdelivered).setPass ?_,
      hsame rfl hacknowledged rfl rfl⟩
    rintro p ⟨⟩
    exact ⟨hself.reads, hself.cursor.trans hacknowledged.ge, fun _ hstage => (by cases hstage),
      fun _ hstage => (by cases hstage)⟩
  | @requested id left w session requestId hpass hevents hsession hsend =>
    have hself := hd.passes id _ hpass
    refine ⟨(hd.send hself.reads).setPass ?_, ⟨List.prefix_rfl, le_rfl,
      List.subset_cons_self _ _, List.Subset.refl _⟩⟩
    rintro p ⟨⟩
    exact ⟨hself.reads, hself.cursor, fun _ _ => List.mem_cons_self,
      fun _ hstage => (by cases hstage)⟩
  | @answered id left w session value acknowledged maximum hpass hvalue hmaximum hrange =>
    have hself := hd.passes id _ hpass
    have hlast : acknowledged ≤ w.lastRaw.sequence := by
      obtain ⟨e, he, hmax⟩ := List.mem_map.mp (List.max?_mem hmaximum)
      rw [← hmax] at hrange
      exact hrange.2.trans (hself.reads.le_last (List.mem_of_mem_filter he))
    have hheld := hd.setBinding (b := d.binding.hold session acknowledged) rfl le_rfl
    refine ⟨(hheld.answer acknowledged (hself.requested session rfl)).setPass ?_,
      ⟨List.prefix_rfl, le_rfl, List.Subset.refl _, List.subset_cons_self _ _⟩⟩
    rintro p ⟨⟩
    refine ⟨hself.reads, hself.cursor, fun _ hstage => (by cases hstage), ?_⟩
    rintro through ⟨⟩
    exact ⟨hlast, hself.reads.covers_answered hlast List.mem_cons_self⟩
  | @passedOver id left w acknowledged b hpass hevents hheld =>
    have hself := hd.passes id _ hpass
    unfold EventBinding.acknowledgeThrough at hheld
    simp only [bind_eq_ok, require_eq_ok, ensure_eq_ok, pure_eq_ok, Prod.mk.injEq] at hheld
    obtain ⟨session, -, -, -, rfl, rfl⟩ := hheld
    have hthrough : w.through cfg = w.lastRaw.sequence := by
      have hnone : (w.raw.filter fun e => e.eventType ∈ cfg.subscriptions) = [] := hevents
      rw [Window.through, deliveredThrough, hnone]
      rfl
    refine ⟨(hd.setBinding (b := d.binding.hold session _) rfl le_rfl).setPass ?_,
      hsame rfl rfl rfl rfl⟩
    rintro p ⟨⟩
    refine ⟨hself.reads, hself.cursor, fun _ hstage => (by cases hstage), ?_⟩
    rintro through ⟨⟩
    rw [hthrough]
    exact ⟨le_rfl, hself.reads.covers_passed hevents⟩
  | @stored id left w acknowledged b hpass hstored =>
    have hself := hd.passes id _ hpass
    obtain ⟨hlast, hcovers⟩ := hself.storing _ rfl
    obtain ⟨hsound, hgrow, hle⟩ := hd.store hself.reads hself.cursor hlast hcovers hstored
    split
    · exact ⟨hsound.endPass, hgrow.log, hgrow.acknowledged, hgrow.sent, hgrow.answered⟩
    · rename_i cursor hnext
      rw [EventBinding.nextCursor_eq hnext]
      exact ⟨hsound.readWindow hle, hgrow.trans ((d.setBinding b).readWindow_grows cfg _ _ _)⟩
  | givenUp => exact ⟨hd.endPass, hsame rfl rfl rfl rfl⟩
  | crashed =>
    have hclosed := hd.setBinding (b := { d.binding with session := none }) rfl le_rfl
    exact ⟨⟨hclosed.ordered, hclosed.seen, hclosed.covered, fun _ _ hpass => (by cases hpass),
      hclosed.increasing, hclosed.answered⟩, hsame rfl rfl rfl rfl⟩

theorem Deliveries.sound_of_run {labels : List DeliveryLabel} (h : Run (Overlaps cfg) d labels d')
    (hd : d.Sound cfg) : d'.Sound cfg :=
  h.invariant (fun _ _ _ hsound hstep => (hstep.sound hsound).1) hd

theorem Deliveries.grows_of_run {labels : List DeliveryLabel} (h : Run (Overlaps cfg) d labels d')
    (hd : d.Sound cfg) : d.Grows d' :=
  h.relation (I := Deliveries.Sound cfg) Deliveries.Grows.refl Deliveries.Grows.trans
    (fun _ _ _ hsound hstep => (hstep.sound hsound).1)
    (fun _ _ _ hsound hstep => (hstep.sound hsound).2) hd

/-- However the passes overlap and wherever they end: the acknowledged sequence of the row does not
go back, and every event up to it that the plugin has subscribed to was in a batch that the plugin
has acknowledged as far as that. -/
theorem delivered_at_least_once {mediaSessionId : String} {labels labels' : List DeliveryLabel}
    (h : Run (Overlaps cfg) (.start log mediaSessionId) labels d)
    (h' : Run (Overlaps cfg) d labels' d') :
    d.binding.lastAcknowledgedSequence ≤ d'.binding.lastAcknowledgedSequence ∧
      d'.binding.lastAcknowledgedSequence ≤ d'.binding.lastDeliveredSequence ∧
      (∀ e ∈ d'.log.events, e.eventType ∈ cfg.subscriptions →
        e.sequence ≤ d'.binding.lastAcknowledgedSequence →
        ∃ batch ∈ d'.answered, batch.1 ∈ d'.sent ∧ e ∈ batch.1 ∧ e.sequence ≤ batch.2) ∧
      ∀ batch ∈ d'.sent, batch.Pairwise fun e e' => e.sequence < e'.sequence := by
  have hsound := Deliveries.sound_of_run h (.start cfg log mediaSessionId)
  have hsound' := Deliveries.sound_of_run h' hsound
  refine ⟨(Deliveries.grows_of_run h' hsound).acknowledged, hsound'.ordered, ?_,
    hsound'.increasing⟩
  intro e he hsubscribed hle
  have hpositive : 0 < e.sequence := e.valid.sequence
  obtain ⟨batch, hbatch, hmem, hthrough⟩ := hsound'.covered e he hsubscribed hpositive hle
  exact ⟨batch, hbatch, hsound'.answered batch hbatch, hmem, hthrough⟩

def captions : EventLog := captionLog "Hello" (by decide)

def captionWindow : Window where
  cursor := 0
  raw := captions.events
  lastRaw := captionEvent "Hello" (by decide) 4
  last := rfl

/-- The plugin acknowledges three of them, and the host has not stored it. -/
theorem captions_answered :
    ∃ d, Run (Overlaps captionConfig) (.start captions "media")
        [.opened "scope", .begun 0 1, .advanced 0, .requested 0 1,
          .answered 0 (.obj [("acknowledged_sequence", .int 3)])] d ∧
      d.passes 0 = some ⟨0, captionWindow, .storing 3⟩ ∧
      d.binding.lastDeliveredSequence = 5 ∧ d.binding.lastAcknowledgedSequence = 0 := by
  have hmaximum : ((captionWindow.events captionConfig).map fun e => e.sequence).max? = some 5 :=
    rfl
  have hsend : sendError (batchMessage 1 "media" "scope" (captionWindow.events captionConfig)) =
      none := (sendError_batch _ _ _ _).mpr ⟨by decide, by decide, by decide +kernel⟩
  exact ⟨_, .more (.opened "scope") <| .more (.begun 1 rfl) <|
    .more (.advanced (w := captionWindow) rfl) <|
    .more (.requested (w := captionWindow) 1 rfl (List.cons_ne_nil _ _) rfl hsend) <|
    .single (.answered (w := captionWindow) rfl rfl hmaximum ⟨by decide, by decide⟩),
    rfl, rfl, rfl⟩

theorem captions_delivered :
    ∃ d d' : Deliveries, d.binding.lastAcknowledgedSequence = 0 ∧
      d'.binding.lastAcknowledgedSequence = 3 ∧
      d.binding.lastAcknowledgedSequence ≤ d'.binding.lastAcknowledgedSequence ∧
      d'.binding.lastAcknowledgedSequence ≤ d'.binding.lastDeliveredSequence ∧
      (∀ e ∈ d'.log.events, e.eventType ∈ captionConfig.subscriptions →
        e.sequence ≤ d'.binding.lastAcknowledgedSequence →
        ∃ batch ∈ d'.answered, batch.1 ∈ d'.sent ∧ e ∈ batch.1 ∧ e.sequence ≤ batch.2) ∧
      ∀ batch ∈ d'.sent, batch.Pairwise fun e e' => e.sequence < e'.sequence := by
  obtain ⟨d, hrun, hpass, hdelivered, hacknowledged⟩ := captions_answered
  have hstored : d.binding.acknowledgeBinding 3 =
      .ok { d.binding with lastAcknowledgedSequence := 3 } := by
    rw [EventBinding.acknowledgeBinding_delivered (by rw [hdelivered]; decide), hacknowledged]
    rfl
  exact ⟨_, _, hacknowledged, rfl,
    delivered_at_least_once hrun (.single (.stored hpass hstored))⟩

end Plugins
end Matinier
