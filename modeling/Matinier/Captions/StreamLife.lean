import Matinier.Captions.AudioDelivery
import Matinier.Captions.CaptionStream

/-!
# A caption stream does not die silently

Where no handler raises and the iterator does not end while audio is taken, every event is still
looked at and every Final is stored. `send_frame` does not see what happens to the task of the
events, so a stream whose handler raised goes on taking audio.
-/

namespace Matinier
namespace Captions

/-- The event is a Final of the segment with that text. -/
structure ProviderEvent.IsFinalOf (event : ProviderEvent) (segmentId text : String) : Prop where
  final : event.eventType = .finalResult
  segment : event.segmentId = some segmentId
  content : event.text = some text
  notBlank : notBlank text = true

/-- The event is a result whose text is not blank. -/
def ProviderEvent.Spoken (event : ProviderEvent) : Prop :=
  event.IsResult ∧ ∃ text ∈ event.text, notBlank text = true

theorem ProviderEvent.IsFinalOf.spoken {event : ProviderEvent} {segmentId text : String}
    (h : event.IsFinalOf segmentId text) : event.Spoken :=
  ⟨.inr h.final, text, h.content, h.notBlank⟩

/-- A Final that was not delivered before. -/
structure NewFinal (before : List ProviderEvent) (event : ProviderEvent)
    (segmentId text : String) : Prop where
  final : event.IsFinalOf segmentId text
  new : ∀ earlier ∈ before, earlier.Spoken → earlier.providerEventId ≠ event.providerEventId

/-- Every Final that was given out is stored: its segment has a row, and the row has the text of
the first Final of the segment. -/
def FinalsStored (rows : String → Option SegmentRow) (yielded : List ProviderEvent) : Prop :=
  ∀ before event segmentId text, before ++ [event] <+: yielded →
    NewFinal before event segmentId text →
    ∃ row, rows segmentId = some row ∧
      ((∀ earlier ∈ before, ∀ other, ¬ earlier.IsFinalOf segmentId other) → row.text = text)

namespace Reconciler

variable {r r' : Reconciler} {event : ProviderEvent} {caption : CaptionEvent}
  {rows : String → Option SegmentRow} {yielded : List ProviderEvent} {segmentId text : String}

/-- What a reconciler remembers of the events that were given out, and what is stored of them. -/
structure Remembers (r : Reconciler) (rows : String → Option SegmentRow)
    (yielded : List ProviderEvent) : Prop where
  ids : ∀ id ∈ r.seenEventIds, ∃ p ∈ yielded, p.Spoken ∧ p.providerEventId = id
  sayings : ∀ f ∈ r.seenFingerprints, f.eventType = .finalResult → f.segmentId ∈ r.final
  finals : ∀ segmentId ∈ r.final, ∃ p ∈ yielded, ∃ text, p.IsFinalOf segmentId text
  known : ∀ before event segmentId text, before ++ [event] <+: yielded →
    NewFinal before event segmentId text → segmentId ∈ r.final
  stored : FinalsStored rows yielded
  rows : ∀ segmentId ∈ r.final, ∃ row, rows segmentId = some row

theorem Remembers.nothing (kind : SessionKind) (rows : String → Option SegmentRow) :
    Remembers { kind } rows [] where
  ids _ hid := nomatch hid
  sayings _ hf := nomatch hf
  finals _ hseg := nomatch hseg
  known before event _ _ hprefix := by simp at hprefix
  stored before event _ _ hprefix := by simp at hprefix
  rows _ hseg := nomatch hseg

theorem Remembers.keep (h : Remembers r rows yielded) (hfinal : r'.final = r.final)
    (hids : ∀ id ∈ r'.seenEventIds,
      id ∈ r.seenEventIds ∨ event.Spoken ∧ event.providerEventId = id)
    (hsayings : ∀ f ∈ r'.seenFingerprints, f ∈ r.seenFingerprints ∨
      (f.eventType = .finalResult → f.segmentId ∈ r.final))
    (hnew : ∀ segmentId text, NewFinal yielded event segmentId text → segmentId ∈ r.final) :
    Remembers r' rows (yielded ++ [event]) where
  ids id hid := by
    rcases hids id hid with hid | hid
    · obtain ⟨p, hp, hspoken⟩ := h.ids id hid
      exact ⟨p, List.mem_append_left _ hp, hspoken⟩
    · exact ⟨event, by simp, hid⟩
  sayings f hf htype := by
    rw [hfinal]
    rcases hsayings f hf with hf | hf
    · exact h.sayings f hf htype
    · exact hf htype
  finals segmentId hseg := by
    rw [hfinal] at hseg
    obtain ⟨p, hp, htext⟩ := h.finals segmentId hseg
    exact ⟨p, List.mem_append_left _ hp, htext⟩
  known before e segmentId text hprefix he := by
    rw [hfinal]
    rcases List.prefix_concat_iff.mp hprefix with heq | hprefix
    · obtain ⟨rfl, rfl⟩ := List.append_inj' heq rfl |>.imp_right fun h => (List.cons.inj h).1
      exact hnew segmentId text he
    · exact h.known before e segmentId text hprefix he
  stored before e segmentId text hprefix he := by
    rcases List.prefix_concat_iff.mp hprefix with heq | hprefix
    · obtain ⟨rfl, rfl⟩ := List.append_inj' heq rfl |>.imp_right fun h => (List.cons.inj h).1
      have hseg := hnew segmentId text he
      obtain ⟨row, hrow⟩ := h.rows segmentId hseg
      obtain ⟨p, hp, other, hother⟩ := h.finals segmentId hseg
      exact ⟨row, hrow, fun hfirst => absurd hother (hfirst p hp other)⟩
    · exact h.stored before e segmentId text hprefix he
  rows segmentId hseg := h.rows segmentId (hfinal ▸ hseg)

theorem Remembers.first (h : Remembers r rows yielded) (hevent : event.IsFinalOf segmentId text)
    (hseg : segmentId ∉ r.final) (revision : ℕ) :
    Remembers (((r.seeId event).seeSaying event segmentId text).revise event segmentId)
      (Function.update rows segmentId (some ⟨revision, text⟩)) (yielded ++ [event]) := by
  have hother : ∀ other ∈ r.final, other ≠ segmentId := fun other hmem heq => hseg (heq ▸ hmem)
  have hfinals : (((r.seeId event).seeSaying event segmentId text).revise event segmentId).final =
      segmentId :: r.final := if_pos hevent.final
  refine ⟨?_, ?_, ?_, ?_, ?_, ?_⟩
  · intro id hid
    rcases List.mem_cons.mp hid with rfl | hid
    · exact ⟨event, by simp, hevent.spoken, rfl⟩
    · obtain ⟨p, hp, hspoken⟩ := h.ids id hid
      exact ⟨p, List.mem_append_left _ hp, hspoken⟩
  · intro f hf htype
    rw [hfinals]
    rcases List.mem_cons.mp hf with rfl | hf
    · exact List.mem_cons_self
    · exact List.mem_cons_of_mem _ (h.sayings f hf htype)
  · intro other hmem
    rw [hfinals] at hmem
    rcases List.mem_cons.mp hmem with rfl | hmem
    · exact ⟨event, by simp, text, hevent⟩
    · obtain ⟨p, hp, htext⟩ := h.finals other hmem
      exact ⟨p, List.mem_append_left _ hp, htext⟩
  · intro before e other said hprefix he
    rw [hfinals]
    rcases List.prefix_concat_iff.mp hprefix with heq | hprefix
    · obtain ⟨rfl, rfl⟩ := List.append_inj' heq rfl |>.imp_right fun h => (List.cons.inj h).1
      have hsame : some other = some segmentId := he.final.segment.symm.trans hevent.segment
      rw [Option.some.inj hsame]
      exact List.mem_cons_self
    · exact List.mem_cons_of_mem _ (h.known before e other said hprefix he)
  · intro before e other said hprefix he
    rcases List.prefix_concat_iff.mp hprefix with heq | hprefix
    · obtain ⟨rfl, rfl⟩ := List.append_inj' heq rfl |>.imp_right fun h => (List.cons.inj h).1
      have hsame : some other = some segmentId := he.final.segment.symm.trans hevent.segment
      have hsaid : some said = some text := he.final.content.symm.trans hevent.content
      cases hsame
      cases hsaid
      exact ⟨⟨revision, text⟩, Function.update_self .., fun _ => rfl⟩
    · -- A row of another segment is what it was.
      have hne := hother other (h.known before e other said hprefix he)
      obtain ⟨row, hrow, htext⟩ := h.stored before e other said hprefix he
      exact ⟨row, by rw [Function.update_of_ne hne, hrow], htext⟩
  · intro other hmem
    rw [hfinals] at hmem
    rcases List.mem_cons.mp hmem with rfl | hmem
    · exact ⟨_, Function.update_self ..⟩
    · rw [Function.update_of_ne (hother other hmem)]
      exact h.rows other hmem

/-- What comes of an event that says something: nothing new, a draft, or a Final. -/
theorem consumeSaid_cases (hresult : event.IsResult) (hsegment : event.segmentId = some segmentId)
    (htext : event.text = some text) (hsaid : notBlank text = true)
    (h : Remembers r rows yielded) :
    Remembers (r.consumeSaid event segmentId text).1 rows (yielded ++ [event]) ∧
        (∀ caption ∈ (r.consumeSaid event segmentId text).2, caption.status = .draft) ∨
      segmentId ∉ r.final ∧ event.IsFinalOf segmentId text ∧
        r.consumeSaid event segmentId text =
          (((r.seeId event).seeSaying event segmentId text).revise event segmentId,
            some (r.caption event segmentId text)) := by
  have hspoken : event.Spoken := ⟨hresult, text, htext, hsaid⟩
  have hsegments : ∀ other said, NewFinal yielded event other said → other = segmentId :=
    fun other said he => Option.some.inj (he.final.segment.symm.trans hsegment)
  unfold consumeSaid
  split_ifs with hid hfingerprint hfinal
  · -- An event that was delivered before is not new.
    refine .inl ⟨h.keep rfl (fun id hmem => .inl hmem) (fun f hf => .inl hf) ?_, by simp⟩
    intro other said he
    obtain ⟨p, hp, hpspoken, hpid⟩ := h.ids _ hid
    exact absurd hpid (he.new p hp hpspoken)
  · -- A Final that was said before is the Final of its segment.
    refine .inl ⟨h.keep rfl ?_ (fun f hf => .inl hf) ?_, by simp⟩
    · intro id hmem
      rcases List.mem_cons.mp hmem with rfl | hmem
      · exact .inr ⟨hspoken, rfl⟩
      · exact .inl hmem
    · intro other said he
      rw [hsegments other said he]
      exact h.sayings _ hfingerprint he.final.final
  · refine .inl ⟨h.keep rfl ?_ ?_ ?_, by simp⟩
    · intro id hmem
      rcases List.mem_cons.mp hmem with rfl | hmem
      · exact .inr ⟨hspoken, rfl⟩
      · exact .inl hmem
    · intro f hf
      rcases List.mem_cons.mp hf with rfl | hf
      · exact .inr fun _ => hfinal
      · exact .inl hf
    · intro other said he
      rw [hsegments other said he]
      exact hfinal
  · by_cases htype : event.eventType = .finalResult
    · exact .inr ⟨hfinal, ⟨htype, hsegment, htext, hsaid⟩, rfl⟩
    · -- A draft.
      refine .inl ⟨h.keep (if_neg htype) ?_ ?_ ?_, ?_⟩
      · intro id hmem
        rcases List.mem_cons.mp hmem with rfl | hmem
        · exact .inr ⟨hspoken, rfl⟩
        · exact .inl hmem
      · intro f hf
        rcases List.mem_cons.mp hf with rfl | hf
        · exact .inr fun hfinalType => absurd hfinalType htype
        · exact .inl hf
      · intro other said he
        exact absurd he.final.final htype
      · intro caption hcaption
        cases hcaption
        exact if_neg htype

theorem consume_cases (hformed : event.IsResult →
      ∃ segmentId text, segmentId ≠ "" ∧ event.segmentId = some segmentId ∧ event.text = some text)
    (h : Remembers r rows yielded) :
    (∃ r' out, r.consume event = .ok (r', out) ∧ Remembers r' rows (yielded ++ [event]) ∧
        ∀ caption ∈ out, caption.status = .draft) ∨
      ∃ segmentId text, segmentId ∉ r.final ∧ event.IsFinalOf segmentId text ∧
        r.consume event =
          .ok (((r.seeId event).seeSaying event segmentId text).revise event segmentId,
            some (r.caption event segmentId text)) := by
  have hunspoken : ¬ event.Spoken → Remembers r rows (yielded ++ [event]) := fun hspoken =>
    h.keep rfl (fun id hmem => .inl hmem) (fun f hf => .inl hf)
      fun other said he => absurd he.final.spoken hspoken
  unfold consume
  by_cases hresult : event.IsResult
  · rw [if_neg (not_not.mpr hresult)]
    obtain ⟨segmentId, text, hne, hsegment, htext⟩ := hformed hresult
    rw [hsegment, htext]
    simp only []
    split_ifs with hsaid
    · rcases consumeSaid_cases hresult hsegment htext hsaid h with hkept | hfirst
      · exact .inl ⟨_, _, rfl, hkept⟩
      · exact .inr ⟨segmentId, text, hfirst.1, hfirst.2.1, congrArg Except.ok hfirst.2.2⟩
    · refine .inl ⟨r, none, rfl, hunspoken ?_, by simp⟩
      rintro ⟨-, said, hmem, hblank⟩
      rw [htext] at hmem
      cases hmem
      exact hsaid hblank
  · rw [if_pos hresult]
    exact .inl ⟨r, none, rfl, hunspoken fun hspoken => hresult hspoken.1, by simp⟩

end Reconciler

namespace AudioSession

variable {s t : AudioSession} {a : AudioAction}

theorem create_running {kind : SessionKind} {queueMaxChunks chunkDurationMs : ℤ}
    (h : create kind queueMaxChunks chunkDurationMs = .ok s) : s.events = .running := by
  unfold create at h
  split_ifs at h
  split at h
  · cases h
  · cases h
    rfl

/-- A call of `send_frame` touches neither of the two tasks. -/
theorem sendFrame_tasks (s : AudioSession) (pcm : Bytes) :
    (s.sendFrame pcm).1.sender = s.sender ∧ (s.sendFrame pcm).1.events = s.events := by
  rcases sendFrame_cases s pcm with ⟨heq, -⟩ | ⟨-, -, chunks, chunker, -, heq⟩
  · rw [heq]
    exact ⟨rfl, rfl⟩
  · obtain ⟨taken, refused, refusedAt, error, hall, -⟩ := enqueueAll_spec chunks { s with chunker }
    rw [heq, hall]
    exact ⟨rfl, rfl⟩

theorem awaitSender_tasks (s : AudioSession) :
    s.awaitSender.sender = s.sender ∧ s.awaitSender.events = s.events := by
  unfold awaitSender
  split <;> exact ⟨rfl, rfl⟩

theorem finishSender_tasks (s : AudioSession) :
    s.finishSender.sender = s.sender ∧ s.finishSender.events = s.events := by
  obtain ⟨state, finishPoint, finished, heq⟩ := finishSender_eq s
  rw [heq]
  exact ⟨rfl, rfl⟩

theorem finish_tasks (s : AudioSession) :
    s.finish.sender = s.sender ∧ s.finish.events = s.events := by
  by_cases hstate : s.state = .started
  · simp only [AudioSession.finish, hstate]
    unfold finishStarted
    split
    · exact finishSender_tasks s.flushed
    · split_ifs
      · exact finishSender_tasks (s.flushed.putNowait _)
      · exact ⟨rfl, rfl⟩
  · obtain ⟨error, heq⟩ := finish_of_closed hstate
    rw [heq]
    exact ⟨rfl, rfl⟩

theorem resume_tasks (hnext : s.resume = some t) : t.sender = s.sender ∧ t.events = s.events := by
  unfold AudioSession.resume at hnext
  split at hnext
  · split_ifs at hnext
    cases hnext
    exact s.awaitSender_tasks
  · split_ifs at hnext
    cases hnext
    exact s.awaitSender_tasks
  · split at hnext <;> cases hnext <;> exact ⟨rfl, rfl⟩
  · cases hnext
  · cases hnext

theorem tasks_of_next (hnext : s.next a = some t) :
    (s.sender.done = true → t.sender.done = true) ∧
      (a ≠ .eventsReturn → (∀ error, a ≠ .eventsRaise error) → t.events = s.events) := by
  have hsame : t.sender = s.sender ∧ t.events = s.events →
      (s.sender.done = true → t.sender.done = true) ∧
        (a ≠ .eventsReturn → (∀ error, a ≠ .eventsRaise error) → t.events = s.events) :=
    fun h => ⟨fun hdone => by rw [h.1, hdone], fun _ _ => h.2⟩
  cases a with
  | start | putStop | providerFinished | providerFinishRaises error =>
    simp only [AudioSession.next, Option.ite_none_right_eq_some, Option.some.injEq] at hnext
    obtain ⟨-, rfl⟩ := hnext
    exact hsame ⟨rfl, rfl⟩
  | sendFrame pcm =>
    cases hnext
    exact hsame (s.sendFrame_tasks pcm)
  | finish =>
    cases hnext
    exact hsame s.finish_tasks
  | resume => exact hsame (resume_tasks hnext)
  | take =>
    simp only [AudioSession.next, Option.ite_none_left_eq_some] at hnext
    obtain ⟨hwaiting, queue, sender, received, rfl⟩ := take_eq_some hnext.2
    refine ⟨fun hdone => ?_, fun _ _ => rfl⟩
    rw [hwaiting] at hdone
    cases hdone
  | sent | sendRaises error =>
    simp only [AudioSession.next, Option.ite_none_right_eq_some, Option.some.injEq] at hnext
    obtain ⟨hsending, rfl⟩ := hnext
    refine ⟨fun hdone => ?_, fun _ _ => rfl⟩
    rw [hsending] at hdone
    cases hdone
  | eventsReturn =>
    simp only [AudioSession.next, Option.ite_none_right_eq_some, Option.some.injEq] at hnext
    obtain ⟨-, rfl⟩ := hnext
    exact ⟨id, fun h => absurd rfl h⟩
  | eventsRaise error =>
    simp only [AudioSession.next, Option.ite_none_right_eq_some, Option.some.injEq] at hnext
    obtain ⟨-, rfl⟩ := hnext
    exact ⟨id, fun _ h => absurd rfl (h error)⟩

/-- Audio may still be taken: neither was the session finished nor has its sender stopped. -/
def Open (s : AudioSession) : Prop :=
  (s.state = .idle ∨ s.state = .started) ∧ s.sender.done = false

instance : Decidable s.Open := inferInstanceAs (Decidable (_ ∧ _))

theorem Open.of_next (hopen : t.Open) (hnext : s.next a = some t) : s.Open := by
  refine ⟨open_of_next hnext hopen.1, ?_⟩
  by_contra hdone
  have hover := (tasks_of_next hnext).1 (by simpa using hdone)
  rw [hopen.2] at hover
  cases hover

theorem sendFrame_of_not_open (h : ¬ s.Open) (pcm : Bytes) : (s.sendFrame pcm).2 ≠ none := by
  rcases sendFrame_cases s pcm with ⟨-, hraises⟩ | ⟨hstate, halive, -⟩
  · exact hraises
  · exact absurd ⟨.inr hstate, halive⟩ h

end AudioSession

namespace CaptionStream

variable {w t : CaptionStream} {a : StreamAction} {event : ProviderEvent}
  {persist : Option AudioError} {nowMs : ℚ}

/-- An event whose handler stores it without raising. -/
structure Fine (w : CaptionStream) (event : ProviderEvent) (persist : Option AudioError) :
    Prop where
  noError : event.eventType ≠ .streamError
  persists : persist = none
  formed : event.IsResult →
    ∃ segmentId text, segmentId ≠ "" ∧ event.segmentId = some segmentId ∧ event.text = some text
  /-- No later revision of the segment is stored from an earlier stream. -/
  newest : ∀ segmentId text, event.IsFinalOf segmentId text → segmentId ∉ w.reconciler.final →
    ∀ row, w.rows segmentId = some row → row.revision ≤ w.reconciler.lastRevision segmentId

/-- While audio may be taken, no handler raises, the stream does not fail and the iterator does
not end. -/
def Lively (w : CaptionStream) : StreamAction → Prop
  | .audio _ | .published => True
  | .event event persist _ => w.session.Open → w.Fine event persist
  | .publishRaises _ | .iteratorEnds | .iteratorRaises _ => ¬ w.session.Open

/-- The consumer waits for the next event, or for a publication of the last one. -/
structure Alive (w : CaptionStream) : Prop where
  events : w.session.events = .running
  terminal : w.terminal = false
  handling : w.handling = none ∨ w.handling = some .last
  remembers : w.reconciler.Remembers w.rows w.yielded

theorem upsertFinal_newest {caption : CaptionEvent}
    (h : ∀ row, w.rows caption.segmentId = some row → row.revision < caption.revision) :
    w.upsertFinal caption = { w with
      rows := Function.update w.rows caption.segmentId
        (some ⟨caption.revision, caption.text⟩) } := by
  unfold upsertFinal
  split
  · rename_i row hrow
    exact if_neg (Nat.not_le.mpr (h row hrow))
  · rfl

theorem publishDraft_eq (w : CaptionStream) (nowMs : ℚ) (segmentId : String) :
    ∃ lastDraftPublishAtMs handling, (handling = w.handling ∨ handling = some .last) ∧
      w.publishDraft nowMs segmentId = { w with lastDraftPublishAtMs, handling } := by
  unfold publishDraft
  split_ifs
  · exact ⟨_, _, .inr rfl, rfl⟩
  · exact ⟨_, _, .inl rfl, rfl⟩

theorem Alive.handleResult (h : Alive w) (hlistening : w.handling = none)
    (hfine : w.Fine event persist) :
    Alive (handleResult { w with yielded := w.yielded ++ [event] } event persist nowMs) := by
  unfold CaptionStream.handleResult
  rcases Reconciler.consume_cases hfine.formed h.remembers with
    ⟨reconciler, out, hconsume, hremembers, hdraft⟩ | ⟨segmentId, text, hseg, hfinal, hconsume⟩
  · simp only [hconsume]
    cases out with
    | none => exact ⟨h.events, h.terminal, h.handling, hremembers⟩
    | some caption =>
      simp only [hdraft caption rfl]
      obtain ⟨_, handling, hhandling, heq⟩ := publishDraft_eq
        { w with yielded := w.yielded ++ [event], reconciler } nowMs caption.segmentId
      rw [heq]
      refine ⟨h.events, h.terminal, ?_, hremembers⟩
      rcases hhandling with hhandling | hhandling
      · exact .inl (hhandling.trans hlistening)
      · exact .inr hhandling
  · have hstatus : (w.reconciler.caption event segmentId text).status = .final :=
      if_pos hfinal.final
    simp only [hconsume, hstatus, hfine.persists, written]
    rw [upsertFinal_newest fun row hrow =>
      Nat.lt_succ_of_le (hfine.newest segmentId text hfinal hseg row hrow)]
    exact ⟨h.events, h.terminal, .inr rfl, h.remembers.first hfinal hseg _⟩

theorem Alive.takeEvent (h : Alive w) (hlistening : w.handling = none)
    (hfine : w.Fine event persist) :
    Alive ((handleEvent { w with yielded := w.yielded ++ [event] } event persist nowMs).afterEvent
      event) := by
  have hafter : ∀ u : CaptionStream, u.afterEvent event = u :=
    fun u => if_neg fun hleaves => hfine.noError hleaves.2.1
  have hhandles : ¬ ({ w with yielded := w.yielded ++ [event] } :
    CaptionStream).terminal = true := by
    simp [h.terminal]
  rw [hafter]
  unfold handleEvent
  rw [if_neg hhandles]
  cases htype : event.eventType with
  | streamStarted =>
    simp only [hfine.persists, written]
    refine ⟨h.events, h.terminal, .inr rfl, h.remembers.keep rfl (fun id hmem => .inl hmem)
      (fun f hf => .inl hf) ?_⟩
    intro segmentId text he
    rw [he.final.final] at htype
    cases htype
  | streamError => exact absurd htype hfine.noError
  | partialResult | finalResult | streamCompleted => exact h.handleResult hlistening hfine

/-- The two streams have the same audio side. -/
def SameAudio (w t : CaptionStream) : Prop :=
  t.session.state = w.session.state ∧ t.session.sender = w.session.sender

theorem SameAudio.written (w : CaptionStream) {wrote : CaptionStream} (h : SameAudio w wrote)
    (persist : Option AudioError) : SameAudio w (w.written persist wrote) := by
  cases persist with
  | none => exact h
  | some error => exact ⟨rfl, rfl⟩

theorem upsertFinal_sameAudio (w : CaptionStream) (caption : CaptionEvent) :
    SameAudio w (w.upsertFinal caption) := by
  unfold upsertFinal
  split
  · split_ifs <;> exact ⟨rfl, rfl⟩
  · exact ⟨rfl, rfl⟩

theorem handleResult_sameAudio (w : CaptionStream) (event : ProviderEvent)
    (persist : Option AudioError) (nowMs : ℚ) :
    SameAudio w (w.handleResult event persist nowMs) := by
  unfold handleResult
  split
  · exact ⟨rfl, rfl⟩
  · exact ⟨rfl, rfl⟩
  · rename_i reconciler caption _
    simp only []
    split
    · obtain ⟨_, _, -, heq⟩ := publishDraft_eq { w with reconciler } nowMs caption.segmentId
      rw [heq]
      exact ⟨rfl, rfl⟩
    · have hupsert := upsertFinal_sameAudio { w with reconciler } caption
      cases persist with
      | none => exact ⟨hupsert.1, hupsert.2⟩
      | some error => exact ⟨rfl, rfl⟩

theorem handleEvent_sameAudio (w : CaptionStream) (event : ProviderEvent)
    (persist : Option AudioError) (nowMs : ℚ) :
    SameAudio w ((w.handleEvent event persist nowMs).afterEvent event) := by
  have hafter : ∀ u, SameAudio w u → SameAudio w (u.afterEvent event) := by
    intro u hu
    unfold afterEvent
    split_ifs
    · exact hu
    · exact hu
  apply hafter
  unfold handleEvent
  split_ifs
  · exact ⟨rfl, rfl⟩
  · split
    · apply SameAudio.written
      exact ⟨rfl, rfl⟩
    · unfold handleStreamError
      split
      all_goals apply SameAudio.written
      all_goals exact ⟨rfl, rfl⟩
    · exact handleResult_sameAudio w event persist nowMs
    · exact handleResult_sameAudio w event persist nowMs
    · exact handleResult_sameAudio w event persist nowMs

theorem SameAudio.open (h : SameAudio w t) (hopen : t.session.Open) : w.session.Open := by
  unfold AudioSession.Open at *
  rwa [h.1, h.2] at hopen

theorem next_audio {b : AudioAction} (hnext : w.next (.audio b) = some t) :
    b ≠ .eventsReturn ∧ (∀ error, b ≠ .eventsRaise error) ∧
      ∃ session, w.session.next b = some session ∧ t = { w with session } := by
  cases b with
  | eventsReturn | eventsRaise error => cases hnext
  | start | sendFrame _ | finish | resume | putStop | take | sent | sendRaises _
  | providerFinished | providerFinishRaises _ =>
    simp only [CaptionStream.next, Option.map_eq_some_iff] at hnext
    obtain ⟨session, hsession, rfl⟩ := hnext
    exact ⟨by simp, by simp, session, hsession, rfl⟩

theorem Alive.next (h : w.session.Open → Alive w) (ha : w.Lively a) (hnext : w.next a = some t)
    (hopen : t.session.Open) : Alive t := by
  cases a with
  | audio b =>
    obtain ⟨hreturn, hraise, session, hsession, rfl⟩ := next_audio hnext
    have hbefore := h (AudioSession.Open.of_next hopen hsession)
    exact
      { events := ((AudioSession.tasks_of_next hsession).2 hreturn hraise).trans hbefore.events
        terminal := hbefore.terminal
        handling := hbefore.handling
        remembers := hbefore.remembers }
  | event event persist nowMs =>
    simp only [CaptionStream.next, Option.ite_none_right_eq_some, Option.some.injEq] at hnext
    obtain ⟨hlistening, rfl⟩ := hnext
    have hsame : w.session.Open :=
      (handleEvent_sameAudio { w with yielded := w.yielded ++ [event] } event persist nowMs).open
        hopen
    exact (h hsame).takeEvent hlistening.2.2 (ha hsame)
  | published =>
    simp only [CaptionStream.next, Option.ite_none_right_eq_some] at hnext
    obtain ⟨-, hnext⟩ := hnext
    unfold CaptionStream.published at hnext
    split at hnext
    · cases hnext
      have hbefore := h hopen
      exact ⟨hbefore.events, hbefore.terminal, .inl rfl, hbefore.remembers⟩
    · -- No stream has failed while audio may be taken.
      rename_i hat
      cases hnext
      rcases (h hopen).handling with hhandling | hhandling <;> rw [hat] at hhandling <;>
        cases hhandling
    · rename_i hat
      have hsame : SameAudio w t := by
        split at hnext <;> cases hnext <;> exact ⟨rfl, rfl⟩
      rcases (h (hsame.open hopen)).handling with hhandling | hhandling <;>
        rw [hat] at hhandling <;>
        cases hhandling
    · cases hnext
  | publishRaises error | iteratorRaises error =>
    simp only [CaptionStream.next, Option.ite_none_right_eq_some, Option.some.injEq] at hnext
    obtain ⟨-, rfl⟩ := hnext
    exact absurd hopen ha
  | iteratorEnds =>
    simp only [CaptionStream.next, Option.ite_none_right_eq_some, Option.some.injEq] at hnext
    obtain ⟨-, rfl⟩ := hnext
    exact absurd hopen ha

/-- The consumer is at work: it takes any event next, or a publication that is under way ends and
it goes on. -/
def Attentive (w : CaptionStream) : Prop :=
  (∀ event persist nowMs, ∃ t, w.Steps (.event event persist nowMs) t) ∨
    ∃ t, w.Steps .published t ∧ t.Listening

/-- In every run in which no handler raises, no stream fails and no iterator ends while audio may be
taken, a session that takes a frame has a consumer at work and has every Final stored. -/
theorem stream_lives {kind : SessionKind} {queueMaxChunks chunkDurationMs : ℤ}
    {session : AudioSession} {rows : String → Option SegmentRow} {as : List StreamAction}
    (hcreate : AudioSession.create kind queueMaxChunks chunkDurationMs = .ok session)
    (hrun : Run (Under Lively Steps) (create session rows) as w) :
    (w.session.events ≠ .running → ∀ pcm, (w.session.sendFrame pcm).2 ≠ none) ∧
      (w.Accepting → w.Attentive ∧ w.terminal = false ∧ FinalsStored w.rows w.yielded) := by
  have halive : w.session.Open → Alive w := by
    refine hrun.invariant (I := fun u => u.session.Open → Alive u)
      (fun u a v h hstep => Alive.next h hstep.1 hstep.2) ?_
    intro _
    exact ⟨AudioSession.create_running hcreate, rfl, .inl rfl, .nothing session.kind rows⟩
  refine ⟨?_, ?_⟩
  · intro hended
    exact AudioSession.sendFrame_of_not_open fun hopen => hended (halive hopen).events
  · intro haccepting
    have h := halive ⟨.inr haccepting.1, haccepting.2⟩
    refine ⟨?_, h.terminal, h.remembers.stored⟩
    have hbusy : w.session.state ≠ .idle := by simp [haccepting.1]
    rcases h.handling with hlistening | hpublishing
    · exact .inl fun event persist nowMs => ⟨_, if_pos ⟨hbusy, h.events, hlistening⟩⟩
    · refine .inr ⟨{ w with handling := none }, ?_, hbusy, h.events, rfl⟩
      simp [Steps, CaptionStream.next, CaptionStream.published, h.events, hpublishing]

def firstFinal : ProviderEvent where
  eventType := .finalResult
  providerEventId := "event-1"
  segmentId := some "segment-1"
  text := some "hello"

/-- What a reconciler knows once it has taken it. -/
def heardReconciler : Reconciler where
  kind := .transcription
  lastRevision := Function.update (fun _ => 0) "segment-1" 1
  final := ["segment-1"]
  seenEventIds := ["event-1"]
  seenFingerprints := [⟨.finalResult, "segment-1", "hello", none, none, none⟩]

theorem consume_firstFinal :
    Reconciler.consume { kind := .transcription } firstFinal =
      .ok (heardReconciler, some (Reconciler.caption { kind := .transcription } firstFinal
        "segment-1" "hello")) := by
  have hresult : ¬ ¬ firstFinal.IsResult := by decide
  have hsaid : notBlank "hello" = true := notBlank_of_any (by decide)
  unfold Reconciler.consume
  rw [if_neg hresult]
  exact if_pos hsaid

def freshStream : CaptionStream :=
  { create AudioSession.smallSession (fun _ => none) with
    session := { AudioSession.smallSession with state := .started } }

/-- A stream that has stored a Final and publishes it. -/
def heardStream : CaptionStream :=
  { freshStream with
    reconciler := heardReconciler
    rows := Function.update (fun _ => none) "segment-1" (some ⟨1, "hello"⟩)
    handling := some .last
    yielded := [firstFinal] }

theorem freshStream_hears : freshStream.Steps (.event firstFinal none 0) heardStream := by
  have hconsume : freshStream.reconciler.consume firstFinal = _ := consume_firstFinal
  have hhandled : handleEvent { freshStream with yielded := freshStream.yielded ++ [firstFinal] }
      firstFinal none 0 = heardStream := by
    have hevent (w : CaptionStream) (h : w.terminal = false) :
        w.handleEvent firstFinal none 0 = w.handleResult firstFinal none 0 := by
      rw [handleEvent, h]
      rfl
    rw [hevent _ rfl, handleResult]
    simp only [hconsume]
    rfl
  have hlistening : freshStream.Listening := by decide
  simp only [Steps, CaptionStream.next, if_pos hlistening, hhandled]
  rfl

theorem heardStream_lives :
    (heardStream.session.events ≠ .running → ∀ pcm, (heardStream.session.sendFrame pcm).2 ≠ none) ∧
      (heardStream.Accepting → heardStream.Attentive ∧ heardStream.terminal = false ∧
        FinalsStored heardStream.rows heardStream.yielded) := by
  have hfine : freshStream.Fine firstFinal none := by
    refine ⟨by decide, rfl, fun _ => ⟨"segment-1", "hello", by decide, rfl, rfl⟩, ?_⟩
    intro segmentId text _ _ row hrow
    cases hrow
  have hrun : Run (Under Lively Steps) (create AudioSession.smallSession fun _ => none)
      [.audio .start, .event firstFinal none 0] heardStream :=
    .more (t := freshStream) ⟨trivial, rfl⟩
      (.more ⟨fun _ => hfine, freshStream_hears⟩ (.done _))
  exact stream_lives (rfl : AudioSession.create .transcription 1 1 = .ok AudioSession.smallSession)
    hrun

/-- A stream whose last publication failed. -/
def deadStream : CaptionStream := heardStream.die (.raised "LiveKit data publication failed")

/-- The publication of a Final fails: nothing is consumed any more, and audio is taken. -/
theorem dead_stream_accepts :
    Run Steps (create AudioSession.smallSession fun _ => none)
        [.audio .start, .event firstFinal none 0,
          .publishRaises (.raised "LiveKit data publication failed")] deadStream ∧
      deadStream.session.events ≠ .running ∧
      (deadStream.session.sendFrame (List.replicate 32 0)).2 = none ∧
      ∀ event persist nowMs, ¬ ∃ t, deadStream.Steps (.event event persist nowMs) t := by
  refine ⟨.more (t := freshStream) rfl (.more freshStream_hears (.more rfl (.done _))),
    by decide, by decide +kernel, ?_⟩
  rintro event persist nowMs ⟨t, ht⟩
  cases ht

end CaptionStream
end Captions
end Matinier
