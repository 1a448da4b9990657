import Mathlib.Data.Set.Card
import Matinier.Captions.RecognitionAdapter
import Matinier.Captions.StreamLife

/-!
# The segments of a session

A session may have several provider streams, one after the other. Each has a reconciler of its
own, while the rows are those of the session: a Final of a segment that another stream has
finalised meets the row of the other.
-/

namespace Matinier
namespace Captions

structure ProviderStream where
  events : List ProviderEvent
  formed : ∀ event ∈ events, event.IsResult →
    ∃ segmentId text, segmentId ≠ "" ∧ event.segmentId = some segmentId ∧ event.text = some text
  /-- An error is the last event. -/
  failsLast : ∀ event ∈ events.dropLast, event.eventType ≠ .streamError

structure Recording where
  reconciler : Reconciler
  rows : String → Option SegmentRow
  terminal : Bool := false
  emitted : List CaptionEvent := []

namespace Recording

variable (recording : Recording)

/-- `upsert_final`: a row that is not older stays. -/
def upsertFinal (caption : CaptionEvent) : String → Option SegmentRow :=
  match recording.rows caption.segmentId with
  | some row =>
    if caption.revision ≤ row.revision then recording.rows
    else Function.update recording.rows caption.segmentId (some ⟨caption.revision, caption.text⟩)
  | none =>
    Function.update recording.rows caption.segmentId (some ⟨caption.revision, caption.text⟩)

/-- A revision is given out, and a Final is stored. -/
def accept (caption : CaptionEvent) : Recording :=
  { recording with
    rows := if caption.status = .final then recording.upsertFinal caption else recording.rows
    emitted := recording.emitted ++ [caption] }

/-- `handle_asr_event` and `handle_event`, where nothing raises behind the reconciler. -/
def handle (event : ProviderEvent) : Except AudioError Recording :=
  if recording.terminal then .ok recording
  else match event.eventType with
    | .streamStarted => .ok recording
    | .streamError => .ok { recording with terminal := true }
    | .streamCompleted | .partialResult | .finalResult => do
      let (reconciler, caption) ← recording.reconciler.consume event
      match caption with
      | none => .ok { recording with reconciler }
      | some caption => .ok ({ recording with reconciler }.accept caption)

end Recording

/-- What the streams of a session have stored, and the captions that each has given out. -/
structure Transcript where
  rows : String → Option SegmentRow := fun _ => none
  emitted : List (List CaptionEvent) := []

namespace Transcript

def record (kind : SessionKind) (transcript : Transcript) (stream : ProviderStream) :
    Except AudioError Transcript := do
  let recording ← stream.events.foldlM Recording.handle
    { reconciler := { kind }, rows := transcript.rows }
  .ok { rows := recording.rows, emitted := transcript.emitted ++ [recording.emitted] }

/-- The streams of one kind that a session has, from its first on. -/
def recordAll (kind : SessionKind) (streams : List ProviderStream) :
    Except AudioError Transcript :=
  streams.foldlM (record kind) {}

end Transcript

namespace ProviderEvent

variable (event : ProviderEvent)

/-- The text with which the event is a Final of the segment. -/
def finalText (segmentId : String) : Option String :=
  if event.eventType = .finalResult ∧ event.segmentId = some segmentId then
    event.text.filter notBlank
  else none

instance : Decidable event.Spoken :=
  inferInstanceAs (Decidable (_ ∧ ∃ text ∈ event.text, notBlank text = true))

/-- An event that says something had its identifier. -/
def DeliveredIn (before : List ProviderEvent) : Prop :=
  ∃ earlier ∈ before, earlier.Spoken ∧ earlier.providerEventId = event.providerEventId

instance (before : List ProviderEvent) : Decidable (event.DeliveredIn before) :=
  inferInstanceAs (Decidable (∃ _ ∈ _, _))

/-- The text with which the event finalises the segment, where it was not delivered before. -/
def newFinalText (segmentId : String) (before : List ProviderEvent) : Option String :=
  if event.DeliveredIn before then none else event.finalText segmentId

end ProviderEvent

/-- The text of the first new Final of a segment among the events behind others. -/
def finalised (segmentId : String) : List ProviderEvent → List ProviderEvent → Option String
  | _, [] => none
  | before, event :: events =>
    (event.newFinalText segmentId before).or (finalised segmentId (before ++ [event]) events)

def ofSegment (segmentId : String) (captions : List CaptionEvent) : List CaptionEvent :=
  captions.filter fun caption => caption.segmentId = segmentId

/-- The captions of a segment have the revisions 1, 2, 3 and so on, and only the last of them may
be a Final. -/
structure InOrder (captions : List CaptionEvent) (segmentId : String) : Prop where
  revisions : (ofSegment segmentId captions).map (·.revision) =
    List.range' 1 (ofSegment segmentId captions).length
  finalLast : ∀ caption ∈ (ofSegment segmentId captions).dropLast, caption.status = .draft

/-- The text of what a stream finalises as a segment: an utterance is a place among the streams
and a segment. -/
def utterance (streams : List ProviderStream) (u : ℕ × String) : Option String :=
  streams[u.1]?.bind fun stream => finalised u.2 [] stream.events

/-- Every stream gives its captions out in order, and every utterance has a row of its own with
its text. -/
def EveryFinalKept (kind : SessionKind) (streams : List ProviderStream) : Prop :=
  ∃ transcript, Transcript.recordAll kind streams = .ok transcript ∧
    transcript.emitted.length = streams.length ∧
    (∀ captions ∈ transcript.emitted, ∀ segmentId, InOrder captions segmentId) ∧
    ∃ place : ℕ × String → String, Set.InjOn place {u | (utterance streams u).isSome} ∧
      ∀ u text, utterance streams u = some text →
        (transcript.rows (place u)).map (·.text) = some text

/-- No segment is finalised in two of the streams. -/
def FinalisedApart (streams : List ProviderStream) : Prop :=
  ∀ i j segmentId, (utterance streams (i, segmentId)).isSome →
    (utterance streams (j, segmentId)).isSome → i = j

section Finalised

variable {segmentId text : String} {before events : List ProviderEvent} {event : ProviderEvent}

theorem finalised_concat :
    finalised segmentId before (events ++ [event]) =
      (finalised segmentId before events).or (event.newFinalText segmentId (before ++ events)) := by
  induction events generalizing before with
  | nil => simp [finalised]
  | cons first events ih =>
    simp only [List.cons_append, finalised]
    rw [ih, Option.or_assoc, List.append_assoc, List.singleton_append]

theorem finalised_of_known
    (h : (event.newFinalText segmentId events).isSome →
      (finalised segmentId [] events).isSome) :
    finalised segmentId [] (events ++ [event]) = finalised segmentId [] events := by
  rw [finalised_concat, List.nil_append]
  cases hnew : event.newFinalText segmentId events with
  | none => simp
  | some text =>
    obtain ⟨known, hknown⟩ := Option.isSome_iff_exists.mp (h (by simp [hnew]))
    simp [hknown]

theorem finalText_eq_some :
    event.finalText segmentId = some text ↔ event.IsFinalOf segmentId text := by
  unfold ProviderEvent.finalText
  split_ifs with h
  · rw [Option.filter_eq_some_iff]
    constructor
    · intro htext
      exact ⟨h.1, h.2, htext.1, htext.2⟩
    · intro hfinal
      exact ⟨hfinal.content, hfinal.notBlank⟩
  · refine ⟨fun hnone => (nomatch hnone), fun hfinal => ?_⟩
    exact absurd ⟨hfinal.final, hfinal.segment⟩ h

theorem newFinalText_eq_some :
    event.newFinalText segmentId before = some text ↔
      ¬ event.DeliveredIn before ∧ event.IsFinalOf segmentId text := by
  unfold ProviderEvent.newFinalText
  split_ifs with h
  · simp [h]
  · simp [h, finalText_eq_some]

theorem exists_of_finalised (h : (finalised segmentId before events).isSome) :
    ∃ event ∈ events, event.segmentId = some segmentId := by
  induction events generalizing before with
  | nil => cases h
  | cons event events ih =>
    rw [finalised, Option.isSome_or, Bool.or_eq_true] at h
    rcases h with h | h
    · obtain ⟨text, htext⟩ := Option.isSome_iff_exists.mp h
      exact ⟨event, List.mem_cons_self, (newFinalText_eq_some.mp htext).2.segment⟩
    · obtain ⟨later, hlater, hsegment⟩ := ih h
      exact ⟨later, List.mem_cons_of_mem _ hlater, hsegment⟩

end Finalised

namespace Recording

variable {recording recording' : Recording} {rows : String → Option SegmentRow}
  {events : List ProviderEvent} {event : ProviderEvent} {segmentId text : String}

/-- What a stream has stored and remembers of its events, on top of the rows it found. -/
structure Heard (rows : String → Option SegmentRow) (events : List ProviderEvent)
    (recording : Recording) : Prop where
  ids : ∀ id, id ∈ recording.reconciler.seenEventIds ↔
    ∃ p ∈ events, p.Spoken ∧ p.providerEventId = id
  sayings : ∀ f ∈ recording.reconciler.seenFingerprints, f.eventType = .finalResult →
    f.segmentId ∈ recording.reconciler.final
  finals : ∀ segmentId, segmentId ∈ recording.reconciler.final ↔
    (finalised segmentId [] events).isSome
  others : ∀ segmentId, finalised segmentId [] events = none →
    recording.rows segmentId = rows segmentId
  stored : ∀ segmentId, rows segmentId = none →
    (recording.rows segmentId).map (·.text) = finalised segmentId [] events

/-- The captions that were given out are in order, and the reconciler knows where they are. -/
structure Numbered (recording : Recording) : Prop where
  revisions : ∀ segmentId, (ofSegment segmentId recording.emitted).map (·.revision) =
    List.range' 1 (recording.reconciler.lastRevision segmentId)
  finalLast : ∀ segmentId, ∀ caption ∈ (ofSegment segmentId recording.emitted).dropLast,
    caption.status = .draft
  drafts : ∀ segmentId ∉ recording.reconciler.final,
    ∀ caption ∈ ofSegment segmentId recording.emitted, caption.status = .draft

theorem Heard.nothing (kind : SessionKind) (rows : String → Option SegmentRow) :
    Heard rows [] { reconciler := { kind }, rows } where
  ids _ := by simp
  sayings _ hf := nomatch hf
  finals _ := by simp [finalised]
  others _ _ := rfl
  stored _ hrow := by simp [hrow, finalised]

theorem Numbered.nothing (kind : SessionKind) (rows : String → Option SegmentRow) :
    Numbered { reconciler := { kind }, rows } where
  revisions _ := rfl
  finalLast _ _ hmem := nomatch hmem
  drafts _ _ _ hmem := nomatch hmem

/-- What is numbered depends on what was given out and what the reconciler keeps of the segments. -/
theorem Numbered.keep (h : Numbered recording) (hemitted : recording'.emitted = recording.emitted)
    (hrevision : recording'.reconciler.lastRevision = recording.reconciler.lastRevision)
    (hfinal : recording'.reconciler.final = recording.reconciler.final) :
    Numbered recording' where
  revisions := by
    rw [hemitted, hrevision]
    exact h.revisions
  finalLast := by
    rw [hemitted]
    exact h.finalLast
  drafts := by
    rw [hemitted, hfinal]
    exact h.drafts

theorem Numbered.inOrder (h : Numbered recording) (segmentId : String) :
    InOrder recording.emitted segmentId where
  revisions := by
    have hlength := congrArg List.length (h.revisions segmentId)
    rw [List.length_map, List.length_range'] at hlength
    rw [hlength]
    exact h.revisions segmentId
  finalLast := h.finalLast segmentId

theorem Heard.keep (h : Heard rows events recording) (hrows : recording'.rows = recording.rows)
    (hfinal : recording'.reconciler.final = recording.reconciler.final)
    (hids : ∀ id, id ∈ recording'.reconciler.seenEventIds ↔
      id ∈ recording.reconciler.seenEventIds ∨ event.Spoken ∧ event.providerEventId = id)
    (hsayings : ∀ f ∈ recording'.reconciler.seenFingerprints,
      f ∈ recording.reconciler.seenFingerprints ∨
        (f.eventType = .finalResult → f.segmentId ∈ recording.reconciler.final))
    (hnew : ∀ segmentId, (event.newFinalText segmentId events).isSome →
      segmentId ∈ recording.reconciler.final) :
    Heard rows (events ++ [event]) recording' := by
  have hfinalised : ∀ segmentId,
      finalised segmentId [] (events ++ [event]) = finalised segmentId [] events :=
    fun segmentId => finalised_of_known fun hsome => (h.finals segmentId).mp (hnew segmentId hsome)
  refine ⟨?_, ?_, ?_, ?_, ?_⟩
  · intro id
    rw [hids, h.ids]
    simp [or_and_right, exists_or]
  · intro f hf htype
    rw [hfinal]
    rcases hsayings f hf with hf | hf
    · exact h.sayings f hf htype
    · exact hf htype
  · intro segmentId
    rw [hfinal, hfinalised]
    exact h.finals segmentId
  · intro segmentId hnone
    rw [hfinalised] at hnone
    rw [hrows]
    exact h.others segmentId hnone
  · intro segmentId hrow
    rw [hfinalised, hrows]
    exact h.stored segmentId hrow

theorem upsertFinal_of_ne {caption : CaptionEvent} (hne : segmentId ≠ caption.segmentId) :
    recording.upsertFinal caption segmentId = recording.rows segmentId := by
  unfold upsertFinal
  cases recording.rows caption.segmentId with
  | some row =>
    dsimp only
    split_ifs
    · rfl
    · exact Function.update_of_ne hne ..
  | none => exact Function.update_of_ne hne ..

variable (recording) in
theorem upsertFinal_of_none (caption : CaptionEvent)
    (hrow : recording.rows caption.segmentId = none) :
    recording.upsertFinal caption caption.segmentId = some ⟨caption.revision, caption.text⟩ := by
  unfold upsertFinal
  rw [hrow]
  exact Function.update_self ..

def revised (recording : Recording) (event : ProviderEvent) (segmentId text : String) :
    Recording :=
  { recording with
    reconciler := ((recording.reconciler.seeId event).seeSaying event segmentId text).revise
      event segmentId }.accept (recording.reconciler.caption event segmentId text)

theorem revised_final : (recording.revised event segmentId text).reconciler.final =
    if event.eventType = .finalResult then segmentId :: recording.reconciler.final
    else recording.reconciler.final := rfl

theorem revised_lastRevision (other : String) :
    (recording.revised event segmentId text).reconciler.lastRevision other =
      Function.update recording.reconciler.lastRevision segmentId
        (recording.reconciler.lastRevision segmentId + 1) other := rfl

theorem revised_rows_of_final (hfinal : event.eventType = .finalResult) :
    (recording.revised event segmentId text).rows =
      recording.upsertFinal (recording.reconciler.caption event segmentId text) :=
  if_pos (if_pos hfinal)

theorem revised_rows_of_ne (hdraft : event.eventType ≠ .finalResult) :
    (recording.revised event segmentId text).rows = recording.rows := by
  apply if_neg
  show ¬ (if _ then CaptionStatus.final else .draft) = .final
  rw [if_neg hdraft]
  decide

theorem Heard.first (h : Heard rows events recording) (hevent : event.IsFinalOf segmentId text)
    (hnew : ¬ event.DeliveredIn events) (hopen : segmentId ∉ recording.reconciler.final) :
    Heard rows (events ++ [event])
      (recording.revised event segmentId text) := by
  have hfinals : (recording.revised event segmentId text).reconciler.final =
      segmentId :: recording.reconciler.final := if_pos hevent.final
  have hnone : finalised segmentId [] events = none := by
    rw [← Option.not_isSome_iff_eq_none, ← h.finals]
    exact hopen
  have hself : finalised segmentId [] (events ++ [event]) = some text := by
    rw [finalised_concat, hnone, Option.none_or]
    exact newFinalText_eq_some.mpr ⟨hnew, hevent⟩
  have hother : ∀ other, other ≠ segmentId →
      finalised other [] (events ++ [event]) = finalised other [] events := by
    intro other hne
    apply finalised_of_known
    intro hsome
    obtain ⟨said, hsaid⟩ := Option.isSome_iff_exists.mp hsome
    have hsame := (newFinalText_eq_some.mp hsaid).2.segment.symm.trans hevent.segment
    exact absurd (Option.some.inj hsame) hne
  refine ⟨?_, ?_, ?_, ?_, ?_⟩
  · intro id
    show id ∈ event.providerEventId :: recording.reconciler.seenEventIds ↔ _
    rw [List.mem_cons, h.ids]
    constructor
    · rintro (rfl | ⟨p, hp, hspoken⟩)
      · exact ⟨event, by simp, hevent.spoken, rfl⟩
      · exact ⟨p, List.mem_append_left _ hp, hspoken⟩
    · rintro ⟨p, hp, hspoken, hid⟩
      rcases List.mem_append.mp hp with hp | hp
      · exact Or.inr ⟨p, hp, hspoken, hid⟩
      · rw [List.mem_singleton.mp hp] at hid
        exact Or.inl hid.symm
  · intro f hf htype
    rw [hfinals]
    rcases List.mem_cons.mp hf with rfl | hf
    · exact List.mem_cons_self
    · exact List.mem_cons_of_mem _ (h.sayings f hf htype)
  · intro other
    rw [hfinals, List.mem_cons]
    by_cases hne : other = segmentId
    · rw [hne, hself]
      simp
    · rw [hother other hne, h.finals]
      simp [hne]
  · intro other hunsaid
    have hne : other ≠ segmentId := by
      rintro rfl
      rw [hself] at hunsaid
      cases hunsaid
    rw [hother other hne] at hunsaid
    rw [revised_rows_of_final hevent.final, upsertFinal_of_ne hne]
    exact h.others other hunsaid
  · intro other hrow
    rw [revised_rows_of_final hevent.final]
    by_cases hne : other = segmentId
    · subst hne
      rw [hself]
      have hmade := upsertFinal_of_none recording (recording.reconciler.caption event other text)
        ((h.others other hnone).trans hrow)
      exact congrArg (Option.map _) hmade
    · rw [hother other hne, upsertFinal_of_ne hne]
      exact h.stored other hrow

/-- A revision of a segment that has no Final comes behind those that it has. -/
theorem Numbered.revised (h : Numbered recording)
    (hopen : segmentId ∉ recording.reconciler.final) :
    Numbered (recording.revised event segmentId text) := by
  have hself : ofSegment segmentId (recording.revised event segmentId text).emitted =
      ofSegment segmentId recording.emitted ++
        [recording.reconciler.caption event segmentId text] := by
    simp [Recording.revised, Recording.accept, ofSegment, Reconciler.caption]
  have hother : ∀ other, other ≠ segmentId →
      ofSegment other (recording.revised event segmentId text).emitted =
        ofSegment other recording.emitted := by
    intro other hne
    simp [Recording.revised, Recording.accept, ofSegment, Reconciler.caption, hne.symm]
  refine ⟨?_, ?_, ?_⟩
  · intro other
    rw [revised_lastRevision]
    by_cases hne : other = segmentId
    · subst hne
      rw [hself, Function.update_self, List.map_append, h.revisions, List.range'_concat]
      simp [Reconciler.caption, Nat.add_comm]
    · rw [hother other hne, Function.update_of_ne hne]
      exact h.revisions other
  · intro other
    by_cases hne : other = segmentId
    · subst hne
      rw [hself, List.dropLast_concat]
      exact h.drafts other hopen
    · rw [hother other hne]
      exact h.finalLast other
  · intro other hmem
    rw [revised_final] at hmem
    by_cases hne : other = segmentId
    · subst hne
      have htype : event.eventType ≠ .finalResult := by
        intro htype
        rw [if_pos htype] at hmem
        exact hmem List.mem_cons_self
      rw [hself]
      intro caption hcaption
      rcases List.mem_append.mp hcaption with hcaption | hcaption
      · exact h.drafts other hopen caption hcaption
      · rw [List.mem_singleton.mp hcaption]
        exact if_neg htype
    · rw [hother other hne]
      apply h.drafts other
      intro hfinal
      apply hmem
      split_ifs
      · exact List.mem_cons_of_mem _ hfinal
      · exact hfinal

theorem Heard.unspoken (h : Heard rows events recording) (hevent : ¬ event.Spoken)
    (hrows : recording'.rows = recording.rows)
    (hreconciler : recording'.reconciler = recording.reconciler) :
    Heard rows (events ++ [event]) recording' := by
  apply h.keep hrows (by rw [hreconciler])
  · intro id
    rw [hreconciler]
    exact ⟨Or.inl, fun hid => hid.resolve_right fun hspoken => hevent hspoken.1⟩
  · intro f hf
    rw [hreconciler] at hf
    exact Or.inl hf
  · intro segmentId hsome
    obtain ⟨said, hsaid⟩ := Option.isSome_iff_exists.mp hsome
    exact absurd (newFinalText_eq_some.mp hsaid).2.spoken hevent

theorem consumeSaid_spec (h : Heard rows events recording) (hn : Numbered recording)
    (hresult : event.IsResult) (hsegment : event.segmentId = some segmentId)
    (htext : event.text = some text) (hsaid : notBlank text = true) :
    (∃ reconciler, recording.reconciler.consumeSaid event segmentId text = (reconciler, none) ∧
        Heard rows (events ++ [event]) { recording with reconciler } ∧
        Numbered { recording with reconciler }) ∨
      recording.reconciler.consumeSaid event segmentId text =
          (((recording.reconciler.seeId event).seeSaying event segmentId text).revise event
              segmentId,
            some (recording.reconciler.caption event segmentId text)) ∧
        Heard rows (events ++ [event]) (recording.revised event segmentId text) ∧
        Numbered (recording.revised event segmentId text) := by
  have hspoken : event.Spoken := ⟨hresult, text, htext, hsaid⟩
  have hsegments : ∀ other, (event.newFinalText other events).isSome →
      ¬ event.DeliveredIn events ∧ event.IsFinalOf segmentId text ∧ other = segmentId := by
    intro other hsome
    obtain ⟨said, hnew⟩ := Option.isSome_iff_exists.mp hsome
    obtain ⟨hfresh, hfinal⟩ := newFinalText_eq_some.mp hnew
    exact ⟨hfresh, ⟨hfinal.final, hsegment, htext, hsaid⟩,
      Option.some.inj (hfinal.segment.symm.trans hsegment)⟩
  have hids : ∀ id, id ∈ event.providerEventId :: recording.reconciler.seenEventIds ↔
      id ∈ recording.reconciler.seenEventIds ∨ event.Spoken ∧ event.providerEventId = id := by
    intro id
    rw [List.mem_cons, or_comm]
    exact or_congr_right ⟨fun heq => ⟨hspoken, heq.symm⟩, fun heq => heq.2.symm⟩
  unfold Reconciler.consumeSaid
  split_ifs with hid hfingerprint hfinal
  · -- An event that was delivered before finalises nothing.
    obtain ⟨p, hp, hpspoken, hpid⟩ := (h.ids _).mp hid
    refine Or.inl ⟨recording.reconciler, rfl, h.keep rfl rfl ?_ (fun f hf => Or.inl hf) ?_, hn⟩
    · intro id
      refine ⟨Or.inl, fun hmem => hmem.elim (fun hin => hin) ?_⟩
      rintro ⟨-, rfl⟩
      exact hid
    · intro other hsome
      exact absurd ⟨p, hp, hpspoken, hpid⟩ (hsegments other hsome).1
  · -- A Final that says what was said is of a segment that has its Final.
    refine Or.inl ⟨_, rfl, h.keep rfl rfl hids (fun f hf => Or.inl hf) ?_,
      hn.keep rfl rfl rfl⟩
    intro other hsome
    obtain ⟨-, hfinalOf, rfl⟩ := hsegments other hsome
    exact h.sayings _ hfingerprint hfinalOf.final
  · refine Or.inl ⟨_, rfl, h.keep rfl rfl hids ?_ ?_, hn.keep rfl rfl rfl⟩
    · intro f hf
      rcases List.mem_cons.mp hf with rfl | hf
      · exact Or.inr fun _ => hfinal
      · exact Or.inl hf
    · intro other hsome
      obtain ⟨-, -, rfl⟩ := hsegments other hsome
      exact hfinal
  · refine Or.inr ⟨rfl, ?_, hn.revised hfinal⟩
    by_cases htype : event.eventType = .finalResult
    · apply h.first ⟨htype, hsegment, htext, hsaid⟩ _ hfinal
      rintro ⟨p, hp, hpspoken, hpid⟩
      exact hid ((h.ids _).mpr ⟨p, hp, hpspoken, hpid⟩)
    · -- A draft.
      refine h.keep (revised_rows_of_ne htype) (if_neg htype) hids ?_ ?_
      · intro f hf
        rcases List.mem_cons.mp hf with rfl | hf
        · exact Or.inr fun hfinalType => absurd hfinalType htype
        · exact Or.inl hf
      · intro other hsome
        exact absurd (hsegments other hsome).2.1.final htype

variable (recording) in
theorem handle_of_result (hlive : recording.terminal = false) (hresult : event.IsResult)
    {reconciler : Reconciler} {caption : Option CaptionEvent}
    (hconsume : recording.reconciler.consume event = .ok (reconciler, caption)) :
    recording.handle event = .ok (match caption with
      | none => { recording with reconciler }
      | some caption => { recording with reconciler }.accept caption) := by
  unfold handle
  rw [if_neg (by rw [hlive]; exact Bool.false_ne_true)]
  rcases hresult with htype | htype
  · simp only [htype, hconsume, ok_bind]
    cases caption <;> rfl
  · simp only [htype, hconsume, ok_bind]
    cases caption <;> rfl

/-- Every event of a stream is handled, and what it finalises is stored. -/
theorem handle_spec (h : Heard rows events recording) (hn : Numbered recording)
    (hlive : recording.terminal = false) (hformed : event.IsResult →
      ∃ segmentId text, segmentId ≠ "" ∧ event.segmentId = some segmentId ∧
        event.text = some text) :
    ∃ recording', recording.handle event = .ok recording' ∧
      Heard rows (events ++ [event]) recording' ∧ Numbered recording' ∧
      (event.eventType ≠ .streamError → recording'.terminal = false) := by
  by_cases hresult : event.IsResult
  · obtain ⟨segmentId, text, hne, hsegment, htext⟩ := hformed hresult
    have hconsume : recording.reconciler.consume event =
        if notBlank text then .ok (recording.reconciler.consumeSaid event segmentId text)
        else .ok (recording.reconciler, none) := by
      unfold Reconciler.consume
      rw [if_neg (not_not.mpr hresult), hsegment, htext]
      simp only []
    split_ifs at hconsume with hsaid
    · rcases consumeSaid_spec h hn hresult hsegment htext hsaid with
        ⟨reconciler, hsame, hheard, hnumbered⟩ | ⟨hrevised, hheard, hnumbered⟩
      · rw [hsame] at hconsume
        exact ⟨_, handle_of_result recording hlive hresult hconsume, hheard, hnumbered,
          fun _ => hlive⟩
      · rw [hrevised] at hconsume
        exact ⟨_, handle_of_result recording hlive hresult hconsume, hheard, hnumbered,
          fun _ => hlive⟩
    · refine ⟨_, handle_of_result recording hlive hresult hconsume, h.unspoken ?_ rfl rfl, hn,
        fun _ => hlive⟩
      rintro ⟨-, said, hmem, hblank⟩
      rw [htext] at hmem
      cases hmem
      exact hsaid hblank
  · have hunspoken : ¬ event.Spoken := fun hspoken => hresult hspoken.1
    unfold handle
    rw [if_neg (by rw [hlive]; exact Bool.false_ne_true)]
    cases htype : event.eventType with
    | partialResult => exact absurd (Or.inl htype) hresult
    | finalResult => exact absurd (Or.inr htype) hresult
    | streamStarted => exact ⟨_, rfl, h.unspoken hunspoken rfl rfl, hn, fun _ => hlive⟩
    | streamError =>
      exact ⟨_, rfl, h.unspoken hunspoken rfl rfl, hn.keep rfl rfl rfl,
        fun hne => absurd rfl hne⟩
    | streamCompleted =>
      have hconsume : recording.reconciler.consume event = .ok (recording.reconciler, none) :=
        if_pos hresult
      rw [hconsume]
      exact ⟨_, rfl, h.unspoken hunspoken rfl rfl, hn, fun _ => hlive⟩

theorem heard_run {later : List ProviderEvent} (h : Heard rows events recording)
    (hn : Numbered recording) (hlive : recording.terminal = false)
    (hformed : ∀ event ∈ later, event.IsResult →
      ∃ segmentId text, segmentId ≠ "" ∧ event.segmentId = some segmentId ∧ event.text = some text)
    (hfails : ∀ event ∈ later.dropLast, event.eventType ≠ .streamError) :
    ∃ recording', later.foldlM handle recording = .ok recording' ∧
      Heard rows (events ++ later) recording' ∧ Numbered recording' := by
  induction later generalizing events recording with
  | nil =>
    rw [List.append_nil]
    exact ⟨recording, rfl, h, hn⟩
  | cons event later ih =>
    obtain ⟨recording', hhandled, hheard, hnumbered, hstill⟩ :=
      handle_spec h hn hlive (hformed event List.mem_cons_self)
    rw [List.foldlM_cons, hhandled, ok_bind]
    cases later with
    | nil => exact ⟨recording', rfl, hheard, hnumbered⟩
    | cons next later =>
      rw [List.dropLast_cons_cons] at hfails
      rw [List.append_cons]
      exact ih hheard hnumbered (hstill (hfails event List.mem_cons_self))
        (fun e he => hformed e (List.mem_cons_of_mem _ he))
        fun e he => hfails e (List.mem_cons_of_mem _ he)

end Recording

section Streams

variable {streams : List ProviderStream} {stream : ProviderStream}

theorem utterance_length (segmentId : String) :
    utterance streams (streams.length, segmentId) = none := by
  simp [utterance]

theorem utterance_concat (u : ℕ × String) :
    utterance (streams ++ [stream]) u =
      if u.1 = streams.length then finalised u.2 [] stream.events else utterance streams u := by
  unfold utterance
  split_ifs with hlast
  · simp [hlast]
  · by_cases hlt : u.1 < streams.length
    · rw [List.getElem?_append_left hlt]
    · have hbehind : (streams ++ [stream])[u.1]? = none := by
        simp only [List.getElem?_eq_none_iff, List.length_append, List.length_singleton]
        omega
      rw [hbehind, List.getElem?_eq_none (by omega)]

theorem FinalisedApart.concat (h : FinalisedApart (streams ++ [stream])) :
    FinalisedApart streams ∧ ∀ i segmentId, (utterance streams (i, segmentId)).isSome →
      finalised segmentId [] stream.events = none := by
  have hearlier : ∀ i segmentId, (utterance streams (i, segmentId)).isSome →
      i ≠ streams.length ∧ (utterance (streams ++ [stream]) (i, segmentId)).isSome := by
    intro i segmentId hsome
    have hne : i ≠ streams.length := by
      rintro rfl
      rw [utterance_length] at hsome
      cases hsome
    refine ⟨hne, ?_⟩
    rw [utterance_concat, if_neg hne]
    exact hsome
  constructor
  · intro i j segmentId hi hj
    exact h i j segmentId (hearlier i segmentId hi).2 (hearlier j segmentId hj).2
  · intro i segmentId hi
    by_contra hfinalised
    apply (hearlier i segmentId hi).1
    apply h i streams.length segmentId (hearlier i segmentId hi).2
    rw [utterance_concat, if_pos rfl]
    exact Option.isSome_iff_ne_none.mpr hfinalised

/-- What the streams of a session leave behind. -/
structure Transcript.Settled (streams : List ProviderStream) (transcript : Transcript) :
    Prop where
  count : transcript.emitted.length = streams.length
  ordered : ∀ captions ∈ transcript.emitted, ∀ segmentId, InOrder captions segmentId
  found : ∀ segmentId, transcript.rows segmentId ≠ none →
    ∃ i, (utterance streams (i, segmentId)).isSome
  stored : FinalisedApart streams → ∀ i segmentId text,
    utterance streams (i, segmentId) = some text →
    (transcript.rows segmentId).map (·.text) = some text

theorem Transcript.Settled.record {transcript : Transcript} (h : transcript.Settled streams)
    (kind : SessionKind) (stream : ProviderStream) :
    ∃ transcript', Transcript.record kind transcript stream = .ok transcript' ∧
      transcript'.Settled (streams ++ [stream]) := by
  obtain ⟨recording, hrun, hheard, hnumbered⟩ := Recording.heard_run (.nothing kind transcript.rows)
    (.nothing kind transcript.rows) rfl stream.formed stream.failsLast
  rw [List.nil_append] at hheard
  refine ⟨_, by rw [Transcript.record, hrun, ok_bind], ?_, ?_, ?_, ?_⟩
  · simp [h.count]
  · intro captions hcaptions
    rcases List.mem_append.mp hcaptions with hcaptions | hcaptions
    · exact h.ordered captions hcaptions
    · rw [List.mem_singleton.mp hcaptions]
      exact hnumbered.inOrder
  · intro segmentId hrow
    by_cases hfinalised : finalised segmentId [] stream.events = none
    · obtain ⟨i, hi⟩ := h.found segmentId (hheard.others segmentId hfinalised ▸ hrow)
      have hne : i ≠ streams.length := by
        rintro rfl
        rw [utterance_length] at hi
        cases hi
      exact ⟨i, by rw [utterance_concat, if_neg hne]; exact hi⟩
    · refine ⟨streams.length, ?_⟩
      rw [utterance_concat, if_pos rfl]
      exact Option.isSome_iff_ne_none.mpr hfinalised
  · intro happart i segmentId text htext
    obtain ⟨hearlier, hlast⟩ := happart.concat
    rw [utterance_concat] at htext
    split_ifs at htext with hi
    · -- No earlier stream has left a row of a segment that this one finalises.
      have hrow : transcript.rows segmentId = none := by
        by_contra hrow
        obtain ⟨j, hj⟩ := h.found segmentId hrow
        rw [hlast j segmentId hj] at htext
        cases htext
      exact (hheard.stored segmentId hrow).trans htext
    · have hnone := hlast i segmentId (by rw [htext]; rfl)
      show (recording.rows segmentId).map _ = _
      rw [hheard.others segmentId hnone]
      exact h.stored hearlier i segmentId text htext

theorem recordAll_settled (kind : SessionKind) (streams : List ProviderStream) :
    ∃ transcript, Transcript.recordAll kind streams = .ok transcript ∧
      transcript.Settled streams := by
  induction streams using List.reverseRecOn with
  | nil =>
    refine ⟨{}, rfl, rfl, ?_, ?_, ?_⟩
    · intro captions hmem
      cases hmem
    · intro segmentId hrow
      exact absurd rfl hrow
    · intro _ i segmentId text htext
      simp [utterance] at htext
  | append_singleton streams stream ih =>
    obtain ⟨transcript, hall, hsettled⟩ := ih
    obtain ⟨transcript', hrecord, hsettled'⟩ := hsettled.record kind stream
    refine ⟨transcript', ?_, hsettled'⟩
    unfold Transcript.recordAll at hall ⊢
    rw [List.foldlM_append, hall, ok_bind, List.foldlM_cons, hrecord]
    rfl

theorem finite_utterances (streams : List ProviderStream) :
    {u | (utterance streams u).isSome}.Finite := by
  induction streams using List.reverseRecOn with
  | nil => simp [utterance]
  | append_singleton streams stream ih =>
    apply (ih.union ((stream.events.filterMap (·.segmentId)).finite_toSet.image
      fun segmentId => (streams.length, segmentId))).subset
    rintro ⟨i, segmentId⟩ hu
    rw [Set.mem_ofPred_eq, utterance_concat] at hu
    split_ifs at hu with hi
    · obtain ⟨event, hevent, hsegment⟩ := exists_of_finalised hu
      exact Or.inr ⟨segmentId, List.mem_filterMap.mpr ⟨event, hevent, hsegment⟩, by rw [← hi]⟩
    · exact Or.inl hu

/-- Where an injection of a finite set goes into an image of the set, the function of the image
is injective on it. -/
theorem injOn_of_injOn_image {α β : Type} {U : Set α} {f place : α → β} (hfinite : U.Finite)
    (hplace : Set.InjOn place U) (hmaps : Set.MapsTo place U (f '' U)) : Set.InjOn f U := by
  have hle : (place '' U).ncard ≤ (f '' U).ncard :=
    Set.ncard_le_ncard (Set.image_subset_iff.mpr hmaps) (hfinite.image f)
  rw [hplace.ncard_image] at hle
  exact (Set.ncard_image_iff hfinite).mp (le_antisymm (Set.ncard_image_le hfinite) hle)

/-- The rows are those of finalised segments, so that utterances which have rows of their own have
segments of their own. -/
theorem Transcript.Settled.apart {transcript : Transcript} (h : transcript.Settled streams)
    {place : ℕ × String → String} (hplace : Set.InjOn place {u | (utterance streams u).isSome})
    (hstored : ∀ u text, utterance streams u = some text →
      (transcript.rows (place u)).map (·.text) = some text) : FinalisedApart streams := by
  have hmaps : Set.MapsTo place {u | (utterance streams u).isSome}
      (Prod.snd '' {u | (utterance streams u).isSome}) := by
    intro u hu
    obtain ⟨text, htext⟩ := Option.isSome_iff_exists.mp hu
    have hrow : transcript.rows (place u) ≠ none := by
      intro hnone
      have hsame := hstored u text htext
      rw [hnone] at hsame
      cases hsame
    obtain ⟨i, hi⟩ := h.found (place u) hrow
    exact ⟨(i, place u), hi, rfl⟩
  have hinj := injOn_of_injOn_image (finite_utterances streams) hplace hmaps
  intro i j segmentId hi hj
  exact congrArg Prod.fst (@hinj (i, segmentId) hi (j, segmentId) hj rfl)

theorem FinalisedApart.of_kept {kind : SessionKind} (h : EveryFinalKept kind streams) :
    FinalisedApart streams := by
  obtain ⟨transcript, hall, hsettled⟩ := recordAll_settled kind streams
  obtain ⟨other, hother, -, -, place, hplace, hstored⟩ := h
  obtain rfl : other = transcript := Except.ok.inj (hother.symm.trans hall)
  exact hsettled.apart hplace hstored

/-- Every Final of a session is kept if and only if no two streams finalise one segment. -/
theorem every_final_kept_iff (kind : SessionKind) (streams : List ProviderStream) :
    EveryFinalKept kind streams ↔ FinalisedApart streams := by
  constructor
  · exact FinalisedApart.of_kept
  · intro happart
    obtain ⟨transcript, hall, hsettled⟩ := recordAll_settled kind streams
    refine ⟨transcript, hall, hsettled.count, hsettled.ordered, Prod.snd, ?_, ?_⟩
    · rintro ⟨i, segmentId⟩ hi ⟨j, other⟩ hj rfl
      rw [happart i j segmentId hi hj]
    · rintro ⟨i, segmentId⟩ text htext
      exact hsettled.stored happart i segmentId text htext

end Streams

def firstSentence (taskId eventId text : String) : ProviderStream where
  events := ((RecognitionProvider.fresh taskId).handleResult 0
    { eventId := some eventId, sentenceId := some "1", text, sentenceEnd := true }).emitted.map
      Prod.snd
  formed event hevent _ := by
    rw [List.mem_singleton.mp hevent]
    exact ⟨"1", text, by decide, rfl, rfl⟩
  failsLast event hevent := nomatch hevent

theorem firstSentence_finalised (taskId eventId : String) {text : String}
    (hsaid : notBlank text = true) :
    finalised "1" [] (firstSentence taskId eventId text).events = some text := by
  show (ProviderEvent.newFinalText _ "1" []).or none = some text
  rw [Option.or_none]
  refine newFinalText_eq_some.mpr ⟨?_, rfl, rfl, rfl, hsaid⟩
  rintro ⟨earlier, hearlier, -⟩
  cases hearlier

/-- Two tasks of one session that both begin with sentence 1: one of the Finals is lost. -/
theorem restarted_numbering_loses_final :
    ¬ EveryFinalKept .transcription
      [firstSentence "task-a" "event-a" "hello", firstSentence "task-b" "event-b" "goodbye"] := by
  intro hkept
  have hhello : notBlank "hello" = true := notBlank_of_any (by decide)
  have hgoodbye : notBlank "goodbye" = true := notBlank_of_any (by decide)
  have hzero : 0 = 1 := by
    apply FinalisedApart.of_kept hkept 0 1 "1"
    · exact Option.isSome_iff_exists.mpr
        ⟨"hello", firstSentence_finalised "task-a" "event-a" hhello⟩
    · exact Option.isSome_iff_exists.mpr
        ⟨"goodbye", firstSentence_finalised "task-b" "event-b" hgoodbye⟩
  cases hzero

end Captions
end Matinier
