import Matinier.Captions.Reconciler

/-!
# The latest wording of a segment

What a reconciler shows against what its provider has sent. A wording counts once: what was sent
before, for the same segment and with the same times, is not shown a second time, also where the
provider has gone on to another wording in between. All histories here list the newest event
first.
-/

namespace Matinier
namespace Captions

namespace ProviderEvent

variable (event : ProviderEvent)

/-- The segment and the text of a result that says something. -/
def said : Option (String × String) :=
  match event.segmentId, event.text with
  | some segmentId, some text =>
    if event.IsResult ∧ segmentId ≠ "" ∧ notBlank text = true then some (segmentId, text) else none
  | _, _ => none

def saying (kind : SessionKind) : Option Fingerprint :=
  event.said.map fun (segmentId, text) =>
    ⟨event.eventType, segmentId, text, event.beginTimeMs, event.endTimeMs,
      kind.comparedConfidence event⟩

def PartialFor (segmentId : String) : Prop :=
  event.eventType = .partialResult ∧ event.said.map Prod.fst = some segmentId

def FinalFor (segmentId : String) : Prop :=
  event.eventType = .finalResult ∧ event.said.map Prod.fst = some segmentId

instance (segmentId : String) : Decidable (event.PartialFor segmentId) :=
  inferInstanceAs (Decidable (_ ∧ _))

instance (segmentId : String) : Decidable (event.FinalFor segmentId) :=
  inferInstanceAs (Decidable (_ ∧ _))

def SameDelivery (other : ProviderEvent) : Prop :=
  { event with receivedAtMs := 0 } = { other with receivedAtMs := 0 }

instance (other : ProviderEvent) : Decidable (event.SameDelivery other) :=
  inferInstanceAs (Decidable (_ = _))

end ProviderEvent

/-- Events with one identifier are deliveries of one event. -/
def Delivered (events : List ProviderEvent) : Prop :=
  ∀ event ∈ events, ∀ other ∈ events, event.providerEventId = other.providerEventId →
    event.SameDelivery other

instance (events : List ProviderEvent) : Decidable (Delivered events) :=
  inferInstanceAs (Decidable (∀ event ∈ events, ∀ other ∈ events, _))

section Sent

variable (kind : SessionKind) (segmentId : String)

/-- The event says what no older one says. -/
def FirstSaid (event : ProviderEvent) (older : List ProviderEvent) : Prop :=
  ∀ e ∈ older, e.saying kind ≠ event.saying kind

instance (event : ProviderEvent) (older : List ProviderEvent) :
    Decidable (FirstSaid kind event older) :=
  inferInstanceAs (Decidable (∀ e ∈ older, _))

/-- The newest Partial of a segment among those whose wording is new. -/
def lastDraft : List ProviderEvent → Option ProviderEvent
  | [] => none
  | event :: older =>
    if event.PartialFor segmentId ∧ FirstSaid kind event older then some event
    else lastDraft older

/-- The oldest Final of a segment. -/
def firstFinal : List ProviderEvent → Option ProviderEvent
  | [] => none
  | event :: older =>
    match firstFinal older with
    | some final => some final
    | none => if event.FinalFor segmentId then some event else none

end Sent

def CaptionEvent.saying (caption : CaptionEvent) : Fingerprint :=
  ⟨match caption.status with
    | .draft => .partialResult
    | .final => .finalResult,
    caption.segmentId, caption.text, caption.audioStartMs, caption.audioEndMs, caption.confidence⟩

/-- A reconciler with its active drafts, its Finals and the captions it has given out, the newest
first. The translation reconciler leaves it to its callers to keep the drafts and the Finals. -/
structure Display where
  reconciler : Reconciler
  active : String → Option CaptionEvent := fun _ => none
  final : String → Option CaptionEvent := fun _ => none
  emitted : List CaptionEvent := []

namespace Display

/-- A caption in its place: a Final takes the place of the draft. -/
def put (display : Display) (caption : CaptionEvent) : Display :=
  match caption.status with
  | .final =>
    { display with
      active := Function.update display.active caption.segmentId none
      final := Function.update display.final caption.segmentId (some caption)
      emitted := caption :: display.emitted }
  | .draft =>
    { display with
      active := Function.update display.active caption.segmentId (some caption)
      emitted := caption :: display.emitted }

/-- An event is consumed; one that is refused leaves everything as it is. -/
def consume (display : Display) (event : ProviderEvent) : Display :=
  match display.reconciler.consume event with
  | .ok (reconciler, some caption) => { display with reconciler }.put caption
  | .ok (reconciler, none) => { display with reconciler }
  | .error _ => display

def after (kind : SessionKind) : List ProviderEvent → Display
  | [] => { reconciler := { kind } }
  | event :: older => (after kind older).consume event

/-- The revisions of a segment in the order in which they were given out. -/
def revisions (display : Display) (segmentId : String) : List ℕ :=
  ((display.emitted.filter fun caption => caption.segmentId = segmentId).map
    CaptionEvent.revision).reverse

section Put

variable (display : Display) (caption : CaptionEvent)

@[simp] theorem reconciler_put : (display.put caption).reconciler = display.reconciler := by
  unfold put
  split <;> rfl

theorem active_put : (display.put caption).active =
    Function.update display.active caption.segmentId
      (if caption.status = .final then none else some caption) := by
  unfold put
  split <;> simp [*]

theorem final_put : (display.put caption).final =
    if caption.status = .final then
      Function.update display.final caption.segmentId (some caption)
    else display.final := by
  unfold put
  split <;> simp [*]

theorem emitted_put : (display.put caption).emitted = caption :: display.emitted := by
  unfold put
  split <;> rfl

theorem revisions_put (segmentId : String) : (display.put caption).revisions segmentId =
    if caption.segmentId = segmentId then display.revisions segmentId ++ [caption.revision]
    else display.revisions segmentId := by
  unfold revisions
  rw [emitted_put]
  split_ifs with h <;> simp [h]

end Put

end Display

theorem saying_of_sameDelivery {kind : SessionKind} {event other : ProviderEvent}
    (h : event.SameDelivery other) : event.saying kind = other.saying kind := by
  have hkeep : ∀ e : ProviderEvent,
      e.saying kind = ({ e with receivedAtMs := 0 } : ProviderEvent).saying kind := by
    cases kind <;> exact fun _ => rfl
  rw [hkeep event, hkeep other, h]

/-- An event that says something has the type, the segment and the text of what it says. -/
theorem said_of_saying {kind : SessionKind} {event : ProviderEvent} {f : Fingerprint}
    (h : event.saying kind = some f) :
    event.said = some (f.segmentId, f.text) ∧ f.eventType = event.eventType := by
  unfold ProviderEvent.saying at h
  cases hsaid : event.said with
  | none => simp [hsaid] at h
  | some pair =>
    rw [hsaid] at h
    cases h
    exact ⟨rfl, rfl⟩

theorem isResult_of_said {event : ProviderEvent} {pair : String × String}
    (h : event.said = some pair) : event.IsResult := by
  unfold ProviderEvent.said at h
  split at h
  · split_ifs at h with hall
    exact hall.1
  · cases h

namespace Reconciler

variable {r : Reconciler} {event : ProviderEvent} {segmentId text : String}

theorem consume_of_said (h : event.said = some (segmentId, text)) :
    r.consume event = .ok (r.consumeSaid event segmentId text) := by
  have hresult := isResult_of_said h
  unfold ProviderEvent.said at h
  split at h
  · rename_i s t hsegment htext
    split_ifs at h with hall
    cases h
    have hne : segmentId ≠ "" := hall.2.1
    unfold consume
    rw [if_neg (not_not.mpr hresult), hsegment, htext]
    simp [hall.2.2]
  · cases h

/-- An event that says nothing leaves the reconciler as it is, or is refused; of the results only
blank ones are dropped so. -/
theorem consume_of_not_said (h : event.said = none) :
    (∃ error, r.consume event = .error error) ∨
      r.consume event = .ok (r, none) ∧
        (event.IsResult → ∃ text, event.text = some text ∧ notBlank text = false) := by
  by_cases hresult : event.IsResult
  · unfold consume
    rw [if_neg (not_not.mpr hresult)]
    split
    · exact Or.inl ⟨_, rfl⟩
    · exact Or.inl ⟨_, rfl⟩
    · exact Or.inl ⟨_, rfl⟩
    · rename_i s t hne hsegment htext
      have hblank : notBlank t = false := by
        rw [Bool.eq_false_iff]
        intro hnot
        simp [ProviderEvent.said, hsegment, htext, hresult, hnot] at h
        exact hne h
      rw [hblank]
      exact Or.inr ⟨rfl, fun _ => ⟨t, htext, hblank⟩⟩
  · exact Or.inr ⟨by unfold consume; rw [if_pos hresult], fun h => absurd h hresult⟩

end Reconciler

section Steps

variable {kind : SessionKind} {segmentId : String} {event : ProviderEvent}
  {older past : List ProviderEvent}

theorem firstFinal_ne_none :
    firstFinal segmentId past ≠ none ↔ ∃ e ∈ past, e.FinalFor segmentId := by
  induction past with
  | nil => simp [firstFinal]
  | cons event older ih =>
    rw [List.exists_mem_cons_iff, ← ih, firstFinal]
    cases firstFinal segmentId older <;> simp

theorem firstFinal_cons_of_not (h : ¬ event.FinalFor segmentId) :
    firstFinal segmentId (event :: older) = firstFinal segmentId older := by
  rw [firstFinal, if_neg h]
  cases firstFinal segmentId older <;> rfl

theorem firstFinal_cons_of_final (h : firstFinal segmentId older ≠ none) :
    firstFinal segmentId (event :: older) = firstFinal segmentId older := by
  rw [firstFinal]
  cases hfinal : firstFinal segmentId older with
  | none => exact absurd hfinal h
  | some final => rfl

theorem lastDraft_cons_of_not (h : ¬ (event.PartialFor segmentId ∧ FirstSaid kind event older)) :
    lastDraft kind segmentId (event :: older) = lastDraft kind segmentId older := if_neg h

/-- A Final that says what is said already comes behind a Final of its segment. -/
theorem firstFinal_of_said {e : ProviderEvent} (he : e ∈ older)
    (hsaying : e.saying kind = event.saying kind) (hfinal : event.FinalFor segmentId) :
    firstFinal segmentId older ≠ none := by
  refine firstFinal_ne_none.mpr ⟨e, he, ?_⟩
  cases hf : event.saying kind with
  | none =>
    have hsaid : event.said = none := by simpa [ProviderEvent.saying] using hf
    have hsegment := hfinal.2
    rw [hsaid] at hsegment
    cases hsegment
  | some f =>
    obtain ⟨hsaid, htype⟩ := said_of_saying hf
    obtain ⟨hsaid', htype'⟩ := said_of_saying (hsaying.trans hf)
    exact ⟨htype'.symm.trans (htype.trans hfinal.1), by rw [hsaid', ← hsaid, hfinal.2]⟩

/-- What a reconciler and its display keep of a history. -/
structure Keeps (kind : SessionKind) (past : List ProviderEvent) (display : Display) : Prop where
  kind_eq : display.reconciler.kind = kind
  ids : ∀ id ∈ display.reconciler.seenEventIds,
    ∃ e ∈ past, e.saying kind ≠ none ∧ e.providerEventId = id
  sayings : ∀ f, f ∈ display.reconciler.seenFingerprints ↔ ∃ e ∈ past, e.saying kind = some f
  finals : ∀ segmentId, segmentId ∈ display.reconciler.final ↔ firstFinal segmentId past ≠ none
  draft : ∀ segmentId, (display.active segmentId).map CaptionEvent.saying =
    if firstFinal segmentId past = none then
      (lastDraft kind segmentId past).bind fun e => e.saying kind
    else none
  final : ∀ segmentId, (display.final segmentId).map CaptionEvent.saying =
    (firstFinal segmentId past).bind fun e => e.saying kind
  revisions : ∀ segmentId, display.revisions segmentId =
    List.range' 1 (display.reconciler.lastRevision segmentId)

theorem Keeps.initial (kind : SessionKind) : Keeps kind [] { reconciler := { kind } } where
  kind_eq := rfl
  ids := fun _ hid => by cases hid
  sayings := fun _ => by simp
  finals := fun _ => by simp [firstFinal]
  draft := fun _ => rfl
  final := fun _ => rfl
  revisions := fun _ => rfl

theorem Keeps.quiet {display : Display} (h : Keeps kind older display) {reconciler : Reconciler}
    (hkind : reconciler.kind = display.reconciler.kind)
    (hids : ∀ id ∈ reconciler.seenEventIds, id ∈ display.reconciler.seenEventIds ∨
      event.saying kind ≠ none ∧ id = event.providerEventId)
    (hsayings : ∀ f, f ∈ reconciler.seenFingerprints ↔
      f ∈ display.reconciler.seenFingerprints ∨ event.saying kind = some f)
    (hfinal : reconciler.final = display.reconciler.final)
    (hrevision : reconciler.lastRevision = display.reconciler.lastRevision)
    (hfinals : ∀ segmentId, event.FinalFor segmentId → firstFinal segmentId older ≠ none)
    (hdrafts : ∀ segmentId, event.PartialFor segmentId → firstFinal segmentId older = none →
      ¬ FirstSaid kind event older) :
    Keeps kind (event :: older) { display with reconciler } := by
  have hfirst : ∀ segmentId,
      firstFinal segmentId (event :: older) = firstFinal segmentId older := by
    intro segmentId
    by_cases hf : event.FinalFor segmentId
    · exact firstFinal_cons_of_final (hfinals segmentId hf)
    · exact firstFinal_cons_of_not hf
  refine ⟨hkind.trans h.kind_eq, ?_, ?_, ?_, ?_, ?_, ?_⟩
  · intro id hid
    rcases hids id hid with hid | ⟨hsaid, rfl⟩
    · obtain ⟨e, he, hkept⟩ := h.ids id hid
      exact ⟨e, List.mem_cons_of_mem _ he, hkept⟩
    · exact ⟨event, List.mem_cons_self, hsaid, rfl⟩
  · intro f
    rw [hsayings, h.sayings, List.exists_mem_cons_iff, or_comm]
  · intro segmentId
    rw [hfirst, ← h.finals, hfinal]
  · intro segmentId
    rw [hfirst, h.draft]
    by_cases hnone : firstFinal segmentId older = none
    · rw [if_pos hnone, if_pos hnone, lastDraft_cons_of_not]
      exact fun hnew => hdrafts segmentId hnew.1 hnone hnew.2
    · rw [if_neg hnone, if_neg hnone]
  · intro segmentId
    rw [hfirst, h.final]
  · intro segmentId
    rw [hrevision, ← h.revisions]
    rfl

theorem saying_caption {r : Reconciler} {text : String} {f : Fingerprint} (hkind : r.kind = kind)
    (hsaid : event.said = some (segmentId, text)) (hf : event.saying kind = some f) :
    (r.caption event segmentId text).saying = f := by
  unfold ProviderEvent.saying at hf
  rw [hsaid] at hf
  cases hf
  unfold CaptionEvent.saying Reconciler.caption
  rw [hkind]
  rcases isResult_of_said hsaid with htype | htype <;> simp [htype]

theorem Keeps.emitting {display : Display} (h : Keeps kind older display) {text : String}
    {f : Fingerprint} (hsaid : event.said = some (segmentId, text))
    (hf : event.saying kind = some f)
    (hnew : FirstSaid kind event older) (hopen : firstFinal segmentId older = none) :
    Keeps kind (event :: older)
      ({ display with
          reconciler := ((display.reconciler.seeId event).seeSaying event segmentId text).revise
            event segmentId }.put (display.reconciler.caption event segmentId text)) := by
  have hcaption := saying_caption h.kind_eq hsaid hf
  have hsegment : ∀ s, event.said.map Prod.fst = some s ↔ segmentId = s := by
    intro s
    rw [hsaid]
    simp
  have hfingerprint : display.reconciler.fingerprint event segmentId text = f := by
    unfold ProviderEvent.saying at hf
    rw [hsaid] at hf
    cases hf
    unfold Reconciler.fingerprint
    rw [h.kind_eq]
  have hfinalOf : ∀ s, event.FinalFor s ↔ event.eventType = .finalResult ∧ segmentId = s :=
    fun s => and_congr_right' (hsegment s)
  have hpartialOf : ∀ s, event.PartialFor s ↔ event.eventType = .partialResult ∧ segmentId = s :=
    fun s => and_congr_right' (hsegment s)
  have hopened : ∀ s, event.FinalFor s → firstFinal s older = none := by
    intro s hs
    rw [← ((hfinalOf s).mp hs).2]
    exact hopen
  have hfirst : ∀ s, firstFinal s (event :: older) =
      if event.FinalFor s then some event else firstFinal s older := by
    intro s
    split_ifs with hs
    · rw [firstFinal, hopened s hs, if_pos hs]
    · exact firstFinal_cons_of_not hs
  have hlast : ∀ s, lastDraft kind s (event :: older) =
      if event.PartialFor s then some event else lastDraft kind s older := by
    intro s
    rw [lastDraft]
    simp [hnew]
  have hstatus : (display.reconciler.caption event segmentId text).status = .final ↔
      event.eventType = .finalResult := by
    unfold Reconciler.caption
    split_ifs with htype <;> simp [htype]
  have hid : (display.reconciler.caption event segmentId text).segmentId = segmentId := rfl
  have hnumber : (display.reconciler.caption event segmentId text).revision =
      display.reconciler.lastRevision segmentId + 1 := rfl
  generalize display.reconciler.caption event segmentId text = caption at *
  refine ⟨?_, ?_, ?_, ?_, ?_, ?_, ?_⟩
  · rw [Display.reconciler_put]
    exact h.kind_eq
  · rw [Display.reconciler_put]
    intro id hid
    rcases List.mem_cons.mp hid with rfl | hid
    · exact ⟨event, List.mem_cons_self, by simp [hf], rfl⟩
    · obtain ⟨e, he, hkept⟩ := h.ids id hid
      exact ⟨e, List.mem_cons_of_mem _ he, hkept⟩
  · rw [Display.reconciler_put]
    intro g
    have hmem : g ∈ f :: display.reconciler.seenFingerprints ↔
        ∃ e ∈ event :: older, e.saying kind = some g := by
      rw [List.mem_cons, h.sayings, List.exists_mem_cons_iff, hf, Option.some_inj, eq_comm]
    rw [← hmem, ← hfingerprint]
    rfl
  · rw [Display.reconciler_put]
    intro s
    rw [hfirst]
    unfold Reconciler.revise
    dsimp only
    split_ifs with htype hs hs
    · simp [((hfinalOf s).mp hs).2]
    · rw [List.mem_cons, ← h.finals]
      have hne : s ≠ segmentId := fun heq => hs ((hfinalOf s).mpr ⟨htype, heq.symm⟩)
      simp [hne, Reconciler.seeSaying, Reconciler.seeId]
    · exact absurd ((hfinalOf s).mp hs).1 htype
    · exact h.finals s
  · intro s
    rw [Display.active_put, hfirst, hlast]
    rw [hid]
    by_cases hs : segmentId = s
    · subst hs
      rw [Function.update_self]
      rcases isResult_of_said hsaid with htype | htype
      · have hdraft : ¬ event.FinalFor segmentId := fun hfinal =>
          nomatch htype.symm.trans hfinal.1
        rw [if_neg (fun hfinal => hdraft ((hfinalOf _).mpr ⟨hstatus.mp hfinal, rfl⟩)),
          if_neg hdraft, if_pos hopen, if_pos ((hpartialOf _).mpr ⟨htype, rfl⟩)]
        simp [hcaption, hf]
      · rw [if_pos (hstatus.mpr htype), if_pos ((hfinalOf _).mpr ⟨htype, rfl⟩)]
        rfl
    · rw [Function.update_of_ne (Ne.symm hs), if_neg (fun hfinal => hs ((hfinalOf s).mp hfinal).2),
        if_neg (fun hpartial => hs ((hpartialOf s).mp hpartial).2)]
      exact h.draft s
  · intro s
    rw [Display.final_put, hfirst]
    by_cases hs : event.FinalFor s
    · obtain ⟨htype, rfl⟩ := (hfinalOf s).mp hs
      rw [if_pos (hstatus.mpr htype), if_pos hs, hid, Function.update_self]
      simp [hcaption, hf]
    · rw [if_neg hs, ← h.final]
      split_ifs with htype
      · rw [hid, Function.update_of_ne]
        exact fun heq => hs ((hfinalOf s).mpr ⟨hstatus.mp htype, heq.symm⟩)
      · rfl
  · intro s
    rw [Display.revisions_put, Display.reconciler_put, hid, hnumber]
    have hbefore := h.revisions s
    have hlater : (((display.reconciler.seeId event).seeSaying event segmentId text).revise event
        segmentId).lastRevision s = Function.update display.reconciler.lastRevision segmentId
          (display.reconciler.lastRevision segmentId + 1) s := rfl
    dsimp only
    rw [hlater]
    by_cases hs : segmentId = s
    · subst hs
      rw [if_pos rfl, Function.update_self, List.range'_1_concat, Nat.add_comm 1, ← hbefore]
      rfl
    · rw [if_neg hs, Function.update_of_ne (Ne.symm hs), ← hbefore]
      rfl

theorem Keeps.step {display : Display} (h : Keeps kind older display)
    (hdelivered : Delivered (event :: older)) :
    Keeps kind (event :: older) (display.consume event) := by
  unfold Display.consume
  cases hsaid : event.said with
  | none =>
    have hsaying : event.saying kind = none := by simp [ProviderEvent.saying, hsaid]
    have hnot : ∀ s, event.said.map Prod.fst ≠ some s := by simp [hsaid]
    have hquiet : Keeps kind (event :: older) display :=
      h.quiet rfl (fun id hid => Or.inl hid) (fun f => by simp [hsaying]) rfl rfl
        (fun s hs => absurd hs.2 (hnot s)) (fun s hs => absurd hs.2 (hnot s))
    rcases Reconciler.consume_of_not_said hsaid with
      ⟨error, herror⟩ | ⟨hok, -⟩
    · rw [herror]
      exact hquiet
    · rw [hok]
      exact hquiet
  | some pair =>
    obtain ⟨segmentId, text⟩ := pair
    rw [Reconciler.consume_of_said hsaid]
    have hfingerprint : event.saying kind =
        some (display.reconciler.fingerprint event segmentId text) := by
      unfold ProviderEvent.saying Reconciler.fingerprint
      rw [hsaid, h.kind_eq]
      rfl
    have hsaying : event.saying kind ≠ none := by simp [hfingerprint]
    -- What is said already is no Final of an open segment and no new wording.
    have hrepeated : ∀ e ∈ older, e.saying kind = event.saying kind →
        (∀ s, event.FinalFor s → firstFinal s older ≠ none) ∧ ¬ FirstSaid kind event older :=
      fun e he hsame => ⟨fun s hs => firstFinal_of_said he hsame hs, fun hnew => hnew e he hsame⟩
    unfold Reconciler.consumeSaid
    split_ifs with hseen hwording hclosed
    · obtain ⟨e, he, hsome, hid⟩ := h.ids _ hseen
      have hsame : e.saying kind = event.saying kind := saying_of_sameDelivery
        (hdelivered e (List.mem_cons_of_mem _ he) event List.mem_cons_self hid)
      obtain ⟨hfinals, hold⟩ := hrepeated e he hsame
      refine h.quiet rfl (fun id hid => Or.inl hid) (fun f => ?_) rfl rfl hfinals
        fun _ _ _ => hold
      rw [h.sayings]
      exact ⟨Or.inl, fun hf => hf.elim id fun hf => ⟨e, he, hsame.trans hf⟩⟩
    · obtain ⟨e, he, hsaid'⟩ := (h.sayings _).mp hwording
      obtain ⟨hfinals, hold⟩ := hrepeated e he (hsaid'.trans hfingerprint.symm)
      refine h.quiet rfl (fun id hid => ?_) (fun f => ?_) rfl rfl hfinals fun _ _ _ => hold
      · exact (List.mem_cons.mp hid).elim (fun heq => Or.inr ⟨hsaying, heq⟩) Or.inl
      · refine ⟨Or.inl, fun hf => hf.elim id fun hf => ?_⟩
        rw [← Option.some.inj (hfingerprint.symm.trans hf)]
        exact hwording
    · have hfinal := (h.finals segmentId).mp hclosed
      have hsegment : ∀ s, event.said.map Prod.fst = some s → segmentId = s := by simp [hsaid]
      refine h.quiet rfl (fun id hid => ?_) (fun f => ?_) rfl rfl
        (fun s hs => hsegment s hs.2 ▸ hfinal) (fun s hs hopen => ?_)
      · exact (List.mem_cons.mp hid).elim (fun heq => Or.inr ⟨hsaying, heq⟩) Or.inl
      · rw [hfingerprint, Option.some_inj, eq_comm, or_comm]
        exact List.mem_cons
      · exact absurd (hsegment s hs.2 ▸ hopen) hfinal
    · apply h.emitting hsaid hfingerprint
      · intro e he hsame
        exact hwording ((h.sayings _).mpr ⟨e, he, hsame.trans hfingerprint⟩)
      · exact not_not.mp fun hfinal => hclosed ((h.finals segmentId).mpr hfinal)

theorem keeps_after (h : Delivered past) : Keeps kind past (Display.after kind past) := by
  induction past with
  | nil => exact .initial kind
  | cons event older ih =>
    apply Keeps.step
    · exact ih fun e he e' he' =>
        h e (List.mem_cons_of_mem _ he) e' (List.mem_cons_of_mem _ he')
    · exact h

end Steps

/-- Why an event that is no longer new may be dropped: it was delivered before, it is blank, what
it says was said before, or its segment has its Final. -/
def Excused (kind : SessionKind) (event : ProviderEvent) (older : List ProviderEvent) : Prop :=
  (∃ e ∈ older, e.providerEventId = event.providerEventId ∧ e.SameDelivery event) ∨
    (∃ text, event.text = some text ∧ notBlank text = false) ∨
    (event.saying kind ≠ none ∧ ∃ e ∈ older, e.saying kind = event.saying kind) ∨
    ∃ segmentId, event.said.map Prod.fst = some segmentId ∧ firstFinal segmentId older ≠ none

/-- The reconciler shows what the provider has sent. -/
structure FollowsProvider (kind : SessionKind) (past : List ProviderEvent) : Prop where
  draft : ∀ segmentId, firstFinal segmentId past = none →
    ((Display.after kind past).active segmentId).map CaptionEvent.saying =
      (lastDraft kind segmentId past).bind fun e => e.saying kind
  final : ∀ segmentId, ((Display.after kind past).final segmentId).map CaptionEvent.saying =
    (firstFinal segmentId past).bind fun e => e.saying kind
  apart : ∀ segmentId, (Display.after kind past).active segmentId = none ∨
    (Display.after kind past).final segmentId = none
  numbered : ∀ segmentId, ∃ n,
    (Display.after kind past).revisions segmentId = List.range' 1 n
  dropped : ∀ event older, past = event :: older → event.IsResult → ∀ reconciler,
    (Display.after kind older).reconciler.consume event = .ok (reconciler, none) →
      Excused kind event older

theorem Keeps.excused {kind : SessionKind} {older : List ProviderEvent} {display : Display}
    (h : Keeps kind older display) {event : ProviderEvent} (hdelivered : Delivered (event :: older))
    (hresult : event.IsResult) {reconciler : Reconciler}
    (hdropped : display.reconciler.consume event = .ok (reconciler, none)) :
    Excused kind event older := by
  cases hsaid : event.said with
  | none =>
    rcases Reconciler.consume_of_not_said hsaid with
      ⟨error, herror⟩ | ⟨-, hblank⟩
    · rw [herror] at hdropped
      cases hdropped
    · exact Or.inr (Or.inl (hblank hresult))
  | some pair =>
    obtain ⟨segmentId, text⟩ := pair
    rw [Reconciler.consume_of_said hsaid] at hdropped
    unfold Reconciler.consumeSaid at hdropped
    split_ifs at hdropped with hseen hwording hclosed
    · obtain ⟨e, he, -, hid⟩ := h.ids _ hseen
      exact Or.inl ⟨e, he, hid,
        hdelivered e (List.mem_cons_of_mem _ he) event List.mem_cons_self hid⟩
    · obtain ⟨e, he, hsame⟩ := (h.sayings _).mp hwording
      have hsaying : event.saying kind =
          some (display.reconciler.fingerprint event segmentId text) := by
        unfold ProviderEvent.saying Reconciler.fingerprint
        rw [hsaid, h.kind_eq]
        rfl
      exact Or.inr (Or.inr (Or.inl ⟨by simp [hsaying], e, he, hsame.trans hsaying.symm⟩))
    · exact Or.inr (Or.inr (Or.inr ⟨segmentId, by simp [hsaid], (h.finals _).mp hclosed⟩))
    · cases hdropped

/-- Behind every event the drafts are the newest wordings, each counted where it was said first,
the Finals are the first ones, and what is dropped was to be dropped. -/
theorem follows_history (kind : SessionKind) {events : List ProviderEvent}
    (h : Delivered events) : ∀ past, past <:+ events → FollowsProvider kind past := by
  intro past hpast
  have hdelivered : ∀ {l : List ProviderEvent}, l <:+ events → Delivered l := fun hl e he e' he' =>
    h e (hl.subset he) e' (hl.subset he')
  have hkeeps : Keeps kind past _ := keeps_after (hdelivered hpast)
  refine ⟨?_, hkeeps.final, ?_, fun s => ⟨_, hkeeps.revisions s⟩, ?_⟩
  · intro s hopen
    rw [hkeeps.draft, if_pos hopen]
  · intro s
    by_cases hopen : firstFinal s past = none
    · right
      have hfinal := hkeeps.final s
      rw [hopen] at hfinal
      exact Option.map_eq_none_iff.mp hfinal
    · left
      have hdraft := hkeeps.draft s
      rw [if_neg hopen] at hdraft
      exact Option.map_eq_none_iff.mp hdraft
  · rintro event older rfl hresult reconciler hdropped
    have holder : Keeps kind older _ :=
      keeps_after (hdelivered ((List.suffix_cons event older).trans hpast))
    exact holder.excused (hdelivered hpast) hresult hdropped

def wording (eventId text : String) : ProviderEvent where
  eventType := .partialResult
  providerEventId := eventId
  segmentId := some "segment-1"
  text := some text

def wavering : List ProviderEvent :=
  [wording "event-3" "hello", wording "event-2" "hallo", wording "event-1" "hello"]

theorem follows_wavering : FollowsProvider .transcription wavering :=
  follows_history .transcription (by decide) wavering List.suffix_rfl

theorem said_wording {eventId text : String} (h : notBlank text = true) :
    (wording eventId text).said = some ("segment-1", text) := by
  simp [ProviderEvent.said, wording, ProviderEvent.IsResult, h]

theorem saying_wording {eventId text : String} (h : notBlank text = true) (kind : SessionKind) :
    (wording eventId text).saying kind =
      some ⟨.partialResult, "segment-1", text, none, none, none⟩ := by
  rw [ProviderEvent.saying, said_wording h]
  cases kind <;> rfl

theorem partialFor_wording {eventId text : String} (h : notBlank text = true) :
    (wording eventId text).PartialFor "segment-1" := ⟨rfl, by rw [said_wording h]; rfl⟩

theorem active_wavering (kind : SessionKind) :
    ((Display.after kind wavering).active "segment-1").map CaptionEvent.text = some "hallo" := by
  have hfirst : notBlank "hello" = true := notBlank_of_any (by decide)
  have hsecond : notBlank "hallo" = true := notBlank_of_any (by decide)
  have hlast : lastDraft kind "segment-1" wavering = some (wording "event-2" "hallo") := by
    simp [wavering, lastDraft, FirstSaid, partialFor_wording hsecond, saying_wording hfirst,
      saying_wording hsecond]
  have hkeeps : Keeps kind wavering _ := keeps_after (by decide)
  have hdraft := hkeeps.draft "segment-1"
  rw [if_pos (by decide), hlast, Option.bind_some, saying_wording hsecond,
    Option.map_eq_some_iff] at hdraft
  obtain ⟨caption, hactive, hsaying⟩ := hdraft
  rw [hactive]
  exact congrArg (some ∘ Fingerprint.text) hsaying

/-- A wording that the provider goes back to is dropped by both reconcilers: what is shown is not
what was received last, although that was neither delivered before nor blank, and differs from the
draft. -/
theorem wavering_not_shown :
    Delivered wavering ∧ firstFinal "segment-1" wavering = none ∧
      (wavering.head?.bind ProviderEvent.text = some "hello") ∧
      ((Display.after .transcription wavering).active "segment-1").map CaptionEvent.text =
        some "hallo" ∧
      ((Display.after .translation wavering).active "segment-1").map CaptionEvent.text =
        some "hallo" :=
  ⟨by decide, by decide, rfl, active_wavering _, active_wavering _⟩

end Captions
end Matinier
