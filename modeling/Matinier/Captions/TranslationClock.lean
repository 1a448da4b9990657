import Matinier.Captions.TranslationAdapter
import Mathlib.Data.List.Chain
import Mathlib.Algebra.BigOperators.Ring.List
import Mathlib.Algebra.Ring.Nat

/-!
# The clock of the translation adapter

The adapter counts the audio it has sent in whole milliseconds, chunk by chunk, and its segments
lie between two readings of that clock. What the chunks leave over is dropped. A segment begins
where the last Final ended, unless its identifier was left open by an earlier response.
-/

namespace Matinier

/-- Rounding each of several numbers down loses nothing just if their remainders do not make a
whole one. -/
theorem sum_div_eq_iff {l : List ℕ} {m : ℕ} (hm : 0 < m) :
    (l.map (· / m)).sum = l.sum / m ↔ (l.map (· % m)).sum < m := by
  have hsplit : l.sum = m * (l.map (· / m)).sum + (l.map (· % m)).sum := by
    induction l with
    | nil => rfl
    | cons a l ih =>
      have ha := Nat.div_add_mod a m
      simp only [List.map_cons, List.sum_cons, Nat.mul_add]
      omega
  have hquotient := Nat.mul_add_div hm (l.map (· / m)).sum (l.map (· % m)).sum
  rw [← hsplit] at hquotient
  rw [hquotient, Nat.left_eq_add, Nat.div_eq_zero_iff_lt hm]

namespace Said

variable {υ ν : Type}

def unnamed (x : Said υ ν) : Said υ ν := { x with own := none }

/-- Every source is done before the next one begins, and says nothing then. -/
def InTurn (l : List (Said υ ν)) : Prop := TakesTurns (l.map unnamed)

/-- A source that leaves a name open is not followed by another one under that name. -/
def ClosesItsNames (l : List (Said υ ν)) : Prop :=
  ∀ before x between y after, l = before ++ x :: between ++ y :: after → x.closes = false →
    x.own = y.own → x.source ≠ y.source → ∃ z ∈ between, z.own = x.own ∧ z.closes = true

variable {l : List (Said υ ν)} {x y : Said υ ν}

theorem ClosesItsNames.init (h : ClosesItsNames (l ++ [x])) : ClosesItsNames l := by
  intro before y between z after hl
  exact h before y between z (after ++ [x]) (by simp [hl])

theorem TakesTurns.init (h : TakesTurns (l ++ [x])) : TakesTurns l where
  closed before y after hl hown hcloses z hz :=
    h.closed before y (after ++ [x]) (by simp [hl]) hown hcloses z (by simp [hz])
  first before y between z after hl :=
    h.first before y between z (after ++ [x]) (by simp [hl])

theorem InTurn.init (h : InTurn (l ++ [x])) : InTurn l := by
  unfold InTurn at h
  rw [List.map_append, List.map_singleton] at h
  exact TakesTurns.init h

theorem InTurn.open_between (h : InTurn l) {before between after : List (Said υ ν)}
    (hl : l = before ++ x :: between ++ y :: after) (hsame : y.source = x.source) :
    ∀ z ∈ x :: between, z.closes = false := by
  have hown : ∀ z ∈ l.map unnamed, z.own = none := by
    intro z hz
    obtain ⟨z, -, rfl⟩ := List.mem_map.mp hz
    rfl
  have hnames : OwnNames (l.map unnamed) := by
    constructor
    · intro a ha b hb _
      rw [hown a ha, hown b hb]
    · intro a ha b _ _ hne
      exact absurd (hown a ha) hne
  have hl' : l.map unnamed = before.map unnamed ++ x.unnamed :: between.map unnamed ++
      y.unnamed :: after.map unnamed := by simp [hl]
  intro z hz
  have hz' : z.unnamed ∈ x.unnamed :: between.map unnamed := List.mem_map_of_mem hz
  exact TakesTurns.open_between h hnames hl' rfl hsame z.unnamed hz' rfl

end Said

namespace Captions

def TranslationInput.sent : TranslationInput → Option ℕ
  | .audioSent size => some size
  | _ => none

def sentSizes (inputs : List TranslationInput) : List ℕ := inputs.filterMap TranslationInput.sent

/-- What the chunks leave over does not make a millisecond. -/
def RemaindersFit (inputs : List TranslationInput) : Prop :=
  ((sentSizes inputs).map fun size => size * 1000 % (sampleRate * 2)).sum < sampleRate * 2

instance (inputs : List TranslationInput) : Decidable (RemaindersFit inputs) :=
  inferInstanceAs (Decidable (_ < _))

/-- The result that an input is, under the name it gets where so many event identifiers were
drawn. -/
def TranslationInput.named (input : TranslationInput) (drawn : ℕ) : Option (Said ℕ String) :=
  input.said.map fun x => { x with own := some (x.nameUnder numberedSegment (drawn + 1)) }

def namedResults : ℕ → List TranslationInput → List (Said ℕ String)
  | _, [] => []
  | drawn, input :: inputs =>
    (input.named drawn).toList ++ namedResults (drawn + if input.draws then 1 else 0) inputs

namespace TranslationProvider

variable {inputs : List TranslationInput} {provider provider' : TranslationProvider}
  {input : TranslationInput}

def Ordered (event : ProviderEvent) : Prop :=
  ∃ start finish, event.beginTimeMs = some start ∧ event.endTimeMs = some finish ∧ start ≤ finish

def finals (provider : TranslationProvider) : List ProviderEvent :=
  (provider.emitted.map Prod.snd).filter fun event => event.eventType = .finalResult

/-- Each Final begins where the one before it ended, and no two overlap. -/
structure Contiguous (provider : TranslationProvider) : Prop where
  adjacent : provider.finals.IsChain fun event event' => event'.beginTimeMs = event.endTimeMs
  apart : provider.finals.Pairwise fun event event' =>
    ∃ finish start, event.endTimeMs = some finish ∧ event'.beginTimeMs = some start ∧
      finish ≤ start

/-- What does not bring a result along leaves the segments alone, and moves the clock by the audio
that was sent. -/
theorem quiet_fields (hstep : provider.Handles input provider') (hsaid : input.said = none) :
    provider'.emitted = provider.emitted ∧ provider'.lastFinalEndMs = provider.lastFinalEndMs ∧
      provider'.segmentStartMs = provider.segmentStartMs ∧
        provider'.audioTimeMs = provider.audioTimeMs + (input.sent.map audioMs).getD 0 := by
  unfold Handles next at hstep
  cases input with
  | result response message => cases hsaid
  | sendAudio size =>
    dsimp only at hstep
    split_ifs at hstep
    · cases hstep
      exact ⟨rfl, rfl, rfl, rfl⟩
    · cases hstep
      exact ⟨rfl, rfl, rfl, rfl⟩
  | sessionUpdated eventId | sessionFinished eventId =>
    dsimp only at hstep
    split_ifs at hstep
    cases hstep
    rw [providerEventId_fields]
    exact ⟨rfl, rfl, rfl, rfl⟩
  | sessionCreated | sendUpdate | audioSent _ | finish | unknown =>
    dsimp only at hstep
    split_ifs at hstep
    cases hstep
    exact ⟨rfl, rfl, rfl, rfl⟩

theorem result_fields (hstep : provider.Handles input provider') {x : Said ℕ String}
    (hsaid : input.said = some x) : ∃ response message, input = .result response message ∧
      x = ⟨response, message.ownId, message.final⟩ ∧
        provider' = provider.handleResult response message := by
  cases input with
  | result response message =>
    unfold Handles next at hstep
    dsimp only at hstep
    split_ifs at hstep
    cases hsaid
    cases hstep
    exact ⟨response, message, rfl, rfl, rfl⟩
  | _ => cases hsaid

/-- The clock is the sum of the chunks, each in whole milliseconds, and nothing lies behind it. -/
structure Clocked (inputs : List TranslationInput) (provider : TranslationProvider) : Prop where
  audio : provider.audioTimeMs = ((sentSizes inputs).map audioMs).sum
  final : provider.lastFinalEndMs ≤ provider.audioTimeMs
  started : ∀ segmentId start, provider.segmentStartMs segmentId = some start →
    start ≤ provider.audioTimeMs
  ordered : ∀ e ∈ provider.emitted, Ordered e.2

theorem Clocked.initial (hex : ℕ → String) : Clocked [] (fresh hex) where
  audio := rfl
  final := Nat.le_refl _
  started := by simp [fresh]
  ordered := by simp [fresh]

theorem Clocked.beginMs_le (h : Clocked inputs provider) (segmentId : String) :
    provider.beginMs segmentId ≤ provider.audioTimeMs := by
  unfold beginMs
  cases hstart : provider.segmentStartMs segmentId with
  | some start => exact h.started segmentId start hstart
  | none => exact h.final

theorem Clocked.result (h : Clocked inputs provider) (response : ℕ)
    (message : TranslationMessage) :
    Clocked (inputs ++ [.result response message]) (provider.handleResult response message) := by
  rw [handleResult_eq]
  constructor
  · rw [sentSizes, List.filterMap_append, List.map_append, List.sum_append]
    exact h.audio
  · dsimp only
    split_ifs
    · exact Nat.le_refl _
    · exact h.final
  · intro segmentId start hstart
    dsimp only at hstart ⊢
    by_cases hsegment : segmentId = provider.segmentId message
    · rw [hsegment, Function.update_self] at hstart
      split_ifs at hstart
      cases hstart
      exact h.beginMs_le _
    · rw [Function.update_of_ne hsegment] at hstart
      exact h.started segmentId start hstart
  · intro e he
    rcases List.mem_append.mp he with he | he
    · exact h.ordered e he
    · rw [List.mem_singleton.mp he]
      exact ⟨_, _, rfl, rfl, Int.ofNat_le.mpr (h.beginMs_le _)⟩

theorem Clocked.quiet (h : Clocked inputs provider) (hsaid : input.said = none)
    (hstep : provider.Handles input provider') : Clocked (inputs ++ [input]) provider' := by
  obtain ⟨hemitted, hfinal, hstarted, haudio⟩ := quiet_fields hstep hsaid
  have hle : provider.audioTimeMs ≤ provider'.audioTimeMs := by omega
  constructor
  · rw [haudio, h.audio, sentSizes, sentSizes, List.filterMap_append]
    cases hsent : input.sent <;> simp [hsent]
  · rw [hfinal]
    exact h.final.trans hle
  · intro segmentId start hstart
    rw [hstarted] at hstart
    exact (h.started segmentId start hstart).trans hle
  · rw [hemitted]
    exact h.ordered

theorem Clocked.step (h : Clocked inputs provider) (hstep : provider.Handles input provider') :
    Clocked (inputs ++ [input]) provider' := by
  cases hsaid : input.said with
  | none => exact h.quiet hsaid hstep
  | some x =>
    obtain ⟨response, message, rfl, -, rfl⟩ := result_fields hstep hsaid
    exact h.result response message

theorem clocked_of_run {hex : ℕ → String} (h : Run Handles (fresh hex) inputs provider) :
    Clocked inputs provider := by
  have hrun := h.history (I := Clocked) (fun _ _ _ _ hp hstep => hp.step hstep)
    (Clocked.initial hex)
  simpa using hrun

/-- The clock tells the audio that was sent just if what the chunks leave over fits. -/
theorem clock_exact_iff {hex : ℕ → String} (h : Run Handles (fresh hex) inputs provider) :
    provider.audioTimeMs = audioMs (sentSizes inputs).sum ↔ RemaindersFit inputs := by
  have hm : 0 < sampleRate * 2 := by decide
  have hsum := sum_div_eq_iff (l := (sentSizes inputs).map (· * 1000)) hm
  have htotal := List.sum_map_mul_right (sentSizes inputs) (fun size => size) 1000
  rw [List.map_id'] at htotal
  rw [List.map_map, List.map_map, htotal] at hsum
  rw [(clocked_of_run h).audio]
  exact hsum

theorem namedResults_append (inputs : List TranslationInput) (input : TranslationInput)
    (drawn : ℕ) : namedResults drawn (inputs ++ [input]) = namedResults drawn inputs ++
      (input.named (drawn + inputs.countP TranslationInput.draws)).toList := by
  induction inputs generalizing drawn with
  | nil => simp [namedResults]
  | cons first inputs ih =>
    simp only [List.cons_append, namedResults, ih, List.append_assoc, List.countP_cons]
    rw [Nat.add_assoc, Nat.add_comm (if first.draws = true then 1 else 0)]

theorem map_unnamed_namedResults (drawn : ℕ) : (namedResults drawn inputs).map Said.unnamed =
    (inputs.filterMap TranslationInput.said).map Said.unnamed := by
  induction inputs generalizing drawn with
  | nil => rfl
  | cons first inputs ih =>
    simp only [namedResults, List.map_append, ih, List.filterMap_cons]
    cases hsaid : first.said <;> simp [TranslationInput.named, hsaid, Said.unnamed]

/-- A segment is open since a Partial after which nothing closed it, and unless a Final came in
between it begins where the last one ended. -/
structure Seamless (inputs : List TranslationInput) (provider : TranslationProvider) : Prop where
  opened : ∀ segmentId start, provider.segmentStartMs segmentId = some start →
    ∃ before x after, namedResults 0 inputs = before ++ x :: after ∧ x.own = some segmentId ∧
      x.closes = false ∧ (∀ z ∈ after, z.own = some segmentId → z.closes = false) ∧
        ((∀ z ∈ after, z.closes = false) → start = provider.lastFinalEndMs)
  last : ∀ event ∈ provider.finals.getLast?, event.endTimeMs = some (provider.lastFinalEndMs : ℤ)
  past : ∀ event ∈ provider.finals, ∃ finish, event.endTimeMs = some finish ∧
    finish ≤ provider.lastFinalEndMs
  contiguous : provider.Contiguous

theorem Seamless.initial (hex : ℕ → String) : Seamless [] (fresh hex) where
  opened := by simp [fresh]
  last := by simp [fresh, finals]
  past := by simp [fresh, finals]
  contiguous := ⟨List.isChain_nil, List.Pairwise.nil⟩

theorem Seamless.begins (h : Seamless inputs provider) {y : Said ℕ String} {segmentId : String}
    (hturn : Said.InTurn (namedResults 0 inputs ++ [y]))
    (hnames : Said.ClosesItsNames (namedResults 0 inputs ++ [y])) (hown : y.own = some segmentId) :
    provider.beginMs segmentId = provider.lastFinalEndMs := by
  unfold beginMs
  cases hstart : provider.segmentStartMs segmentId with
  | none => rfl
  | some start =>
    obtain ⟨before, x, after, hl, hx, hopen, hnone, hlast⟩ := h.opened segmentId start hstart
    have hl' : namedResults 0 inputs ++ [y] = before ++ x :: after ++ y :: [] := by rw [hl]
    have hsource : x.source = y.source := by
      by_contra hne
      obtain ⟨z, hz, hzown, hcloses⟩ :=
        hnames before x after y [] hl' hopen (hx.trans hown.symm) hne
      rw [hnone z hz (hzown.trans hx)] at hcloses
      cases hcloses
    apply hlast
    intro z hz
    exact hturn.open_between hl' hsource.symm z (List.mem_cons_of_mem x hz)

theorem Seamless.quiet (h : Seamless inputs provider) (hsaid : input.said = none)
    (hstep : provider.Handles input provider') : Seamless (inputs ++ [input]) provider' := by
  obtain ⟨hemitted, hfinal, hstarted, -⟩ := quiet_fields hstep hsaid
  have hnamed : namedResults 0 (inputs ++ [input]) = namedResults 0 inputs := by
    rw [namedResults_append, TranslationInput.named, hsaid]
    exact List.append_nil _
  have hfinals : provider'.finals = provider.finals := by rw [finals, hemitted, finals]
  constructor
  · rw [hnamed, hstarted, hfinal]
    exact h.opened
  · rw [hfinals, hfinal]
    exact h.last
  · rw [hfinals, hfinal]
    exact h.past
  · constructor
    · rw [hfinals]
      exact h.contiguous.adjacent
    · rw [hfinals]
      exact h.contiguous.apart

theorem Seamless.partialResult (h : Seamless inputs provider) {response : ℕ}
    {message : TranslationMessage} {y : Said ℕ String} (hfinal : message.final = false)
    (hnamed : namedResults 0 (inputs ++ [.result response message]) =
      namedResults 0 inputs ++ [y])
    (hown : y.own = some (provider.segmentId message)) (hcloses : y.closes = message.final)
    (hbegin : provider.beginMs (provider.segmentId message) = provider.lastFinalEndMs) :
    Seamless (inputs ++ [.result response message]) (provider.handleResult response message) := by
  have hfinals : (provider.handleResult response message).finals = provider.finals := by
    rw [handleResult_eq]
    simp [finals, eventOf, hfinal]
  have hlast : (provider.handleResult response message).lastFinalEndMs =
      provider.lastFinalEndMs := by
    rw [handleResult_eq]
    simp [hfinal]
  constructor
  · intro segmentId start hstart
    rw [hlast]
    rw [handleResult_eq, hfinal] at hstart
    dsimp only at hstart
    by_cases hsegment : segmentId = provider.segmentId message
    · rw [hsegment, Function.update_self] at hstart
      cases hstart
      exact ⟨namedResults 0 inputs, y, [], hnamed, hown.trans (by rw [hsegment]),
        hcloses.trans hfinal, nofun, fun _ => hbegin⟩
    · rw [Function.update_of_ne hsegment] at hstart
      obtain ⟨before, x, after, hl, hx, hopen, hnone, hwhere⟩ := h.opened segmentId start hstart
      refine ⟨before, x, after ++ [y], by rw [hnamed, hl]; simp, hx, hopen, ?_, ?_⟩
      · intro z hz hzown
        rcases List.mem_append.mp hz with hz | hz
        · exact hnone z hz hzown
        · rw [List.mem_singleton.mp hz, hcloses, hfinal]
      · intro hall
        apply hwhere
        intro z hz
        exact hall z (List.mem_append_left _ hz)
  · rw [hfinals, hlast]
    exact h.last
  · rw [hfinals, hlast]
    exact h.past
  · constructor
    · rw [hfinals]
      exact h.contiguous.adjacent
    · rw [hfinals]
      exact h.contiguous.apart

theorem Seamless.finalResult (h : Seamless inputs provider) (hclock : Clocked inputs provider)
    {response : ℕ} {message : TranslationMessage} {y : Said ℕ String}
    (hfinal : message.final = true)
    (hnamed : namedResults 0 (inputs ++ [.result response message]) =
      namedResults 0 inputs ++ [y])
    (hown : y.own = some (provider.segmentId message)) (hcloses : y.closes = message.final)
    (hbegin : provider.beginMs (provider.segmentId message) = provider.lastFinalEndMs) :
    Seamless (inputs ++ [.result response message]) (provider.handleResult response message) := by
  have hfinals : (provider.handleResult response message).finals =
      provider.finals ++ [provider.eventOf message] := by
    rw [handleResult_eq]
    simp [finals, eventOf, hfinal]
  have hstart : (provider.eventOf message).beginTimeMs = some (provider.lastFinalEndMs : ℤ) := by
    rw [eventOf, hbegin]
  have hlast : (provider.handleResult response message).lastFinalEndMs =
      provider.audioTimeMs := by
    rw [handleResult_eq]
    simp [hfinal]
  have hle : (provider.lastFinalEndMs : ℤ) ≤ provider.audioTimeMs := Int.ofNat_le.mpr hclock.final
  constructor
  · intro segmentId start hopened
    rw [handleResult_eq, hfinal] at hopened
    dsimp only at hopened
    by_cases hsegment : segmentId = provider.segmentId message
    · rw [hsegment, Function.update_self] at hopened
      cases hopened
    · rw [Function.update_of_ne hsegment] at hopened
      obtain ⟨before, x, after, hl, hx, hopen, hnone, -⟩ := h.opened segmentId start hopened
      refine ⟨before, x, after ++ [y], by rw [hnamed, hl]; simp, hx, hopen, ?_, ?_⟩
      · intro z hz hzown
        rcases List.mem_append.mp hz with hz | hz
        · exact hnone z hz hzown
        · rw [List.mem_singleton.mp hz, hown] at hzown
          exact absurd (Option.some_inj.mp hzown).symm hsegment
      · intro hall
        have hy := hall y (by simp)
        rw [hcloses, hfinal] at hy
        cases hy
  · rw [hfinals, hlast]
    intro event hevent
    rw [List.getLast?_concat, Option.mem_some_iff] at hevent
    rw [← hevent]
    rfl
  · rw [hfinals, hlast]
    intro event hevent
    rcases List.mem_append.mp hevent with hevent | hevent
    · obtain ⟨finish, hfinish, hpast⟩ := h.past event hevent
      exact ⟨finish, hfinish, hpast.trans hle⟩
    · rw [List.mem_singleton.mp hevent]
      exact ⟨_, rfl, le_refl _⟩
  · constructor
    · rw [hfinals, List.isChain_append]
      refine ⟨h.contiguous.adjacent, List.isChain_singleton _, ?_⟩
      intro event hevent event' hevent'
      rw [List.head?_singleton, Option.mem_some_iff] at hevent'
      rw [← hevent', hstart, h.last event hevent]
    · rw [hfinals, List.pairwise_append]
      refine ⟨h.contiguous.apart, List.pairwise_singleton _ _, ?_⟩
      intro event hevent event' hevent'
      obtain ⟨finish, hfinish, hpast⟩ := h.past event hevent
      rw [List.mem_singleton.mp hevent']
      exact ⟨finish, _, hfinish, hstart, hpast⟩

theorem Seamless.step (h : Seamless inputs provider) (htells : Tells inputs provider)
    (hclock : Clocked inputs provider) (hstep : provider.Handles input provider')
    (hturn : Said.InTurn (namedResults 0 (inputs ++ [input])))
    (hnames : Said.ClosesItsNames (namedResults 0 (inputs ++ [input]))) :
    Seamless (inputs ++ [input]) provider' := by
  cases hsaid : input.said with
  | none => exact h.quiet hsaid hstep
  | some x =>
    obtain ⟨response, message, rfl, -, rfl⟩ := result_fields hstep hsaid
    have hnamed := namedResults_append inputs (.result response message) 0
    rw [Nat.zero_add, ← htells.sequence] at hnamed
    rw [hnamed] at hturn hnames
    have hbegin := h.begins hturn hnames rfl
    cases hfinal : message.final with
    | false => exact h.partialResult hfinal hnamed rfl rfl hbegin
    | true => exact h.finalResult hclock hfinal hnamed rfl rfl hbegin

theorem namedResults_init {P : List (Said ℕ String) → Prop}
    (hinit : ∀ l x, P (l ++ [x]) → P l) (h : P (namedResults 0 (inputs ++ [input]))) :
    P (namedResults 0 inputs) := by
  rw [namedResults_append] at h
  cases hnamed : input.named (0 + inputs.countP TranslationInput.draws) with
  | none =>
    rw [hnamed, Option.toList_none, List.append_nil] at h
    exact h
  | some x =>
    rw [hnamed] at h
    exact hinit _ x h

theorem contiguous_of_run {hex : ℕ → String} (h : Run Handles (fresh hex) inputs provider)
    (hturn : Said.InTurn (inputs.filterMap TranslationInput.said))
    (hnames : Said.ClosesItsNames (namedResults 0 inputs)) : provider.Contiguous := by
  have hrun : (Tells inputs provider ∧ Clocked inputs provider) ∧
      (Said.InTurn (namedResults 0 inputs) → Said.ClosesItsNames (namedResults 0 inputs) →
        Seamless inputs provider) := by
    have := h.history
      (I := fun inputs provider => (Tells inputs provider ∧ Clocked inputs provider) ∧
        (Said.InTurn (namedResults 0 inputs) → Said.ClosesItsNames (namedResults 0 inputs) →
          Seamless inputs provider))
      (fun inputs provider input provider' hp hstep =>
        ⟨⟨hp.1.1.step hstep, hp.1.2.step hstep⟩, fun hturn hnames =>
          (hp.2 (namedResults_init (fun _ _ => Said.InTurn.init) hturn)
            (namedResults_init (fun _ _ => Said.ClosesItsNames.init) hnames)).step
              hp.1.1 hp.1.2 hstep hturn hnames⟩)
      ⟨⟨Tells.initial hex, Clocked.initial hex⟩, fun _ _ => Seamless.initial hex⟩
    simpa using this
  have hturn' : Said.InTurn (namedResults 0 inputs) := by
    unfold Said.InTurn at hturn ⊢
    rw [map_unnamed_namedResults]
    exact hturn
  exact (hrun.2 hturn' hnames).contiguous

/-- The times of a run: the clock tells the audio that was sent, every segment begins no later
than it ends, and where the responses come in turn, the Finals are contiguous. -/
structure Timed (inputs : List TranslationInput) (provider : TranslationProvider) : Prop where
  clock : provider.audioTimeMs = audioMs (sentSizes inputs).sum
  ordered : ∀ e ∈ provider.emitted, Ordered e.2
  contiguous : Said.InTurn (inputs.filterMap TranslationInput.said) → provider.Contiguous

/-- Where no identifier is left open for a later response, the times of a run are right just if
what the chunks leave over does not make a millisecond. -/
theorem timed_iff {hex : ℕ → String} (h : Run Handles (fresh hex) inputs provider)
    (hnames : Said.ClosesItsNames (namedResults 0 inputs)) :
    Timed inputs provider ↔ RemaindersFit inputs := by
  constructor
  · intro htimed
    exact (clock_exact_iff h).mp htimed.clock
  · intro hfit
    exact ⟨(clock_exact_iff h).mpr hfit, (clocked_of_run h).ordered,
      fun hturn => contiguous_of_run h hturn hnames⟩

def spoken : List TranslationInput :=
  [.sessionCreated, .sendUpdate, .sessionUpdated (some "event-0"), .sendAudio 3200, .audioSent 3200,
    .result 1 { eventId := some "event-1", responseId := some "a", text := "one" },
    .result 1 { eventId := some "event-2", responseId := some "a", text := "one", final := true },
    .sendAudio 3200, .audioSent 3200,
    .result 2 { eventId := some "event-3", responseId := some "b", text := "two", final := true }]

def halved : List TranslationInput :=
  [.sessionCreated, .sendUpdate, .sessionUpdated (some "event-0"), .sendAudio 16, .audioSent 16,
    .sendAudio 16, .audioSent 16]

def reopened : List TranslationInput :=
  [.sessionCreated, .sendUpdate, .sessionUpdated (some "event-0"),
    .result 1 { eventId := some "event-1", responseId := some "a", text := "one" },
    .sendAudio 3200, .audioSent 3200,
    .result 1 { eventId := some "event-2", responseId := some "b", text := "one", final := true },
    .result 2 { eventId := some "event-3", responseId := some "a", text := "two", final := true }]

theorem timed_spoken : ∃ provider, Run Handles (fresh fun _ => "") spoken provider ∧
    Timed spoken provider := by
  have happart : ∀ x ∈ namedResults 0 spoken, ∀ y ∈ namedResults 0 spoken, x.own = y.own →
      x.source = y.source := by decide +kernel
  have hnames : Said.ClosesItsNames (namedResults 0 spoken) := by
    intro before x between y after hl _ hown hne
    exact absurd (happart x (by simp [hl]) y (by simp [hl]) hown) hne
  have hrun : Run Handles (fresh fun _ => "") spoken _ := run_of_follow rfl
  exact ⟨_, hrun, (timed_iff hrun hnames).mpr (by decide)⟩

theorem inTurn_reopened : Said.InTurn (reopened.filterMap TranslationInput.said) := by
  have hsaid : (reopened.filterMap TranslationInput.said).map Said.unnamed =
      [⟨1, none, false⟩, ⟨1, none, true⟩, ⟨2, none, true⟩] := rfl
  unfold Said.InTurn
  rw [hsaid]
  constructor
  · intro before x after h _ hcloses y hy
    rcases before with _ | ⟨a, _ | ⟨b, _ | ⟨c, before⟩⟩⟩ <;> simp at h
    · simp [← h.1] at hcloses
    · obtain ⟨-, rfl, rfl⟩ := h
      simp [List.mem_singleton.mp hy]
    · simp [h.2.2.2] at hy
  · intro before x between y after h _ hfirst
    rcases before with _ | ⟨a, _ | ⟨b, _ | ⟨c, before⟩⟩⟩ <;> simp at h
    · obtain ⟨rfl, hrest⟩ := h
      rcases between with _ | ⟨b, between⟩ <;> simp at hrest
      · obtain ⟨rfl, -⟩ := hrest
        simp at hfirst
      · obtain ⟨rfl, -⟩ := hrest
        simp
    · obtain ⟨-, rfl, -⟩ := h
      simp

/-- The clock can lose a millisecond, and a Final can begin before the one before it has ended. -/
theorem timing_lost :
    (∃ provider, Run Handles (fresh fun _ => "") halved provider ∧ provider.audioTimeMs = 0 ∧
      audioMs (sentSizes halved).sum = 1 ∧ ¬ Timed halved provider) ∧
    ∃ provider, Run Handles (fresh fun _ => "") reopened provider ∧
      provider.audioTimeMs = audioMs (sentSizes reopened).sum ∧ ¬ Timed reopened provider := by
  constructor
  · refine ⟨_, run_of_follow rfl, rfl, rfl, fun h => ?_⟩
    exact absurd h.clock (by decide)
  · refine ⟨_, run_of_follow rfl, rfl, fun h => ?_⟩
    have hadjacent := (h.contiguous inTurn_reopened).adjacent
    revert hadjacent
    decide +kernel

end TranslationProvider
end Captions
end Matinier
