import Matinier.Meeting.ProjectorMachine
import Matinier.TaskSystem.LinearDescription

/-!
# The text of a batch

A batch has as many of the waiting captions as the model takes at once, and one caption at least.
Where that one is longer than the model takes, its text is cut into fragments, at a space where
there is one within the limit, and each fragment is sent by itself.
-/

namespace Matinier
namespace Meeting

/-- The last place of a character. -/
def rfind (c : Char) (text : List Char) : Option ℕ :=
  (List.range text.length).reverse.find? fun i => text[i]? = some c

/-- Where a text is cut that is longer than the limit. -/
def boundary (limit : ℕ) (remaining : List Char) : ℕ :=
  match rfind ' ' (remaining.take (limit + 1)) with
  | some (i + 1) => i + 1
  | _ => limit

/-- The loop that cuts a text; it does not get to its end where it is given too few rounds. -/
def splitWithin (limit : ℕ) : ℕ → List Char → Option (List (List Char))
  | rounds, remaining =>
    if remaining.length ≤ limit then some (if remaining = [] then [] else [remaining])
    else match rounds with
      | 0 => none
      | rounds + 1 =>
        let cut := boundary limit remaining
        (splitWithin limit rounds (strip (remaining.drop cut))).map
          (strip (remaining.take cut) :: ·)

def splitText (value : List Char) (limit : ℕ) : Option (List (List Char)) :=
  splitWithin limit value.length (strip value)

/-- What the model is asked for a batch: the batch, or its only caption in fragments. Where one of
these is denied or fails, the later ones are not sent. -/
def extractRequests (cfg : ProjectorConfig) (batch : List ProjectionSegment) :
    Option (List (List SegmentRecord)) :=
  match batch with
  | [segment] =>
    if segment.record.displayText.length ≤ cfg.maxInputChars then some [[segment.record]]
    else (splitText segment.record.displayText.toList cfg.maxInputChars).map fun fragments =>
      fragments.map fun fragment =>
        [{ segment.record with
          rawText := String.ofList fragment, displayText := String.ofList fragment }]
  | batch => some [batch.map ProjectionSegment.record]

def charCount (request : List SegmentRecord) : ℕ :=
  (request.map fun record => record.displayText.length).sum

/-- The characters of a text besides its blanks. -/
def solid (text : List Char) : List Char := text.filter fun c => ¬ isSpace c

variable {limit : ℕ} {text value remaining : List Char}

@[simp] theorem solid_append (a b : List Char) : solid (a ++ b) = solid a ++ solid b :=
  List.filter_append ..

theorem solid_dropWhile (text : List Char) : solid (text.dropWhile isSpace) = solid text := by
  induction text with
  | nil => rfl
  | cons c rest ih =>
    by_cases hc : isSpace c = true
    · rw [List.dropWhile_cons_of_pos hc, ih]
      simp [solid, hc]
    · rw [List.dropWhile_cons_of_neg hc]

theorem solid_rstrip (text : List Char) : solid (rstrip text) = solid text := by
  have hsolid := solid_dropWhile text.reverse
  simp only [solid, List.filter_reverse] at hsolid ⊢
  rw [rstrip, List.rdropWhile, List.filter_reverse, hsolid, List.reverse_reverse]

@[simp] theorem solid_strip (text : List Char) : solid (strip text) = solid text := by
  rw [strip, solid_rstrip, solid_dropWhile]

theorem length_strip_le (text : List Char) : (strip text).length ≤ text.length :=
  (List.rdropWhile_prefix isSpace _).length_le.trans (List.length_dropWhile_le isSpace text)

def Trimmed (text : List Char) : Prop := ∀ c ∈ text.head?, isSpace c = false

theorem trimmed_strip (text : List Char) : Trimmed (strip text) := by
  intro c hc
  have hdropped : c ∈ (text.dropWhile isSpace).head? := by
    obtain ⟨rest, hrest⟩ := List.head?_eq_some_iff.mp hc
    have hprefix : strip text <+: text.dropWhile isSpace := List.rdropWhile_prefix isSpace _
    rw [hrest] at hprefix
    obtain ⟨tail, htail⟩ := hprefix
    rw [← htail]
    rfl
  have hfirst := List.head?_dropWhile_not isSpace text
  rw [Option.mem_def.mp hdropped] at hfirst
  simpa using hfirst

theorem strip_ne_nil {c : Char} {rest : List Char} (h : isSpace c = false) :
    strip (c :: rest) ≠ [] := by
  intro hnil
  have hsolid := solid_strip (c :: rest)
  rw [hnil] at hsolid
  simp [solid, h] at hsolid

theorem boundary_pos (hlimit : 0 < limit) : 0 < boundary limit remaining := by
  unfold boundary
  split
  · exact Nat.succ_pos _
  · exact hlimit

theorem boundary_le : boundary limit remaining ≤ limit := by
  unfold boundary
  split
  · rename_i i hfound
    have hmem := List.mem_of_find?_eq_some hfound
    rw [List.mem_reverse, List.mem_range, List.length_take] at hmem
    omega
  · exact le_rfl

/-- The fragments of a text: none is empty or too long, and together they have every character of
the text that is not blank, in its order. -/
structure FragmentsOf (value : List Char) (limit : ℕ) (fragments : List (List Char)) : Prop where
  nonempty : ∀ fragment ∈ fragments, fragment ≠ []
  within : ∀ fragment ∈ fragments, fragment.length ≤ limit
  solid : Meeting.solid fragments.flatten = Meeting.solid value

/-- The loop gets to its end in as many rounds as the text has characters, for every round takes
one at least. -/
theorem splitWithin_fragments (hlimit : 0 < limit) : ∀ rounds (remaining : List Char),
    Trimmed remaining → remaining.length ≤ rounds → ∃ fragments,
      splitWithin limit rounds remaining = some fragments ∧
      FragmentsOf remaining limit fragments := by
  intro rounds
  induction rounds with
  | zero =>
    intro remaining htrimmed hrounds
    obtain rfl : remaining = [] := List.length_eq_zero_iff.mp (Nat.le_zero.mp hrounds)
    exact ⟨[], by simp [splitWithin], by simp, by simp, rfl⟩
  | succ rounds ih =>
    intro remaining htrimmed hrounds
    rw [splitWithin]
    split_ifs with hshort hempty
    · exact ⟨[], rfl, by simp, by simp, by simp [hempty]⟩
    · exact ⟨[remaining], rfl, by simpa using hempty, by simpa using hshort, by simp⟩
    · have hpositive : 0 < boundary limit remaining := boundary_pos hlimit
      have hle : boundary limit remaining ≤ limit := boundary_le
      set cut := boundary limit remaining
      have hrest : (strip (remaining.drop cut)).length ≤ rounds := by
        have hstrip := length_strip_le (remaining.drop cut)
        rw [List.length_drop] at hstrip
        omega
      obtain ⟨fragments, hfragments, hnonempty, hwithin, hsolid⟩ :=
        ih _ (trimmed_strip _) hrest
      refine ⟨strip (remaining.take cut) :: fragments, by simp [hfragments], ?_, ?_, ?_⟩
      · refine List.forall_mem_cons.mpr ⟨?_, hnonempty⟩
        cases remaining with
        | nil => simp at hshort
        | cons c rest =>
          rw [← Nat.succ_pred_eq_of_pos hpositive, List.take_succ_cons]
          exact strip_ne_nil (htrimmed c rfl)
      · refine List.forall_mem_cons.mpr ⟨?_, hwithin⟩
        have hstrip := length_strip_le (remaining.take cut)
        rw [List.length_take] at hstrip
        omega
      · rw [List.flatten_cons, solid_append, hsolid, solid_strip, solid_strip, ← solid_append,
          List.take_append_drop]

theorem splitText_fragments (hlimit : 0 < limit) (value : List Char) :
    ∃ fragments, splitText value limit = some fragments ∧ FragmentsOf value limit fragments := by
  obtain ⟨fragments, hfragments, hnonempty, hwithin, hsolid⟩ :=
    splitWithin_fragments hlimit value.length _ (trimmed_strip value) (length_strip_le value)
  exact ⟨fragments, hfragments, hnonempty, hwithin, hsolid.trans (solid_strip value)⟩

variable {cfg : ProjectorConfig} {segments batch : List ProjectionSegment}

theorem charCount_cons (record : SegmentRecord) (request : List SegmentRecord) :
    charCount (record :: request) = record.displayText.length + charCount request :=
  List.sum_cons

theorem takeUpTo_prefix (count : ℕ) (segments : List ProjectionSegment) :
    takeUpTo limit count segments <+: segments := by
  induction segments generalizing count with
  | nil => exact List.nil_prefix
  | cons segment rest ih =>
    rw [takeUpTo]
    split_ifs
    · exact List.nil_prefix
    · exact List.cons_prefix_cons.mpr ⟨rfl, List.nil_prefix⟩
    · exact List.cons_prefix_cons.mpr ⟨rfl, ih _⟩

/-- What is taken after the first caption keeps within the limit. -/
theorem takeUpTo_within {count : ℕ} (hcount : 0 < count) (hwithin : count ≤ limit) :
    ∀ segments : List ProjectionSegment,
      count + charCount ((takeUpTo limit count segments).map ProjectionSegment.record) ≤ limit := by
  intro segments
  induction segments generalizing count with
  | nil => simpa [takeUpTo, charCount] using hwithin
  | cons segment rest ih =>
    rw [takeUpTo]
    split_ifs with hover hfull
    · simpa [charCount] using hwithin
    · rw [List.map_cons, charCount_cons]
      simp only [hcount, true_and, not_lt] at hover
      simpa [charCount] using hover
    · have hrest := ih (Nat.add_pos_left hcount _) (not_le.mp hfull).le
      rw [List.map_cons, charCount_cons]
      omega

theorem takeUpTo_cons (limit : ℕ) (segment : ProjectionSegment) (rest : List ProjectionSegment) :
    takeUpTo limit 0 (segment :: rest) = [segment] ∨
      ∃ more, takeUpTo limit 0 (segment :: rest) = segment :: more ∧
        charCount ((segment :: more).map ProjectionSegment.record) ≤ limit := by
  have hpositive : 0 < segment.record.displayText.length := segment.valid.2.2.2.2.1
  rw [takeUpTo]
  simp only [lt_self_iff_false, false_and, if_false, zero_add]
  split_ifs with hfull
  · exact .inl rfl
  · refine .inr ⟨_, rfl, ?_⟩
    rw [List.map_cons, charCount_cons]
    exact takeUpTo_within hpositive (not_le.mp hfull).le rest

/-- The batch of a buffer: the first of its captions in order, within what the model takes unless
it is one caption that is longer. -/
structure BatchOf (cfg : ProjectorConfig) (segments batch : List ProjectionSegment) : Prop where
  nonempty : batch ≠ []
  first : batch <+: segments.insertionSort ProjectionSegment.Before
  within : charCount (batch.map ProjectionSegment.record) ≤ cfg.maxInputChars ∨
    Oversized cfg batch

theorem selectBatch_batchOf (hsegments : segments ≠ []) :
    BatchOf cfg segments (selectBatch cfg segments) := by
  unfold selectBatch
  have hordered : segments.insertionSort ProjectionSegment.Before ≠ [] := by
    rw [← List.length_pos_iff, List.length_insertionSort]
    exact List.length_pos_iff.mpr hsegments
  obtain ⟨segment, rest, hcons⟩ := List.exists_cons_of_ne_nil hordered
  refine ⟨?_, takeUpTo_prefix .., ?_⟩
  · rw [hcons]
    rcases takeUpTo_cons cfg.maxInputChars segment rest with h | ⟨more, h, -⟩ <;> simp [h]
  · rw [hcons]
    rcases takeUpTo_cons cfg.maxInputChars segment rest with h | ⟨more, h, hwithin⟩
    · rw [h]
      rcases le_or_gt segment.record.displayText.length cfg.maxInputChars with hshort | hlong
      · exact .inl (by simpa [charCount] using hshort)
      · exact .inr hlong
    · rw [h]
      exact .inl hwithin

/-- What is sent for a batch: the batch as it is, or one long caption in its fragments; either
way no request is longer than the model takes. -/
structure SentFor (cfg : ProjectorConfig) (batch : List ProjectionSegment)
    (requests : List (List SegmentRecord)) : Prop where
  within : ∀ request ∈ requests, charCount request ≤ cfg.maxInputChars
  whole_or_split : requests = [batch.map ProjectionSegment.record] ∨
    ∃ segment fragments, batch = [segment] ∧
      FragmentsOf segment.record.displayText.toList cfg.maxInputChars fragments ∧
      requests = fragments.map fun fragment =>
        [{ segment.record with
          rawText := String.ofList fragment, displayText := String.ofList fragment }]

theorem extractRequests_sentFor (hlimit : 0 < cfg.maxInputChars)
    (hbatch : BatchOf cfg segments batch) :
    ∃ requests, extractRequests cfg batch = some requests ∧ SentFor cfg batch requests := by
  obtain ⟨hnonempty, -, hwithin⟩ := hbatch
  match batch with
  | [] => exact absurd rfl hnonempty
  | [segment] =>
    rw [extractRequests]
    split_ifs with hshort
    · exact ⟨_, rfl, by simpa [charCount] using hshort, .inl rfl⟩
    · obtain ⟨fragments, hfragments, hof⟩ :=
        splitText_fragments hlimit segment.record.displayText.toList
      refine ⟨_, by rw [hfragments]; rfl, ?_, .inr ⟨segment, fragments, rfl, hof, rfl⟩⟩
      intro request hrequest
      obtain ⟨fragment, hfragment, rfl⟩ := List.mem_map.mp hrequest
      simpa [charCount] using hof.within fragment hfragment
  | first :: second :: rest =>
    refine ⟨_, rfl, ?_, .inl rfl⟩
    rcases hwithin with hwithin | hlong
    · simpa using hwithin
    · exact hlong.elim

/-- Every buffer with captions gives a batch, for which only requests are sent that the model takes;
and the loop that cuts a text ends for each, with its fragments. -/
theorem batches_sent (hlimit : 0 < limit) :
    (∀ cfg : ProjectorConfig, cfg.maxInputChars = limit → ∀ segments ≠ [],
      BatchOf cfg segments (selectBatch cfg segments) ∧
      ∃ requests, extractRequests cfg (selectBatch cfg segments) = some requests ∧
        SentFor cfg (selectBatch cfg segments) requests) ∧
    ∀ value, ∃ fragments, splitText value limit = some fragments ∧
      FragmentsOf value limit fragments := by
  refine ⟨fun cfg hcfg segments hsegments => ?_, splitText_fragments hlimit⟩
  have hbatch : BatchOf cfg segments (selectBatch cfg segments) := selectBatch_batchOf hsegments
  exact ⟨hbatch, extractRequests_sentFor (hcfg ▸ hlimit) hbatch⟩

theorem batches_sent_three :
    splitText "ab cdefg  h".toList 3 = some ["ab".toList, "cde".toList, "fg".toList, "h".toList] ∧
    ∃ fragments, splitText "ab cdefg  h".toList 3 = some fragments ∧
      FragmentsOf "ab cdefg  h".toList 3 fragments :=
  ⟨by decide, (batches_sent (by decide)).2 _⟩

end Meeting
end Matinier
