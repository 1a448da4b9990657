import Mathlib.Data.Int.ConditionallyCompleteOrder
import Matinier.Captions.CueContent

/-!
# The room and the time of caption cues

A line is measured before it is trimmed. It fits on the screen as long as it is not the space at
its beginning that keeps it narrow, and a line begins with a space only where that carries a mark
of the caption. The times of the cues follow each other from the start of the caption to its end.
-/

namespace Matinier
namespace CaptionCues

/-- A text that does not begin with a space. -/
def Started (text : Text) : Prop := ∀ c ∈ text.head?, isSpace c = false

theorem started_nil : Started [] := nofun

theorem Started.trimStart_eq {text : Text} (h : Started text) : trimStart text = text := by
  cases text with
  | nil => rfl
  | cons c text =>
    have hc : isSpace c = false := h c rfl
    rw [trimStart, List.dropWhile_cons, if_neg (by simp [hc])]

theorem started_trimStart (text : Text) : Started (trimStart text) := by
  intro c hc
  have hnone := List.head?_dropWhile_not isSpace text
  rw [show List.head? (List.dropWhile isSpace text) = some c from hc] at hnone
  simpa using hnone

theorem Started.of_append {a b : Text} (h : Started (a ++ b)) : Started a := by
  cases a with
  | nil => exact started_nil
  | cons c a => exact h

theorem Started.trimEnd {text : Text} (h : Started text) : Started (trimEnd text) := by
  obtain ⟨spaces, htext, -⟩ := trimEnd_append text
  rw [htext] at h
  exact h.of_append

theorem started_trim (text : Text) : Started (trim text) := (started_trimStart text).trimEnd

theorem started_of_mem_pushTrimmed {text line : Text} (h : line ∈ pushTrimmed text) :
    Started line := by
  unfold pushTrimmed at h
  split_ifs at h
  · cases h
  · rw [List.mem_singleton.mp h]
    exact started_trim text

theorem Started.trimEnd_append {text : Text} (h : Started text) (hne : text ≠ []) (rest : Text) :
    Started (CaptionCues.trimEnd text ++ rest) := by
  obtain ⟨spaces, htext, hspaces⟩ := CaptionCues.trimEnd_append text
  cases htrim : CaptionCues.trimEnd text with
  | nil =>
    rw [htrim, List.nil_append] at htext
    obtain ⟨c, text', rfl⟩ := List.exists_cons_of_ne_nil hne
    have hspace : isSpace c = true :=
      List.all_eq_true.mp hspaces c (htext ▸ List.mem_cons_self)
    rw [h c rfl] at hspace
    cases hspace
  | cons c text' =>
    rw [htrim] at htext
    rw [htext] at h
    exact h

theorem started_joinText {left right : Text} (language : String) (hleft : Started left)
    (hright : Started right) : Started (joinText left right language) := by
  unfold joinText
  split_ifs with hl
  · exact hright
  · exact hleft
  · exact hleft.trimEnd_append hl _
  · exact hleft.trimEnd_append hl _

theorem started_foldl_joinText (language : String) {start : Text} {lines : List Text}
    (hstart : Started start) (hlines : ∀ line ∈ lines, Started line) :
    Started (lines.foldl (fun current line => joinText current line language) start) := by
  induction lines generalizing start with
  | nil => exact hstart
  | cons line lines ih =>
    rw [List.foldl_cons]
    exact ih (started_joinText language hstart (hlines line List.mem_cons_self))
      fun other hother => hlines other (List.mem_cons_of_mem line hother)

section Widths

variable {platform : Platform} {segmentation : Segmentation platform.isExtending}
  {profile : CaptionLayoutProfile}

/-- A line is no wider than it may be, or has one grapheme, without the space around it. -/
def LineFits (segmentation : Segmentation platform.isExtending) (profile : CaptionLayoutProfile)
    (line : Text) : Prop :=
  profile.measureText line ≤ profile.maxLineWidthPx ∨
    ∃ text part, part ∈ segmentation.segments text ∧ line = trim part

/-- A width grows with what is appended to a text. -/
def Appending (profile : CaptionLayoutProfile) : Prop :=
  ∀ a b, profile.measureText a ≤ profile.measureText (a ++ b)

/-- A space that carries a mark of the caption makes no text narrower. -/
def MeasuresTrimmed (platform : Platform) (profile : CaptionLayoutProfile) (source : Text) : Prop :=
  ∀ space mark rest, isSpace space = true → platform.isExtending mark = true → mark ∈ source →
    profile.measureText (mark :: rest) ≤ profile.measureText (space :: mark :: rest)

variable (profile) in
theorem fittingFrom_fits (candidate : Text) (parts : List Text) (count : ℕ) (hpos : 0 < count)
    (hcount : count ≤ fittingFrom profile candidate parts) :
    profile.measureText (candidate ++ (parts.take count).flatten) ≤ profile.maxLineWidthPx := by
  induction parts generalizing candidate count with
  | nil =>
    rw [fittingFrom] at hcount
    omega
  | cons part parts ih =>
    unfold fittingFrom at hcount
    split_ifs at hcount with hwide
    · omega
    · obtain ⟨count, rfl⟩ := Nat.exists_eq_succ_of_ne_zero (Nat.ne_of_gt hpos)
      rw [List.take_succ_cons, List.flatten_cons, ← List.append_assoc]
      rcases Nat.eq_zero_or_pos count with rfl | hmore
      · rw [List.take_zero, List.flatten_nil, List.append_nil]
        exact not_lt.mp hwide
      · exact ih (candidate ++ part) count hmore (by omega)

/-- A text that begins without a space, or with one that carries a mark of the caption. -/
def Led (platform : Platform) (source text : Text) : Prop :=
  Started text ∨ ∃ space mark rest, text = space :: mark :: rest ∧ isSpace space = true ∧
    platform.isExtending mark = true ∧ mark ∈ source

theorem Led.append {source text : Text} (h : Led platform source text) (hne : text ≠ [])
    (rest : Text) : Led platform source (text ++ rest) := by
  rcases h with hstarted | ⟨space, mark, more, rfl, hspace, hmark, hmem⟩
  · left
    cases text with
    | nil => exact absurd rfl hne
    | cons c text => exact hstarted
  · exact .inr ⟨space, mark, more ++ rest, rfl, hspace, hmark, hmem⟩

/-- The parts of a line: a part that is no space is led, and so is the first one. -/
def Clean (platform : Platform) (source : Text) (parts : List Text) : Prop :=
  (∀ part ∈ parts, Led platform source part ∨ part.all isSpace = true) ∧
    ∀ part ∈ parts.head?, Led platform source part

theorem Clean.rest {source : Text} {parts : List Text} (h : Clean platform source parts)
    (count : ℕ) (hne : [] ∉ parts) :
    Clean platform source (trimLeadingBoundaryWhitespace (parts.drop count)) := by
  have hsub : ∀ part ∈ trimLeadingBoundaryWhitespace (parts.drop count), part ∈ parts :=
    fun part hpart => List.mem_of_mem_drop ((List.dropWhile_sublist _).subset hpart)
  refine ⟨fun part hpart => h.1 part (hsub part hpart), fun part hhead => ?_⟩
  have hpart : part ∈ parts := hsub part (List.mem_of_mem_head? hhead)
  have hnot := List.head?_dropWhile_not (fun part => !part.isEmpty && part.all isSpace)
    (parts.drop count)
  rw [show List.head? (List.dropWhile (fun part => !part.isEmpty && part.all isSpace)
    (parts.drop count)) = some part from hhead] at hnot
  have hempty : part.isEmpty = false := by
    cases part with
    | nil => exact absurd hpart hne
    | cons c part => rfl
  have hseen : part.all isSpace = false := by simpa [hempty] using hnot
  exact (h.1 part hpart).resolve_right (by rw [hseen]; exact Bool.false_ne_true)

theorem measure_trim_le (hgrows : Appending profile) {source text : Text}
    (hmeasures : MeasuresTrimmed platform profile source) (h : Led platform source text) :
    profile.measureText (trim text) ≤ profile.measureText text := by
  obtain ⟨spaces, htext, -⟩ := trimEnd_append (trimStart text)
  calc profile.measureText (trim text)
      ≤ profile.measureText (trimEnd (trimStart text) ++ spaces) := hgrows _ _
    _ = profile.measureText (trimStart text) := by rw [← htext]
    _ ≤ profile.measureText text := by
      rcases h with hstarted | ⟨space, mark, rest, rfl, hspace, hmark, hmem⟩
      · rw [hstarted.trimStart_eq]
      · rw [trimStart, List.dropWhile_cons_of_pos hspace,
          List.dropWhile_cons_of_neg (by rw [platform.extending_seen mark hmark]; decide)]
        exact hmeasures space mark rest hspace hmark hmem

theorem wrapParts_fits (hgrows : Appending profile) {source : Text}
    (hmeasures : MeasuresTrimmed platform profile source) (allowShortStrongMerge : Bool)
    (parts : List Text) (hparts : ∀ part ∈ parts, ∃ text, part ∈ segmentation.segments text)
    (hclean : Clean platform source parts) :
    ∀ line ∈ wrapParts platform profile allowShortStrongMerge parts,
      LineFits segmentation profile line := by
  induction parts using wrapParts.induct platform profile allowShortStrongMerge with
  | case1 =>
    rw [wrapParts]
    exact List.forall_mem_nil _
  | case2 part parts taken ih =>
    have hne : [] ∉ part :: parts := by
      intro hnil
      obtain ⟨text, hmem⟩ := hparts [] hnil
      exact segmentation.nonempty text hmem
    rw [wrapParts]
    intro line hline
    rcases List.mem_append.mp hline with hline | hline
    · have heq : line = trim ((part :: parts).take taken).flatten := by
        unfold pushTrimmed at hline
        split_ifs at hline
        · cases hline
        · exact List.mem_singleton.mp hline
      rw [heq]
      have hle := breakIndex_le platform profile (part :: parts) allowShortStrongMerge
      have hpos := breakIndex_pos platform profile (part :: parts) allowShortStrongMerge
      rcases Nat.eq_zero_or_pos (fittingGraphemeCount profile (part :: parts)) with hnone | hsome
      · -- nothing fits, and the line takes one part
        have hone : taken = 1 := by
          rw [hnone] at hle
          exact Nat.le_antisymm hle hpos
        obtain ⟨text, hmem⟩ := hparts part List.mem_cons_self
        refine .inr ⟨text, part, hmem, ?_⟩
        rw [hone, List.take_succ_cons, List.take_zero, List.flatten_singleton]
      · left
        have hfits := fittingFrom_fits profile [] (part :: parts) taken hpos
          (by rw [Nat.max_eq_right hsome] at hle; exact hle)
        apply le_trans _ hfits
        apply measure_trim_le hgrows hmeasures
        obtain ⟨count, hcount⟩ := Nat.exists_eq_add_of_le' hpos
        rw [show taken = count + 1 from hcount, List.take_succ_cons, List.flatten_cons]
        exact (hclean.2 part rfl).append (fun heq => hne (heq ▸ List.mem_cons_self)) _
    · apply ih _ _ line hline
      · intro other hother
        exact hparts other (List.mem_of_mem_drop ((List.dropWhile_sublist _).subset hother))
      · exact hclean.rest taken hne

/-- A text that begins without a space, and shows nothing else than the caption. -/
structure PartOf (source text : Text) : Prop where
  started : Started text
  source : ∀ c ∈ seen text, c ∈ source

/-- A grapheme begins without a space, is a space, or is one that carries a mark. -/
theorem segments_clean {source text : Text} (h : PartOf source text) :
    Clean platform source (segmentation.segments text) := by
  constructor
  · intro part hpart
    match part, hpart with
    | [], hpart => exact absurd hpart (segmentation.nonempty text)
    | [c], _ =>
      cases hspace : isSpace c with
      | false => exact .inl (.inl fun d hd => by rw [← Option.some.inj hd, hspace])
      | true => exact .inr (by simp [hspace])
    | c :: d :: rest, hpart =>
      cases hspace : isSpace c with
      | false => exact .inl (.inl fun e he => by rw [← Option.some.inj he, hspace])
      | true =>
        rcases segmentation.joins text c d rest hpart hspace with hmark | ⟨hd, rfl⟩
        · have htext : d ∈ text := by
            rw [← segmentation.flatten_segments text]
            exact List.mem_flatten.mpr ⟨_, hpart, by simp⟩
          have hseen : d ∈ seen text :=
            List.mem_filter.mpr ⟨htext, by rw [platform.extending_seen d hmark]; rfl⟩
          exact .inl (.inr ⟨c, d, rest, rfl, hspace, hmark, h.source d hseen⟩)
        · exact .inr (by simp [hspace, hd])
  · intro part hhead
    have hstarted := h.started
    rw [← segmentation.flatten_segments text] at hstarted
    obtain ⟨rest, hsegments⟩ := List.head?_eq_some_iff.mp hhead
    rw [hsegments, List.flatten_cons] at hstarted
    exact .inl hstarted.of_append

theorem wrapText_fits (hgrows : Appending profile) {source text : Text}
    (hmeasures : MeasuresTrimmed platform profile source) (h : PartOf source text)
    (allowShortStrongMerge : Bool) :
    ∀ line ∈ wrapText platform segmentation profile text allowShortStrongMerge,
      LineFits segmentation profile line := by
  apply wrapParts_fits hgrows hmeasures
  · exact fun part hpart => ⟨text, hpart⟩
  · exact segments_clean h

theorem started_of_mem_wrapParts (allowShortStrongMerge : Bool) (parts : List Text) :
    ∀ line ∈ wrapParts platform profile allowShortStrongMerge parts, Started line := by
  induction parts using wrapParts.induct platform profile allowShortStrongMerge with
  | case1 =>
    rw [wrapParts]
    exact List.forall_mem_nil _
  | case2 part parts taken ih =>
    rw [wrapParts]
    intro line hline
    rcases List.mem_append.mp hline with hline | hline
    · exact started_of_mem_pushTrimmed hline
    · exact ih line hline

theorem length_of_mem_linesBy {count : ℕ} (hpos : 0 < count) (lines : List Text) :
    ∀ group ∈ linesBy count lines, group.length ≤ count := by
  induction lines using linesBy.induct count with
  | case1 =>
    rw [linesBy]
    exact List.forall_mem_nil _
  | case2 line lines ih =>
    rw [linesBy]
    intro group hgroup
    rcases List.mem_cons.mp hgroup with rfl | hgroup
    · rw [List.length_cons, List.length_take]
      omega
    · exact ih group hgroup

/-- A cue as it is shown. -/
structure RawCue.Fits (segmentation : Segmentation platform.isExtending)
    (profile : CaptionLayoutProfile) (source : Text) (cue : RawCue) : Prop where
  lines : ∀ line ∈ cue.lines, LineFits segmentation profile line
  count : cue.lines.length ≤ profile.maxLines
  part : PartOf source cue.text

variable {language : String} {source : Text}

theorem mem_seen_flatten {texts : List Text} {text : Text} (h : text ∈ texts) :
    ∀ c ∈ seen text, c ∈ seen texts.flatten := by
  intro c hc
  rw [seen_flatten]
  exact List.mem_flatten.mpr ⟨seen text, List.mem_map_of_mem h, hc⟩

theorem rawCuesForSpan_fits (hgrows : Appending profile)
    (hmeasures : MeasuresTrimmed platform profile source) {span : Text} (h : PartOf source span) :
    ∀ cue ∈ rawCuesForSpan platform segmentation profile language span,
      cue.Fits segmentation profile source := by
  intro cue hcue
  obtain ⟨group, hgroup, rfl⟩ := List.mem_map.mp hcue
  have hwrapped : ∀ line ∈ group, line ∈ wrapText platform segmentation profile span false := by
    intro line hline
    rw [← flatten_linesBy profile.maxLines (wrapText platform segmentation profile span false)]
    exact List.mem_flatten.mpr ⟨group, hgroup, hline⟩
  refine ⟨fun line hline => ?_, length_of_mem_linesBy profile.lines_pos _ group hgroup, ?_, ?_⟩
  · exact wrapText_fits hgrows hmeasures h false line (hwrapped line hline)
  · exact started_foldl_joinText language started_nil fun line hline =>
      started_of_mem_wrapParts false _ line (hwrapped line hline)
  · intro c hc
    rw [seen_foldl_joinText, seen_nil, List.nil_append] at hc
    obtain ⟨hmem, hseen⟩ := List.mem_filter.mp hc
    obtain ⟨line, hline, hmem⟩ := List.mem_flatten.mp hmem
    have hall := mem_seen_flatten (hwrapped line hline) c (List.mem_filter.mpr ⟨hmem, hseen⟩)
    rw [seen_wrapText] at hall
    exact h.source c hall

theorem mergedAt_fits (hgrows : Appending profile)
    (hmeasures : MeasuresTrimmed platform profile source) {cues cues' : List RawCue} {index : ℕ}
    (hmerged : mergedAt platform segmentation profile language cues index = some cues')
    (h : ∀ cue ∈ cues, cue.Fits segmentation profile source) :
    ∀ cue ∈ cues', cue.Fits segmentation profile source := by
  obtain ⟨left, right, merged, hcues, htry, rfl⟩ := mergedAt_eq_some hmerged
  have hleft : left.Fits segmentation profile source := h left (by rw [hcues]; simp)
  have hright : right.Fits segmentation profile source := h right (by rw [hcues]; simp)
  intro cue hcue
  rcases List.mem_append.mp hcue with hbefore | hafter
  · exact h cue (List.mem_of_mem_take hbefore)
  · rcases List.mem_cons.mp hafter with rfl | hbehind
    · unfold tryMergedCue at htry
      dsimp only at htry
      split_ifs at htry with hcount
      cases htry
      have hpart : PartOf source (joinText left.text right.text language) := by
        refine ⟨started_joinText language hleft.part.started hright.part.started, ?_⟩
        intro c hc
        rw [seen_joinText] at hc
        rcases List.mem_append.mp hc with hc | hc
        · exact hleft.part.source c hc
        · exact hright.part.source c hc
      exact ⟨wrapText_fits hgrows hmeasures hpart true, not_lt.mp hcount, hpart⟩
    · exact h cue (List.mem_of_mem_drop hbehind)

theorem started_of_mem_packTokens (maxUnits : ℕ) (pending : Text) (pendingUnits : ℕ)
    (tokens : List Text) :
    ∀ chunk ∈ packTokens platform segmentation maxUnits pending pendingUnits tokens,
      Started chunk := by
  induction tokens generalizing pending pendingUnits with
  | nil =>
    rw [packTokens]
    exact fun chunk => started_of_mem_pushTrimmed
  | cons token tokens ih =>
    unfold packTokens
    dsimp only
    split_ifs
    · intro chunk hchunk
      rcases List.mem_cons.mp hchunk with rfl | hchunk
      · exact started_trim pending
      · exact ih _ _ chunk hchunk
    · exact ih _ _

theorem started_of_mem_packPieces (maxUnits : ℕ) (pending : Text) (pendingUnits : ℕ)
    (pieces : List Text) :
    ∀ chunk ∈ packPieces platform segmentation language maxUnits pending pendingUnits pieces,
      Started chunk := by
  induction pieces generalizing pending pendingUnits with
  | nil =>
    rw [packPieces]
    exact fun chunk => started_of_mem_pushTrimmed
  | cons piece pieces ih =>
    unfold packPieces
    dsimp only
    split_ifs
    · intro chunk hchunk
      rcases List.mem_append.mp hchunk with hchunk | hchunk
      · rcases List.mem_append.mp hchunk with hchunk | hchunk
        · exact started_of_mem_pushTrimmed hchunk
        · exact started_of_mem_packTokens _ _ _ _ chunk hchunk
      · exact ih _ _ chunk hchunk
    · intro chunk hchunk
      rcases List.mem_append.mp hchunk with hchunk | hchunk
      · exact started_of_mem_pushTrimmed hchunk
      · exact ih _ _ chunk hchunk
    · exact ih _ _

theorem splitCue_fits (hgrows : Appending profile)
    (hmeasures : MeasuresTrimmed platform profile source) (maxUnits : ℕ) {cue : RawCue}
    (h : cue.Fits segmentation profile source) :
    ∀ piece ∈ splitCue platform segmentation profile language maxUnits cue,
      piece.Fits segmentation profile source := by
  unfold splitCue
  split_ifs
  · intro piece hpiece
    rw [List.mem_singleton.mp hpiece]
    exact h
  · intro piece hpiece
    obtain ⟨chunk, hchunk, hpiece⟩ := List.mem_flatMap.mp hpiece
    apply rawCuesForSpan_fits hgrows hmeasures _ piece hpiece
    refine ⟨started_of_mem_packPieces _ _ _ _ chunk hchunk, fun c hc => ?_⟩
    have hall := mem_seen_flatten hchunk c hc
    rw [seen_packPieces, seen_nil, List.nil_append] at hall
    exact h.part.source c (((matchedSpans_sublist _ _ cue.text).filter _).subset hall)

variable (language) in
theorem splitForReadingPressure_fits (hgrows : Appending profile)
    (hmeasures : MeasuresTrimmed platform profile source) {cues : List RawCue}
    (start stop : Option ℤ) (h : ∀ cue ∈ cues, cue.Fits segmentation profile source) :
    ∀ cue ∈ splitForReadingPressure platform segmentation profile language cues start stop,
      cue.Fits segmentation profile source := by
  unfold splitForReadingPressure
  split
  · exact h
  · intro piece hpiece
    obtain ⟨cue, hcue, hpiece⟩ := List.mem_flatMap.mp hpiece
    exact splitCue_fits hgrows hmeasures _ (h cue hcue) piece hpiece

variable (segmentation) in
theorem rawCues_fits (hgrows : Appending profile) {caption : CaptionCueInput}
    (hmeasures : MeasuresTrimmed platform profile caption.text) :
    ∀ cue ∈ rawCues platform segmentation profile caption,
      cue.Fits segmentation profile caption.text := by
  apply mergeFrom_rule fun _ _ _ => mergedAt_fits hgrows hmeasures
  intro cue hcue
  obtain ⟨sentence, hsentence, hcue⟩ := List.mem_flatMap.mp hcue
  apply rawCuesForSpan_fits hgrows hmeasures _ cue hcue
  constructor
  · obtain ⟨span, -, hspan⟩ := List.mem_flatMap.mp hsentence
    exact started_of_mem_pushTrimmed hspan
  · intro c hc
    have hall := (seen_sentenceSpans_sublist (normalizeText caption.text)).subset
      (mem_seen_flatten hsentence c hc)
    rw [seen_normalizeText] at hall
    exact List.mem_of_mem_filter hall

end Widths

/-- Times that follow each other from one time to another. -/
def Covers (first last : ℤ) : List (Option ℤ × Option ℤ) → Prop
  | [] => first = last
  | time :: times => ∃ stop, time = (some first, some stop) ∧ first ≤ stop ∧ Covers stop last times

/-- The times of weights that end at a time which grows with the weight so far. -/
theorem timesFrom_covers {timeOf : ℕ → ℤ} {total : ℕ} {last : ℤ} (hmono : Monotone timeOf)
    (hlast : ∀ consumed ≤ total, timeOf consumed ≤ last) (first : ℤ) (consumed : ℕ)
    (weights : List ℕ) (hne : weights ≠ []) (hfirst : ∀ more ≥ consumed, first ≤ timeOf more)
    (hbound : first ≤ last) (htotal : consumed + weights.sum ≤ total) :
    Covers first last ((timesFrom timeOf last first consumed weights).map
      fun time => (some time.1, some time.2)) := by
  induction weights generalizing first consumed with
  | nil => exact absurd rfl hne
  | cons weight weights ih =>
    cases weights with
    | nil => exact ⟨last, rfl, hbound, rfl⟩
    | cons other weights =>
      rw [List.sum_cons] at htotal
      have hconsumed : timeOf (consumed + weight) ≤ last := hlast _ (by omega)
      refine ⟨timeOf (consumed + weight), rfl, hfirst _ (by omega), ?_⟩
      exact ih _ _ (List.cons_ne_nil other weights) (fun more hmore => hmono hmore) hconsumed
        (by omega)

theorem length_timesFrom (timeOf : ℕ → ℤ) (last first : ℤ) (consumed : ℕ) (weights : List ℕ) :
    (timesFrom timeOf last first consumed weights).length = weights.length := by
  induction weights generalizing first consumed with
  | nil => rfl
  | cons weight weights ih =>
    cases weights with
    | nil => rfl
    | cons other weights =>
      rw [timesFrom, List.length_cons, List.length_cons]
      exact congrArg Nat.succ (ih _ _)
      exact List.cons_ne_nil other weights

section Times

variable (platform : Platform)

theorem timeAt_mono {start duration : ℚ} (hduration : 0 ≤ duration) (total : ℕ) :
    Monotone (timeAt platform start duration total) := by
  intro a b hab
  unfold timeAt
  apply Int.floor_mono
  have hshare : (a : ℚ) / total ≤ (b : ℚ) / total :=
    div_le_div_of_nonneg_right (Nat.cast_le.mpr hab) (Nat.cast_nonneg total)
  have hpart := platform.nearest_mono
    (mul_le_mul_of_nonneg_left (platform.nearest_mono hshare) hduration)
  have hsum : start + platform.nearest (duration * platform.nearest (a / total)) ≤
      start + platform.nearest (duration * platform.nearest (b / total)) := by linarith
  have hround := platform.nearest_mono hsum
  linarith

/-- Integers up to `2 ^ 53` are numbers. -/
theorem nearest_sub {start stop : ℤ} (hstart : 0 ≤ start) (hle : start ≤ stop)
    (hstop : stop ≤ 2 ^ 53) : platform.nearest (stop - start) = stop - start := by
  have h := platform.nearest_int (stop - start) (by rw [abs_of_nonneg (by omega)]; omega)
  rwa [Int.cast_sub] at h

theorem le_timeAt {start stop : ℤ} (hstart : 0 ≤ start) (hle : start ≤ stop)
    (hstop : stop ≤ 2 ^ 53) (total consumed : ℕ) :
    start ≤ timeAt platform start (stop - start) total consumed := by
  have hzero : platform.nearest 0 = 0 := by
    have h := platform.nearest_int 0 (by simp)
    rwa [Int.cast_zero] at h
  have hself : platform.nearest start = start :=
    platform.nearest_int start (by rw [abs_of_nonneg hstart]; omega)
  have hduration : (0 : ℚ) ≤ stop - start := by
    have h : (start : ℚ) ≤ stop := Int.cast_le.mpr hle
    linarith
  have hshare : 0 ≤ platform.nearest ((consumed : ℚ) / total) := by
    rw [← hzero]
    exact platform.nearest_mono (by positivity)
  have hpart : 0 ≤ platform.nearest
    ((stop - start) * platform.nearest ((consumed : ℚ) / total)) := by
    conv_lhs => rw [← hzero]
    exact platform.nearest_mono (mul_nonneg hduration hshare)
  have hround : (start : ℚ) ≤ platform.nearest (start +
      platform.nearest ((stop - start) * platform.nearest ((consumed : ℚ) / total))) := by
    conv_lhs => rw [← hself]
    exact platform.nearest_mono (by linarith)
  unfold timeAt
  exact Int.le_floor.mpr (by linarith)

theorem timeAt_le {start stop : ℤ} (hstart : 0 ≤ start) (hle : start ≤ stop)
    (hstop : stop ≤ 2 ^ 53) {total consumed : ℕ} (hconsumed : consumed ≤ total) :
    timeAt platform start (stop - start) total consumed ≤ stop := by
  have hone : platform.nearest 1 = 1 := by
    have h := platform.nearest_int 1 (by simp)
    rwa [Int.cast_one] at h
  have hself : platform.nearest stop = stop :=
    platform.nearest_int stop (by rw [abs_of_nonneg (by omega)]; omega)
  have hduration : (0 : ℚ) ≤ stop - start := by
    have h : (start : ℚ) ≤ stop := Int.cast_le.mpr hle
    linarith
  have hshare : platform.nearest ((consumed : ℚ) / total) ≤ 1 := by
    conv_rhs => rw [← hone]
    exact platform.nearest_mono (div_le_one_of_le₀ (Nat.cast_le.mpr hconsumed) (Nat.cast_nonneg _))
  have hpart : platform.nearest ((stop - start) * platform.nearest ((consumed : ℚ) / total)) ≤
      stop - start := by
    conv_rhs => rw [← nearest_sub platform hstart hle hstop]
    exact platform.nearest_mono (mul_le_of_le_one_right hduration hshare)
  have hround : platform.nearest (start +
      platform.nearest ((stop - start) * platform.nearest ((consumed : ℚ) / total))) ≤ stop := by
    conv_rhs => rw [← hself]
    exact platform.nearest_mono (by linarith)
  unfold timeAt
  apply Int.le_of_lt_add_one
  rw [Int.floor_lt, Int.cast_add, Int.cast_one]
  linarith

variable {platform} {segmentation : Segmentation platform.isExtending}

variable (segmentation) in
theorem allocateCueTimes_covers {cues : List RawCue} (hne : cues ≠ []) {start stop : ℤ}
    (hstart : 0 ≤ start) (hle : start ≤ stop) (hstop : stop ≤ 2 ^ 53) :
    Covers start stop (allocateCueTimes platform segmentation cues (some start) (some stop)) := by
  have hduration : (0 : ℚ) ≤ stop - start := by
    have h : (start : ℚ) ≤ stop := Int.cast_le.mpr hle
    linarith
  unfold allocateCueTimes
  dsimp only
  rw [if_neg (not_lt.mpr hle), nearest_sub platform hstart hle hstop]
  apply timesFrom_covers (timeAt_mono platform hduration _)
  · exact fun consumed hconsumed => timeAt_le platform hstart hle hstop hconsumed
  · rwa [Ne, List.map_eq_nil_iff]
  · exact fun more _ => le_timeAt platform hstart hle hstop _ more
  · exact hle
  · exact Nat.le_of_eq (Nat.zero_add _)

theorem length_allocateCueTimes (cues : List RawCue) (start stop : Option ℤ) :
    (allocateCueTimes platform segmentation cues start stop).length = cues.length := by
  unfold allocateCueTimes
  split
  · dsimp only
    split_ifs
    · exact List.length_map _
    · rw [List.length_map, length_timesFrom, List.length_map]
  · exact List.length_map _

end Times

def CaptionDisplayCue.time (cue : CaptionDisplayCue) : Option ℤ × Option ℤ :=
  (cue.audioStartMs, cue.audioEndMs)

/-- The cues of a caption show all that is seen of it, they fit on the screen, and they share its
time. -/
structure Shown (platform : Platform) (profile : CaptionLayoutProfile) (caption : CaptionCueInput)
    (cues : List CaptionDisplayCue) : Prop where
  text : displayed cues = seen caption.text
  count : ∀ cue ∈ cues, cue.lines.length ≤ profile.maxLines
  lines : ∀ cue ∈ cues, ∀ line ∈ cue.lines,
    profile.measureText line ≤ profile.maxLineWidthPx ∨
      ∃ segmentation, platform.segmentation caption.language = some segmentation ∧
        ∃ text part, part ∈ segmentation.segments text ∧ line = trim part
  times : ∀ start stop, caption.audioStartMs = some start → caption.audioEndMs = some stop →
    0 ≤ start → start ≤ stop → stop ≤ 2 ^ 53 → seen caption.text ≠ [] →
      Covers start stop (cues.map CaptionDisplayCue.time)

/-- The language of a caption is known where it has a sentence, and no boundary of the caption is
left out. -/
def KeepsAll (platform : Platform) (profile : CaptionLayoutProfile) (caption : CaptionCueInput) :
    Prop :=
  coversAll isStrongBoundary (fun c => !isSpace c) (normalizeText caption.text) = true ∧
    (sentenceSpans (normalizeText caption.text) ≠ [] →
      ∃ segmentation, platform.segmentation caption.language = some segmentation ∧
        ReadsWhole platform segmentation profile (rawCues platform segmentation profile caption)
          caption.audioStartMs caption.audioEndMs)

theorem Covers.known {first last : ℤ} {times : List (Option ℤ × Option ℤ)}
    (h : Covers first last times) : ∀ time ∈ times, ∃ start stop,
      time = (some start, some stop) := by
  induction times generalizing first with
  | nil => nofun
  | cons time times ih =>
    obtain ⟨stop, htime, -, hrest⟩ := h
    intro other hother
    rcases List.mem_cons.mp hother with rfl | hother
    · exact ⟨first, stop, htime⟩
    · exact ih hrest other hother

section Captions

variable {platform : Platform} {profile : CaptionLayoutProfile}

theorem displayCues_fits (segmentation : Segmentation platform.isExtending)
    (hgrows : Appending profile) (captionIndex : ℕ) {caption : CaptionCueInput}
    (hmeasures : MeasuresTrimmed platform profile caption.text) :
    ∀ cue ∈ displayCues platform segmentation profile captionIndex caption,
      cue.lines.length ≤ profile.maxLines ∧
        ∀ line ∈ cue.lines, LineFits segmentation profile line := by
  intro cue hcue
  obtain ⟨i, hi, rfl⟩ := List.exists_of_mem_mapIdx hcue
  have hfits := splitForReadingPressure_fits caption.language hgrows hmeasures
    caption.audioStartMs caption.audioEndMs (rawCues_fits segmentation hgrows hmeasures) _
    (List.getElem_mem hi)
  exact ⟨hfits.count, hfits.lines⟩

theorem displayCues_covers (segmentation : Segmentation platform.isExtending) (captionIndex : ℕ)
    {caption : CaptionCueInput} {start stop : ℤ} (hfirst : caption.audioStartMs = some start)
    (hlast : caption.audioEndMs = some stop) (hstart : 0 ≤ start) (hle : start ≤ stop)
    (hstop : stop ≤ 2 ^ 53)
    (hne : displayCues platform segmentation profile captionIndex caption ≠ []) :
    Covers start stop ((displayCues platform segmentation profile captionIndex caption).map
      CaptionDisplayCue.time) := by
  unfold displayCues at hne ⊢
  rw [hfirst, hlast] at *
  dsimp only at hne ⊢
  generalize splitForReadingPressure platform segmentation profile caption.language
    (rawCues platform segmentation profile caption) (some start) (some stop) = cues at hne ⊢
  have hcues : cues ≠ [] := by
    rintro rfl
    exact hne rfl
  have hcovers := allocateCueTimes_covers segmentation hcues hstart hle hstop
  convert hcovers using 1
  apply List.ext_getElem
  · rw [List.length_map, List.length_mapIdx, length_allocateCueTimes]
  · intro i hi hi'
    obtain ⟨a, b, htime⟩ := hcovers.known _ (List.getElem_mem hi')
    rw [List.getElem_map, List.getElem_mapIdx, htime]
    simp only [CaptionDisplayCue.time, List.getElem?_eq_getElem hi', htime, Option.bind_some,
      Option.some_or]

/-- The cues of a caption are as they should be exactly when all of its boundaries are kept. -/
theorem captionCues_shown_iff (hgrows : Appending profile) (captionIndex : ℕ)
    (caption : CaptionCueInput) (hmeasures : MeasuresTrimmed platform profile caption.text) :
    (∃ cues, captionCues platform profile captionIndex caption = some cues ∧
        Shown platform profile caption cues) ↔
      KeepsAll platform profile caption := by
  have hiff := seen_sentenceSpans_iff (normalizeText caption.text)
  rw [seen_normalizeText] at hiff
  unfold captionCues KeepsAll
  by_cases hnone : sentenceSpans (normalizeText caption.text) = []
  · rw [if_pos (by simp [hnone]), ← hiff, hnone]
    constructor
    · rintro ⟨cues, hcues, hshown⟩
      obtain rfl : [] = cues := Option.some.inj hcues
      exact ⟨hshown.text, fun h => absurd rfl h⟩
    · rintro ⟨htext, -⟩
      refine ⟨[], rfl, htext, nofun, nofun, ?_⟩
      intro _ _ _ _ _ _ _ hseen
      exact absurd htext.symm hseen
  · rw [if_neg (by simpa using hnone)]
    constructor
    · rintro ⟨cues, hcues, hshown⟩
      obtain ⟨segmentation, hsegmentation, rfl⟩ := Option.map_eq_some_iff.mp hcues
      obtain ⟨hfirst, hsecond⟩ :=
        (displayed_eq_iff segmentation captionIndex caption).mp hshown.text
      exact ⟨hfirst, fun _ => ⟨segmentation, hsegmentation, hsecond⟩⟩
    · rintro ⟨hfirst, hsecond⟩
      obtain ⟨segmentation, hsegmentation, hsecond⟩ := hsecond hnone
      have htext := (displayed_eq_iff segmentation captionIndex caption).mpr ⟨hfirst, hsecond⟩
      have hfits := displayCues_fits segmentation hgrows captionIndex hmeasures
      refine ⟨_, by rw [hsegmentation, Option.map_some], htext, fun cue hcue => (hfits cue hcue).1,
        ?_, ?_⟩
      · intro cue hcue line hline
        rcases (hfits cue hcue).2 line hline with hwidth | ⟨text, part, hpart, hline⟩
        · exact .inl hwidth
        · exact .inr ⟨segmentation, hsegmentation, text, part, hpart, hline⟩
      · intro start stop hstart hstop hpos hle hbound hseen
        apply displayCues_covers segmentation captionIndex hstart hstop hpos hle hbound
        intro hnil
        rw [hnil] at htext
        exact hseen htext.symm

theorem captionCuesFrom_shown_iff (hgrows : Appending profile) (captionIndex : ℕ)
    (captions : List CaptionCueInput)
    (hmeasures : ∀ caption ∈ captions, MeasuresTrimmed platform profile caption.text) :
    (∃ groups, captionCuesFrom platform profile captionIndex captions = some groups ∧
        List.Forall₂ (Shown platform profile) captions groups) ↔
      ∀ caption ∈ captions, KeepsAll platform profile caption := by
  induction captions generalizing captionIndex with
  | nil => simp [captionCuesFrom]
  | cons caption captions ih =>
    rw [List.forall_mem_cons, ← ih (captionIndex + 1) fun other hother =>
      hmeasures other (List.mem_cons_of_mem caption hother), ← captionCues_shown_iff hgrows
        captionIndex caption (hmeasures caption List.mem_cons_self)]
    constructor
    · rintro ⟨groups, hgroups, hall⟩
      obtain ⟨cues, hcues, hgroups⟩ := Option.bind_eq_some_iff.mp hgroups
      obtain ⟨rest, hrest, hgroups⟩ := Option.bind_eq_some_iff.mp hgroups
      obtain rfl : cues :: rest = groups := Option.some.inj hgroups
      obtain ⟨hfirst, hothers⟩ := List.forall₂_cons.mp hall
      exact ⟨⟨cues, hcues, hfirst⟩, ⟨rest, hrest, hothers⟩⟩
    · rintro ⟨⟨cues, hcues, hfirst⟩, ⟨rest, hrest, hothers⟩⟩
      refine ⟨cues :: rest, ?_, .cons hfirst hothers⟩
      rw [captionCuesFrom, hcues, hrest]
      rfl

/-- For a width that grows with what is appended, the captions are laid out with nothing lost, in
the room and the time they have, exactly when the language of each is known and no boundary of it
follows another one, or begins a text that is cut at its boundaries. -/
theorem composeCaptionCues_shown_iff (hgrows : Appending profile) (captions : List CaptionCueInput)
    (hmeasures : ∀ caption ∈ captions, MeasuresTrimmed platform profile caption.text) :
    (∃ groups, composeCaptionCues platform profile captions = some groups.flatten ∧
        captionCuesFrom platform profile 0 captions = some groups ∧
          List.Forall₂ (Shown platform profile) captions groups) ↔
      ∀ caption ∈ captions, KeepsAll platform profile caption := by
  rw [← captionCuesFrom_shown_iff hgrows 0 captions hmeasures]
  constructor
  · rintro ⟨groups, -, hgroups, hall⟩
    exact ⟨groups, hgroups, hall⟩
  · rintro ⟨groups, hgroups, hall⟩
    exact ⟨groups, by rw [composeCaptionCues, hgroups, Option.map_some], hgroups, hall⟩

end Captions

/-- A browser as it takes ASCII texts. -/
def asciiPlatform : Platform where
  isCjk _ := false
  isLetterOrNumber := Char.isAlphanum
  isPictographic _ := false
  isExtending _ := false
  extending_seen := nofun
  segmenter := some fun language => if language = "" then none else some (codePoints _)
  nearest x := x
  nearest_mono := monotone_id
  nearest_int _ _ := rfl

def twoLines : CaptionLayoutProfile where
  maxLineWidthPx := 120
  maxLines := 2
  minFillRatio := 3 / 10
  maxReadingUnitsPerSecond := 18
  measureText text := 10 * text.length
  width_pos := by norm_num
  lines_one_or_two := .inr rfl
  ratio_nonneg := by norm_num
  ratio_le_one := by norm_num
  rate_pos := by norm_num
  measure_nonneg _ := by positivity

theorem twoLines_appending : Appending twoLines := by
  intro a b
  have hmore : (0 : ℚ) ≤ b.length := Nat.cast_nonneg b.length
  simp only [twoLines, List.length_append, Nat.cast_add]
  linarith

def englishCaption (text : String) : CaptionCueInput where
  segmentId := "segment-1"
  revision := 1
  status := .final
  text := text.toList
  language := "en-US"
  audioStartMs := some 0
  audioEndMs := some 4000

theorem composeCaptionCues_shown_captions :
    ∃ groups, composeCaptionCues asciiPlatform twoLines
        [englishCaption "Well, really?", englishCaption "Adaptive subtitles keep words."] =
          some groups.flatten ∧
      captionCuesFrom asciiPlatform twoLines 0
        [englishCaption "Well, really?", englishCaption "Adaptive subtitles keep words."] =
          some groups ∧
      List.Forall₂ (Shown asciiPlatform twoLines)
        [englishCaption "Well, really?",
          englishCaption "Adaptive subtitles keep words."] groups := by
  apply (composeCaptionCues_shown_iff twoLines_appending _ fun _ _ _ _ _ _ hmark =>
    absurd hmark Bool.false_ne_true).mpr
  have hkeeps : ∀ text, coversAll isStrongBoundary (fun c => !isSpace c)
        (normalizeText (englishCaption text).text) = true →
      exceededUnits asciiPlatform (codePoints _) twoLines
        (rawCues asciiPlatform (codePoints _) twoLines (englishCaption text)) (some 0)
          (some 4000) = none →
        KeepsAll asciiPlatform twoLines (englishCaption text) := by
    intro text hcovers hread
    refine ⟨hcovers, fun _ => ⟨codePoints _, by rw [Platform.segmentation]; rfl, ?_⟩⟩
    intro maxUnits hmax
    have hsome : none = some maxUnits := hread.symm.trans hmax
    cases hsome
  intro caption hcaption
  rcases List.mem_pair.mp hcaption with rfl | rfl
  · exact hkeeps _ (by decide +kernel) (by decide +kernel)
  · exact hkeeps _ (by decide +kernel) (by decide +kernel)

/-- The second of two marks at the end of a sentence is on no cue. -/
theorem composeCaptionCues_loses_mark :
    ¬ ∀ (platform : Platform) (profile : CaptionLayoutProfile) (captions : List CaptionCueInput),
      Appending profile → ∃ groups, composeCaptionCues platform profile captions =
          some groups.flatten ∧
        captionCuesFrom platform profile 0 captions = some groups ∧
          List.Forall₂ (Shown platform profile) captions groups := by
  intro hclaim
  obtain ⟨groups, -, hgroups, hall⟩ :=
    hclaim asciiPlatform twoLines [englishCaption "Really?!"] twoLines_appending
  have hshown : (captionCuesFrom asciiPlatform twoLines 0 [englishCaption "Really?!"]).map
      (List.map displayed) = some ["Really?".toList] := by decide +kernel
  rw [hgroups, Option.map_some] at hshown
  cases hall with
  | cons hfirst hrest =>
    cases hrest
    have htext := hfirst.text
    rw [(List.cons.inj (Option.some.inj hshown)).1] at htext
    revert htext
    decide +kernel

end CaptionCues
end Matinier
