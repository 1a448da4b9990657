import Matinier.Captions.CueText

/-!
# Layout of caption cues

A caption is cut into sentences, these are wrapped into lines, and as many lines as fit on the
screen make up a cue. Short cues are merged with the one behind or before them, and cues that stand
too short a time to be read are split once more. At last the time of the caption is divided among
the cues.
-/

namespace Matinier
namespace CaptionCues

inductive CueStatus where
  | draft
  | final

structure CaptionCueInput where
  segmentId : String
  revision : ℕ
  status : CueStatus
  text : Text
  language : String
  audioStartMs : Option ℤ
  audioEndMs : Option ℤ

/-- A profile that `validateProfile` lets pass, with a measurer whose widths `measure` does. -/
structure CaptionLayoutProfile where
  maxLineWidthPx : ℚ
  maxLines : ℕ
  minFillRatio : ℚ
  maxReadingUnitsPerSecond : ℚ
  measureText : Text → ℚ
  width_pos : 0 < maxLineWidthPx
  lines_one_or_two : maxLines = 1 ∨ maxLines = 2
  ratio_nonneg : 0 ≤ minFillRatio
  ratio_le_one : minFillRatio ≤ 1
  rate_pos : 0 < maxReadingUnitsPerSecond
  measure_nonneg : ∀ text, 0 ≤ measureText text

theorem CaptionLayoutProfile.lines_pos (profile : CaptionLayoutProfile) : 0 < profile.maxLines := by
  rcases profile.lines_one_or_two with h | h <;> omega

structure CaptionDisplayCue extends CaptionCueInput where
  displayId : String
  lines : List Text

structure RawCue where
  text : Text
  lines : List Text

section Lines

variable (platform : Platform) (profile : CaptionLayoutProfile)

def fittingFrom (candidate : Text) : List Text → ℕ
  | [] => 0
  | part :: parts =>
    if profile.measureText (candidate ++ part) > profile.maxLineWidthPx then 0
    else fittingFrom (candidate ++ part) parts + 1

def fittingGraphemeCount (parts : List Text) : ℕ := fittingFrom profile [] parts

/-- The last places where a line may end, behind the parts so far. -/
structure BreakMarks where
  strong : ℕ
  clause : ℕ
  word : ℕ

def BreakMarks.next (parts : List Text) (allowShortStrongMerge : Bool) (marks : BreakMarks)
    (i : ℕ) : BreakMarks :=
  let part := parts[i]?.getD []
  if part.any isStrongBoundary then
    let isShort := profile.measureText (trim (parts.take (i + 1)).flatten) <
      platform.nearest (profile.maxLineWidthPx * profile.minFillRatio)
    if !allowShortStrongMerge || !isShort then { marks with strong := i + 1 } else marks
  else if part.any isClauseBoundary then { marks with clause := i + 1 }
  else if part.any isSpace then { marks with word := i + 1 }
  else marks

def preferredBreakIndex (parts : List Text) (fittingCount : ℕ) (allowShortStrongMerge : Bool) : ℕ :=
  let marks := (List.range fittingCount).foldl
    (BreakMarks.next platform profile parts allowShortStrongMerge) ⟨0, 0, 0⟩
  if marks.strong ≠ 0 then marks.strong
  else if marks.clause ≠ 0 then marks.clause
  else if marks.word ≠ 0 then marks.word
  else fittingCount

/-- Each mark is a place among the first parts. -/
def BreakMarks.Within (marks : BreakMarks) (count : ℕ) : Prop :=
  marks.strong ≤ count ∧ marks.clause ≤ count ∧ marks.word ≤ count

theorem BreakMarks.next_within (parts : List Text) (allowShortStrongMerge : Bool)
    {marks : BreakMarks} {i : ℕ} (h : marks.Within i) :
    (marks.next platform profile parts allowShortStrongMerge i).Within (i + 1) := by
  obtain ⟨hstrong, hclause, hword⟩ := h
  unfold next Within
  dsimp only
  split_ifs <;> refine ⟨?_, ?_, ?_⟩ <;> first | omega | (dsimp only; omega)

theorem foldl_marks_within (parts : List Text) (allowShortStrongMerge : Bool) (count : ℕ) :
    ((List.range count).foldl (BreakMarks.next platform profile parts allowShortStrongMerge)
      ⟨0, 0, 0⟩).Within count := by
  induction count with
  | zero => exact ⟨Nat.le_refl 0, Nat.le_refl 0, Nat.le_refl 0⟩
  | succ count ih =>
    rw [List.range_succ, List.foldl_append]
    exact BreakMarks.next_within platform profile parts allowShortStrongMerge ih

theorem preferredBreakIndex_pos {parts : List Text} {fittingCount : ℕ}
    {allowShortStrongMerge : Bool} (h : 0 < fittingCount) :
    0 < preferredBreakIndex platform profile parts fittingCount allowShortStrongMerge := by
  unfold preferredBreakIndex
  dsimp only
  split_ifs <;> omega

theorem preferredBreakIndex_le (parts : List Text) (fittingCount : ℕ)
    (allowShortStrongMerge : Bool) :
    preferredBreakIndex platform profile parts fittingCount allowShortStrongMerge ≤
      fittingCount := by
  obtain ⟨hstrong, hclause, hword⟩ :=
    foldl_marks_within platform profile parts allowShortStrongMerge fittingCount
  unfold preferredBreakIndex
  dsimp only
  split_ifs <;> omega

/-- How many parts the next line takes. -/
def breakIndex (parts : List Text) (allowShortStrongMerge : Bool) : ℕ :=
  -- a part that is wider than the line is not cut
  let fittingCount := max 1 (fittingGraphemeCount profile parts)
  if fittingCount = parts.length then fittingCount
  else preferredBreakIndex platform profile parts fittingCount allowShortStrongMerge

theorem breakIndex_pos (parts : List Text) (allowShortStrongMerge : Bool) :
    0 < breakIndex platform profile parts allowShortStrongMerge := by
  have hpos : 0 < max 1 (fittingGraphemeCount profile parts) := by omega
  unfold breakIndex
  dsimp only
  split_ifs
  · exact hpos
  · exact preferredBreakIndex_pos platform profile hpos

theorem breakIndex_le (parts : List Text) (allowShortStrongMerge : Bool) :
    breakIndex platform profile parts allowShortStrongMerge ≤
      max 1 (fittingGraphemeCount profile parts) := by
  unfold breakIndex
  dsimp only
  split_ifs
  · exact Nat.le_refl _
  · exact preferredBreakIndex_le platform profile _ _ _

def trimLeadingBoundaryWhitespace (parts : List Text) : List Text :=
  parts.dropWhile fun part => !part.isEmpty && part.all isSpace

theorem length_trimLeadingBoundaryWhitespace_le (parts : List Text) :
    (trimLeadingBoundaryWhitespace parts).length ≤ parts.length :=
  (List.dropWhile_sublist _).length_le

def wrapParts (allowShortStrongMerge : Bool) : List Text → List Text
  | [] => []
  | part :: parts =>
    let taken := breakIndex platform profile (part :: parts) allowShortStrongMerge
    pushTrimmed ((part :: parts).take taken).flatten ++ wrapParts allowShortStrongMerge
      (trimLeadingBoundaryWhitespace ((part :: parts).drop taken))
termination_by parts => parts.length
decreasing_by
  have hpos := breakIndex_pos platform profile (part :: parts) allowShortStrongMerge
  have hle := length_trimLeadingBoundaryWhitespace_le ((part :: parts).drop
    (breakIndex platform profile (part :: parts) allowShortStrongMerge))
  rw [List.length_drop] at hle
  simp only [List.length_cons] at hle ⊢
  omega

end Lines

/-- The lines in groups of so many, the last one with what is left. -/
def linesBy (count : ℕ) : List Text → List (List Text)
  | [] => []
  | line :: lines => (line :: lines.take (count - 1)) :: linesBy count (lines.drop (count - 1))
termination_by lines => lines.length
decreasing_by
  rw [List.length_drop, List.length_cons]
  omega

section Cues

variable (platform : Platform) (segmentation : Segmentation platform.isExtending)
  (profile : CaptionLayoutProfile) (language : String)

def wrapText (text : Text) (allowShortStrongMerge : Bool) : List Text :=
  wrapParts platform profile allowShortStrongMerge (segmentation.segments text)

def rawCuesForSpan (span : Text) : List RawCue :=
  (linesBy profile.maxLines (wrapText platform segmentation profile span false)).map fun cueLines =>
    ⟨cueLines.foldl (fun current line => joinText current line language) [], cueLines⟩

def tryMergedCue (left right : RawCue) : Option RawCue :=
  let text := joinText left.text right.text language
  let lines := wrapText platform segmentation profile text true
  if lines.length > profile.maxLines then none else some ⟨text, lines⟩

/-- The cues with the one at an index and the next one merged, where they fit. -/
def mergedAt (cues : List RawCue) (index : ℕ) : Option (List RawCue) :=
  match cues[index]?, cues[index + 1]? with
  | some left, some right =>
    (tryMergedCue platform segmentation profile language left right).map fun merged =>
      cues.take index ++ merged :: cues.drop (index + 2)
  | _, _ => none

variable {platform segmentation profile language} in
theorem mergedAt_eq_some {cues cues' : List RawCue} {index : ℕ}
    (h : mergedAt platform segmentation profile language cues index = some cues') :
    ∃ left right merged, cues = cues.take index ++ left :: right :: cues.drop (index + 2) ∧
      tryMergedCue platform segmentation profile language left right = some merged ∧
      cues' = cues.take index ++ merged :: cues.drop (index + 2) := by
  unfold mergedAt at h
  split at h
  · next left right hleft hright =>
    obtain ⟨merged, hmerged, rfl⟩ := Option.map_eq_some_iff.mp h
    refine ⟨left, right, merged, ?_, hmerged, rfl⟩
    obtain ⟨hlt, hleft⟩ := List.getElem?_eq_some_iff.mp hleft
    obtain ⟨hlt', hright⟩ := List.getElem?_eq_some_iff.mp hright
    conv_lhs => rw [← List.take_append_drop index cues, List.drop_eq_getElem_cons hlt,
      List.drop_eq_getElem_cons hlt', hleft, hright]
  · cases h

variable {platform segmentation profile language} in
theorem length_mergedAt {cues cues' : List RawCue} {index : ℕ}
    (h : mergedAt platform segmentation profile language cues index = some cues') :
    cues'.length + 1 = cues.length := by
  obtain ⟨left, right, merged, hcues, -, rfl⟩ := mergedAt_eq_some h
  conv_rhs => rw [hcues]
  simp only [List.length_append, List.length_cons]
  omega

/-- One turn of the loop of `mergeShortCues`: the cues, and the index to go on with. -/
def mergeStep (cues : List RawCue) (index : ℕ) (cue : RawCue) : List RawCue × ℕ :=
  let shortThreshold := platform.nearest
    (platform.nearest (profile.maxLineWidthPx * profile.maxLines) * profile.minFillRatio)
  if profile.measureText cue.text ≥ shortThreshold then (cues, index + 1)
  else
    match mergedAt platform segmentation profile language cues index with
    | some merged => (merged, index)
    | none =>
      if index = 0 then (cues, index + 1)
      else
        match mergedAt platform segmentation profile language cues (index - 1) with
        | some merged => (merged, index - 1)
        | none => (cues, index + 1)

/-- A turn goes on to the next cue, or merges two and goes back by one cue at most. -/
theorem mergeStep_cases (cues : List RawCue) (index : ℕ) (cue : RawCue) :
    mergeStep platform segmentation profile language cues index cue = (cues, index + 1) ∨
      ∃ merged place after, mergeStep platform segmentation profile language cues index cue =
        (merged, after) ∧ index ≤ after + 1 ∧
          mergedAt platform segmentation profile language cues place = some merged := by
  unfold mergeStep
  dsimp only
  split_ifs with hlong hzero
  · exact .inl rfl
  · split
    · next merged hmerged => exact .inr ⟨merged, index, index, rfl, by omega, hmerged⟩
    · exact .inl rfl
  · split
    · next merged hmerged => exact .inr ⟨merged, index, index, rfl, by omega, hmerged⟩
    · split
      · next merged hmerged => exact .inr ⟨merged, index - 1, index - 1, rfl, by omega, hmerged⟩
      · exact .inl rfl

/-- The loop of `mergeShortCues`, from an index on. -/
def mergeFrom (cues : List RawCue) (index : ℕ) : List RawCue :=
  if _hindex : index < cues.length then
    let step := mergeStep platform segmentation profile language cues index cues[index]
    mergeFrom step.1 step.2
  else cues
termination_by 2 * cues.length - index
decreasing_by
  rcases mergeStep_cases platform segmentation profile language cues index cues[index] with
    hnext | ⟨merged, place, after, hstep, hafter, hmerged⟩
  · rw [hnext]
    dsimp only
    omega
  · have := length_mergedAt hmerged
    rw [hstep]
    dsimp only
    omega

def mergeShortCues (cues : List RawCue) : List RawCue :=
  mergeFrom platform segmentation profile language cues 0

/-- What was counted, and whether the last part belonged to a word. -/
def countUnits : List Text → ℕ → Bool → ℕ
  | [], units, _ => units
  | part :: parts, units, inLatinWord =>
    if part.any platform.isCjk then countUnits parts (units + 1) false
    else if part.any platform.isLetterOrNumber then
      countUnits parts (if inLatinWord then units else units + 1) true
    else countUnits parts (if part.any platform.isPictographic then units + 1 else units) false

def readingUnits (text : Text) : ℕ :=
  max 1 (countUnits platform (segmentation.segments text) 0 false)

/-- The matches of `\S+(?:\s+|$)`. -/
def wordTokens (pending : Text) (spaced : Bool) : Text → List Text
  | [] => if pending = [] then [] else [pending]
  | c :: text =>
    if isSpace c then
      if pending = [] then wordTokens [] false text else wordTokens (pending ++ [c]) true text
    else if spaced then pending :: wordTokens [c] false text
    else wordTokens (pending ++ [c]) false text

def packTokens (maxUnits : ℕ) (pending : Text) (pendingUnits : ℕ) : List Text → List Text
  | [] => pushTrimmed pending
  | token :: tokens =>
    let tokenUnits := readingUnits platform segmentation token
    if pending ≠ [] ∧ pendingUnits + tokenUnits > maxUnits then
      trim pending :: packTokens maxUnits token tokenUnits tokens
    else packTokens maxUnits (pending ++ token) (pendingUnits + tokenUnits) tokens

def hardSplitByReadingUnits (text : Text) (maxUnits : ℕ) : List Text :=
  let tokens :=
    if isSpaceSeparatedLanguage language then
      if (wordTokens [] false text).isEmpty then [text] else wordTokens [] false text
    else segmentation.segments text
  packTokens platform segmentation maxUnits [] 0 tokens

/-- `[。！？!?；;：:，,、]` -/
def isBoundary (c : Char) : Bool := isSentenceEnd c || isClauseBoundary c

def packPieces (maxUnits : ℕ) (pending : Text) (pendingUnits : ℕ) : List Text → List Text
  | [] => pushTrimmed pending
  | piece :: pieces =>
    let pieceUnits := readingUnits platform segmentation piece
    if pieceUnits > maxUnits then
      pushTrimmed pending ++
        hardSplitByReadingUnits platform segmentation language piece maxUnits ++
        packPieces maxUnits [] 0 pieces
    else if pending ≠ [] ∧ pendingUnits + pieceUnits > maxUnits then
      pushTrimmed pending ++ packPieces maxUnits (joinText [] piece language) pieceUnits pieces
    else packPieces maxUnits (joinText pending piece language) (pendingUnits + pieceUnits) pieces

/-- The cues of one that takes more than the units that can be read in its time. -/
def splitCue (maxUnits : ℕ) (cue : RawCue) : List RawCue :=
  if readingUnits platform segmentation cue.text ≤ maxUnits then [cue]
  else
    let chunks := packPieces platform segmentation language maxUnits [] 0
      (matchedSpans isBoundary isBoundary cue.text)
    chunks.flatMap fun chunk => rawCuesForSpan platform segmentation profile language chunk

/-- The units that can be read in the time of the caption, where the cues have more. -/
def exceededUnits (cues : List RawCue) (start stop : Option ℤ) : Option ℕ :=
  match start, stop with
  | some start, some stop =>
    if stop ≤ start then none
    else
      let durationSeconds := platform.nearest (platform.nearest (stop - start) / 1000)
      let totalUnits := (cues.map fun cue => readingUnits platform segmentation cue.text).sum
      if platform.nearest (totalUnits / durationSeconds) ≤ profile.maxReadingUnitsPerSecond then
        none
      else some (max 1
        ⌊platform.nearest (profile.maxReadingUnitsPerSecond * durationSeconds)⌋.toNat)
  | _, _ => none

def splitForReadingPressure (cues : List RawCue) (start stop : Option ℤ) : List RawCue :=
  match exceededUnits platform segmentation profile cues start stop with
  | none => cues
  | some maxUnits => cues.flatMap (splitCue platform segmentation profile language maxUnits)

/-- `Math.round` of the time when a part of the cues has been read. -/
def timeAt (start duration : ℚ) (totalWeight consumedWeight : ℕ) : ℤ :=
  ⌊platform.nearest (start + platform.nearest
    (duration * platform.nearest (consumedWeight / totalWeight))) + 1 / 2⌋

def timesFrom (timeOf : ℕ → ℤ) (stop : ℤ) (cueStart : ℤ) (consumedWeight : ℕ) :
    List ℕ → List (ℤ × ℤ)
  | [] => []
  | [_] => [(cueStart, stop)]
  | weight :: weights =>
    let consumed := consumedWeight + weight
    (cueStart, timeOf consumed) :: timesFrom timeOf stop (timeOf consumed) consumed weights

def allocateCueTimes (cues : List RawCue) (start stop : Option ℤ) :
    List (Option ℤ × Option ℤ) :=
  match start, stop with
  | some first, some last =>
    if last < first then cues.map fun _ => (start, stop)
    else
      let weights := cues.map fun cue => readingUnits platform segmentation cue.text
      let duration := platform.nearest (last - first)
      (timesFrom (timeAt platform first duration weights.sum) last first 0 weights).map
        fun time => (some time.1, some time.2)
  | _, _ => cues.map fun _ => (start, stop)

/-- The raw cues of a caption. -/
def rawCues (caption : CaptionCueInput) : List RawCue :=
  let sentences := sentenceSpans (normalizeText caption.text)
  let raw := sentences.flatMap fun sentence =>
    rawCuesForSpan platform segmentation profile caption.language sentence
  mergeShortCues platform segmentation profile caption.language raw

def displayCues (captionIndex : ℕ) (caption : CaptionCueInput) : List CaptionDisplayCue :=
  let cues := splitForReadingPressure platform segmentation profile caption.language
    (rawCues platform segmentation profile caption) caption.audioStartMs caption.audioEndMs
  let times := allocateCueTimes platform segmentation cues caption.audioStartMs caption.audioEndMs
  cues.mapIdx fun cueIndex cue =>
    { caption with
      displayId := caption.segmentId ++ ":display:" ++ toString (captionIndex + 1) ++ ":" ++
        toString (cueIndex + 1)
      text := cue.text
      lines := cue.lines
      audioStartMs := (times[cueIndex]?.bind Prod.fst).or caption.audioStartMs
      audioEndMs := (times[cueIndex]?.bind Prod.snd).or caption.audioEndMs }

end Cues

section Captions

variable (platform : Platform) (profile : CaptionLayoutProfile)

/-- The cues of one caption. A caption with no sentence never asks for a segmentation; for another
one a language that is rejected ends it all. -/
def captionCues (captionIndex : ℕ) (caption : CaptionCueInput) :
    Option (List CaptionDisplayCue) :=
  if (sentenceSpans (normalizeText caption.text)).isEmpty then some []
  else (platform.segmentation caption.language).map fun segmentation =>
    displayCues platform segmentation profile captionIndex caption

def captionCuesFrom (captionIndex : ℕ) :
    List CaptionCueInput → Option (List (List CaptionDisplayCue))
  | [] => some []
  | caption :: captions => do
    let cues ← captionCues platform profile captionIndex caption
    let rest ← captionCuesFrom (captionIndex + 1) captions
    return cues :: rest

def composeCaptionCues (captions : List CaptionCueInput) : Option (List CaptionDisplayCue) :=
  (captionCuesFrom platform profile 0 captions).map List.flatten

end Captions

end CaptionCues
end Matinier
