import Matinier.Captions.CueLayout

/-!
# What the cues of a caption show

Wrapping, merging and the division of sentences into cues lose nothing that is seen. What is lost,
is lost where a text is cut at its boundaries: a boundary that follows another one directly, or
begins the text, belongs to no piece of it.
-/

namespace Matinier
namespace CaptionCues

section Lines

variable {platform : Platform} {profile : CaptionLayoutProfile}

theorem seen_trimLeadingBoundaryWhitespace (parts : List Text) :
    seen (trimLeadingBoundaryWhitespace parts).flatten = seen parts.flatten := by
  induction parts with
  | nil => rfl
  | cons part parts ih =>
    rw [trimLeadingBoundaryWhitespace, List.dropWhile_cons]
    split_ifs with hpart
    · rw [Bool.and_eq_true] at hpart
      rw [List.flatten_cons, seen_append, seen_eq_nil.mpr hpart.2, List.nil_append]
      exact ih
    · rfl

theorem seen_wrapParts (allowShortStrongMerge : Bool) (parts : List Text) :
    seen (wrapParts platform profile allowShortStrongMerge parts).flatten = seen parts.flatten := by
  induction parts using wrapParts.induct platform profile allowShortStrongMerge with
  | case1 => rw [wrapParts]
  | case2 part parts taken ih =>
    rw [wrapParts, List.flatten_append, seen_append, seen_pushTrimmed, ih,
      seen_trimLeadingBoundaryWhitespace, ← seen_append, ← List.flatten_append,
      List.take_append_drop]

theorem flatten_linesBy (count : ℕ) (lines : List Text) :
    (linesBy count lines).flatten = lines := by
  induction lines using linesBy.induct count with
  | case1 =>
    rw [linesBy]
    rfl
  | case2 line lines ih => rw [linesBy, List.flatten_cons, ih, List.cons_append,
      List.take_append_drop]

theorem seen_foldl_joinText (language : String) (start : Text) (lines : List Text) :
    seen (lines.foldl (fun current line => joinText current line language) start) =
      seen start ++ seen lines.flatten := by
  induction lines generalizing start with
  | nil => simp
  | cons line lines ih =>
    rw [List.foldl_cons, ih, seen_joinText, List.flatten_cons, seen_append, List.append_assoc]

end Lines

/-- What cues show. -/
def shown (cues : List RawCue) : Text := cues.flatMap fun cue => seen cue.text

@[simp] theorem shown_append (a b : List RawCue) : shown (a ++ b) = shown a ++ shown b :=
  List.flatMap_append

@[simp] theorem shown_cons (cue : RawCue) (cues : List RawCue) :
    shown (cue :: cues) = seen cue.text ++ shown cues := rfl

theorem shown_flatMap {α : Type} (f : α → List RawCue) (l : List α) :
    shown (l.flatMap f) = l.flatMap fun a => shown (f a) := List.flatMap_assoc

section Cues

variable {platform : Platform} {segmentation : Segmentation platform.isExtending}
  {profile : CaptionLayoutProfile} {language : String}

theorem seen_wrapText (text : Text) (allowShortStrongMerge : Bool) :
    seen (wrapText platform segmentation profile text allowShortStrongMerge).flatten =
      seen text := by
  rw [wrapText, seen_wrapParts, segmentation.flatten_segments]

theorem shown_rawCuesForSpan (span : Text) :
    shown (rawCuesForSpan platform segmentation profile language span) = seen span := by
  have hgroups : ∀ groups : List (List Text),
      shown (groups.map fun cueLines =>
        ⟨cueLines.foldl (fun current line => joinText current line language) [], cueLines⟩) =
          seen groups.flatten.flatten := by
    intro groups
    induction groups with
    | nil => rfl
    | cons group groups ih =>
      rw [List.map_cons, shown_cons, ih, seen_foldl_joinText, List.flatten_cons,
        List.flatten_append, seen_append, seen_nil, List.nil_append]
  rw [rawCuesForSpan, hgroups, flatten_linesBy, seen_wrapText]

theorem shown_mergedAt {cues cues' : List RawCue} {index : ℕ}
    (h : mergedAt platform segmentation profile language cues index = some cues') :
    shown cues' = shown cues := by
  obtain ⟨left, right, merged, hcues, hmerged, rfl⟩ := mergedAt_eq_some h
  have htext : seen merged.text = seen left.text ++ seen right.text := by
    unfold tryMergedCue at hmerged
    dsimp only at hmerged
    split_ifs at hmerged
    cases hmerged
    exact seen_joinText left.text right.text language
  conv_rhs => rw [hcues]
  rw [shown_append, shown_append, shown_cons, shown_cons, shown_cons, htext, List.append_assoc]

/-- What every merge keeps, `mergeShortCues` keeps. -/
theorem mergeFrom_rule {P : List RawCue → Prop} (hmerge : ∀ cues cues' index,
      mergedAt platform segmentation profile language cues index = some cues' → P cues → P cues')
    (cues : List RawCue) (index : ℕ) (h : P cues) :
    P (mergeFrom platform segmentation profile language cues index) := by
  induction cues, index using mergeFrom.induct platform segmentation profile language with
  | case1 cues index hindex step ih =>
    rw [mergeFrom, dif_pos hindex]
    apply ih
    rcases mergeStep_cases platform segmentation profile language cues index cues[index] with
      hnext | ⟨merged, place, after, hstep, -, hmerged⟩
    · rw [show step = (cues, index + 1) from hnext]
      exact h
    · rw [show step = (merged, after) from hstep]
      exact hmerge cues merged place hmerged h
  | case2 cues index hindex =>
    rw [mergeFrom, dif_neg hindex]
    exact h

theorem shown_mergeShortCues (cues : List RawCue) :
    shown (mergeShortCues platform segmentation profile language cues) = shown cues :=
  mergeFrom_rule (P := fun merged => shown merged = shown cues)
    (fun _ _ _ hmerged h => (shown_mergedAt hmerged).trans h) cues 0 rfl

theorem seen_wordTokens (pending : Text) (spaced : Bool) (text : Text) :
    seen (wordTokens pending spaced text).flatten = seen (pending ++ text) := by
  induction text generalizing pending spaced with
  | nil =>
    unfold wordTokens
    split_ifs with h <;> simp [h]
  | cons c text ih =>
    unfold wordTokens
    split_ifs with hspace hpending hspaced
    · rw [ih, hpending, List.nil_append, List.nil_append, seen_cons, if_pos hspace]
    · rw [ih, List.append_assoc, List.singleton_append]
    · rw [List.flatten_cons, seen_append, ih, List.singleton_append, seen_append]
    · rw [ih, List.append_assoc, List.singleton_append]

theorem seen_packTokens (maxUnits : ℕ) (pending : Text) (pendingUnits : ℕ) (tokens : List Text) :
    seen (packTokens platform segmentation maxUnits pending pendingUnits tokens).flatten =
      seen pending ++ seen tokens.flatten := by
  induction tokens generalizing pending pendingUnits with
  | nil => rw [packTokens, seen_pushTrimmed, List.flatten_nil, seen_nil, List.append_nil]
  | cons token tokens ih =>
    unfold packTokens
    dsimp only
    split_ifs
    · rw [List.flatten_cons, seen_append, seen_trim, ih, List.flatten_cons, seen_append]
    · rw [ih, List.flatten_cons, seen_append, seen_append, List.append_assoc]

theorem seen_hardSplitByReadingUnits (text : Text) (maxUnits : ℕ) :
    seen (hardSplitByReadingUnits platform segmentation language text maxUnits).flatten =
      seen text := by
  unfold hardSplitByReadingUnits
  rw [seen_packTokens, seen_nil, List.nil_append]
  split_ifs
  · rw [List.flatten_singleton]
  · rw [seen_wordTokens, List.nil_append]
  · rw [segmentation.flatten_segments]

variable (platform segmentation language) in
theorem seen_packPieces (maxUnits : ℕ) (pending : Text) (pendingUnits : ℕ) (pieces : List Text) :
    seen (packPieces platform segmentation language maxUnits pending pendingUnits pieces).flatten =
      seen pending ++ seen pieces.flatten := by
  induction pieces generalizing pending pendingUnits with
  | nil => rw [packPieces, seen_pushTrimmed, List.flatten_nil, seen_nil, List.append_nil]
  | cons piece pieces ih =>
    unfold packPieces
    dsimp only
    split_ifs
    · rw [List.flatten_append, List.flatten_append, seen_append, seen_append, seen_pushTrimmed,
        seen_hardSplitByReadingUnits, ih, seen_nil, List.nil_append, List.flatten_cons, seen_append,
        List.append_assoc]
    · rw [List.flatten_append, seen_append, seen_pushTrimmed, ih, seen_joinText, seen_nil,
        List.nil_append, List.flatten_cons, seen_append]
    · rw [ih, seen_joinText, List.flatten_cons, seen_append, List.append_assoc]

/-- A cue is read in time, or has no boundary that its pieces leave out. -/
def SplitsWhole (segmentation : Segmentation platform.isExtending) (maxUnits : ℕ) (cue : RawCue) :
    Prop :=
  readingUnits platform segmentation cue.text ≤ maxUnits ∨
    coversAll isBoundary (fun c => !isSpace c) cue.text = true

theorem shown_splitCue (maxUnits : ℕ) (cue : RawCue) :
    List.Sublist (shown (splitCue platform segmentation profile language maxUnits cue))
        (seen cue.text) ∧
      (shown (splitCue platform segmentation profile language maxUnits cue) = seen cue.text ↔
        SplitsWhole segmentation maxUnits cue) := by
  unfold splitCue SplitsWhole
  split_ifs with hread
  · have hone : shown [cue] = seen cue.text := by simp [shown]
    rw [hone]
    exact ⟨List.Sublist.refl _, iff_of_true rfl (.inl hread)⟩
  · have hpieces : shown ((packPieces platform segmentation language maxUnits [] 0
        (matchedSpans isBoundary isBoundary cue.text)).flatMap fun chunk =>
          rawCuesForSpan platform segmentation profile language chunk) =
            seen (matchedSpans isBoundary isBoundary cue.text).flatten := by
      have hchunks := seen_packPieces platform segmentation language maxUnits [] 0
        (matchedSpans isBoundary isBoundary cue.text)
      rw [seen_nil, List.nil_append] at hchunks
      rw [shown_flatMap, ← hchunks, seen_flatten]
      simp only [shown_rawCuesForSpan, List.flatMap]
    rw [hpieces]
    constructor
    · exact (matchedSpans_sublist _ _ cue.text).filter _
    · rw [or_iff_right hread]
      exact filter_matchedSpans_iff fun _ hboundary _ => hboundary

/-- The division for reading leaves nothing out of the cues that are to be read in the time, or of
those that are divided. -/
def ReadsWhole (platform : Platform) (segmentation : Segmentation platform.isExtending)
    (profile : CaptionLayoutProfile) (cues : List RawCue) (start stop : Option ℤ) : Prop :=
  ∀ maxUnits, exceededUnits platform segmentation profile cues start stop = some maxUnits →
    ∀ cue ∈ cues, SplitsWhole segmentation maxUnits cue

variable (platform segmentation profile language) in
theorem shown_splitForReadingPressure (cues : List RawCue) (start stop : Option ℤ) :
    List.Sublist
        (shown (splitForReadingPressure platform segmentation profile language cues start stop))
        (shown cues) ∧
      (shown (splitForReadingPressure platform segmentation profile language cues start stop) =
          shown cues ↔
        ReadsWhole platform segmentation profile cues start stop) := by
  unfold splitForReadingPressure ReadsWhole
  cases hexceeded : exceededUnits platform segmentation profile cues start stop with
  | none => exact ⟨List.Sublist.refl _, iff_of_true rfl nofun⟩
  | some maxUnits =>
    dsimp only
    rw [shown_flatMap, shown]
    constructor
    · clear hexceeded
      induction cues with
      | nil => exact List.Sublist.refl _
      | cons cue cues ih => exact (shown_splitCue maxUnits cue).1.append ih
    · rw [flatMap_eq_iff fun cue _ => (shown_splitCue maxUnits cue).1]
      simp only [shown_splitCue, Option.some.injEq, forall_eq']

/-- What the display cues of a caption show. -/
def displayed (cues : List CaptionDisplayCue) : Text := cues.flatMap fun cue => seen cue.text

/-- No boundary of the caption is left out. -/
def KeepsBoundaries (platform : Platform) (segmentation : Segmentation platform.isExtending)
    (profile : CaptionLayoutProfile) (caption : CaptionCueInput) : Prop :=
  coversAll isStrongBoundary (fun c => !isSpace c) (normalizeText caption.text) = true ∧
    ReadsWhole platform segmentation profile (rawCues platform segmentation profile caption)
      caption.audioStartMs caption.audioEndMs

theorem shown_rawCues (caption : CaptionCueInput) :
    shown (rawCues platform segmentation profile caption) =
      seen (sentenceSpans (normalizeText caption.text)).flatten := by
  rw [rawCues, shown_mergeShortCues, shown_flatMap, seen_flatten]
  simp only [shown_rawCuesForSpan, List.flatMap]

theorem flatMap_mapIdx {α β γ : Type} {f : ℕ → α → β} {g : β → List γ} {h : α → List γ} (l : List α)
    (hsame : ∀ i a, g (f i a) = h a) : (l.mapIdx f).flatMap g = l.flatMap h := by
  induction l generalizing f with
  | nil => rfl
  | cons a l ih =>
    rw [List.mapIdx_cons, List.flatMap_cons, List.flatMap_cons, hsame,
      ih fun i a => hsame (i + 1) a]

theorem displayed_displayCues (captionIndex : ℕ) (caption : CaptionCueInput) :
    displayed (displayCues platform segmentation profile captionIndex caption) =
      shown (splitForReadingPressure platform segmentation profile caption.language
        (rawCues platform segmentation profile caption) caption.audioStartMs
          caption.audioEndMs) := by
  unfold displayCues displayed shown
  dsimp only
  exact flatMap_mapIdx _ fun _ _ => rfl

variable (segmentation) in
/-- The cues of a caption show what the caption shows exactly when no boundary is left out. -/
theorem displayed_eq_iff (captionIndex : ℕ) (caption : CaptionCueInput) :
    displayed (displayCues platform segmentation profile captionIndex caption) =
        seen caption.text ↔
      KeepsBoundaries platform segmentation profile caption := by
  obtain ⟨hsplit, hwhole⟩ := shown_splitForReadingPressure platform segmentation profile
    caption.language (rawCues platform segmentation profile caption) caption.audioStartMs
    caption.audioEndMs
  have hsentences := seen_sentenceSpans_sublist (normalizeText caption.text)
  have hiff := seen_sentenceSpans_iff (normalizeText caption.text)
  rw [seen_normalizeText] at hsentences hiff
  rw [displayed_displayCues, KeepsBoundaries, ← hiff, ← hwhole, shown_rawCues] at *
  constructor
  · intro heq
    -- both steps only leave out, so neither of them may
    rw [heq] at hsplit ⊢
    have hsame := hsentences.antisymm hsplit
    exact ⟨hsame, hsame.symm⟩
  · rintro ⟨hfirst, hsecond⟩
    exact hsecond.trans hfirst

end Cues

end CaptionCues
end Matinier
