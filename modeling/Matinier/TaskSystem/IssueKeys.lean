import Matinier.TaskSystem.BodyLines

/-!
# Issues that are recognised by their keys

The issues that were made for a key are recognised if and only if none of them has the line of
another key above its own, and the search for a key does not leave any of them out.
-/

namespace Matinier
namespace TaskSystem

variable {draft : LinearDraft} {actionKey description : String}

/-- The key that is put in front of that of a draft: that of the first line of the body whose
marker is misspelled, or else of the first line behind a line feed of the evidence. -/
def LinearDraft.forgery (draft : LinearDraft) (actionKey : String) : Option (List Char) :=
  ((lineStarts (draft.boundedBody actionKey)).findSome? fun line =>
    if misspelled line then readKey line else none).or
      ((behindFeeds draft.evidenceIds).findSome? readKey)

namespace RenderedIssue

variable {tracker : LinearTracker} {issue : RenderedIssue} {issues : List RenderedIssue} {limit : ℕ}

/-- No key but its own is put in front of it. -/
def Honest (issue : RenderedIssue) : Prop :=
  ∀ key ∈ issue.draft.forgery issue.actionKey, key = issue.actionKey.toList

theorem findSome_congr {α β : Type*} {f g : α → Option β} {l : List α}
    (h : ∀ a ∈ l, f a = g a) : l.findSome? f = l.findSome? g := by
  induction l with
  | nil => rfl
  | cons a l ih =>
    rw [List.findSome?_cons, List.findSome?_cons, h a List.mem_cons_self,
      ih fun a ha => h a (List.mem_cons_of_mem _ ha)]

theorem findKey_boundedBody :
    (lineStarts (draft.boundedBody actionKey)).findSome? readKey =
      (lineStarts (draft.boundedBody actionKey)).findSome? fun line =>
        if misspelled line then readKey line else none := by
  apply findSome_congr
  intro line hline
  split_ifs with hmisspelled
  · rfl
  · by_contra hkey
    exact hmisspelled (misspelled_of_readKey hline hkey)

/-- The key of a description is its own, unless another one is in front of it. -/
theorem findKey_rendered (hkey : isActionKey actionKey = true)
    (h : draft.renderDescription actionKey = some description) :
    (lineStarts description.toList).findSome? readKey =
      some ((draft.forgery actionKey).getD actionKey.toList) := by
  simp only [LinearDraft.renderDescription] at h
  split_ifs at h with hlong hnil
  all_goals
    obtain rfl := Option.some.inj h
    rw [String.toList_ofList]
  · have hbody : (lineStarts (draft.boundedBody actionKey)).findSome? readKey = none := by
      rw [hnil]
      rfl
    rw [findKey_footer hkey, LinearDraft.forgery, ← findKey_boundedBody, hbody, Option.none_or]
    cases (behindFeeds draft.evidenceIds).findSome? readKey <;> rfl
  · have hdigits : ¬ BeginsDigits ('\n' :: draft.footer actionKey) := by
      rintro ⟨c, hc, hdigit⟩
      obtain rfl : '-' = c := Option.some.inj hc
      exact absurd hdigit (by decide)
    have hblank : readKey ('\n' :: draft.footer actionKey) = none := rfl
    have hfooter : lineStarts ('\n' :: draft.footer actionKey) =
        ('\n' :: draft.footer actionKey) :: lineStarts (draft.footer actionKey) := rfl
    rw [findKey_append_feed hdigits, hfooter, List.findSome?_cons, hblank, findKey_footer hkey,
      LinearDraft.forgery, ← findKey_boundedBody]
    cases (lineStarts (draft.boundedBody actionKey)).findSome? readKey <;>
      cases (behindFeeds draft.evidenceIds).findSome? readKey <;> rfl

theorem extractActionKey_eq (issue : RenderedIssue) :
    extractActionKey issue.description =
      some (String.ofList ((issue.draft.forgery issue.actionKey).getD issue.actionKey.toList)) := by
  rw [extractActionKey, findKey_rendered issue.isKey issue.rendered, Option.map_some]

theorem extractActionKey_iff (issue : RenderedIssue) :
    extractActionKey issue.description = some issue.actionKey ↔ issue.Honest := by
  rw [extractActionKey_eq, Option.some_inj, Honest, ← String.toList_inj, String.toList_ofList]
  cases issue.draft.forgery issue.actionKey <;> simp

theorem footer_suffix (issue : RenderedIssue) :
    issue.draft.footer issue.actionKey <:+ issue.description.toList := by
  have h := issue.rendered
  simp only [LinearDraft.renderDescription] at h
  split_ifs at h with hlong hnil
  all_goals rw [← Option.some.inj h, String.toList_ofList]
  exact ⟨issue.draft.boundedBody issue.actionKey ++ ['\n', '\n'], by simp⟩

theorem length_le (issue : RenderedIssue) : issue.description.length ≤ maxDescriptionChars := by
  have h := issue.rendered
  simp only [LinearDraft.renderDescription] at h
  split_ifs at h with hlong hnil
  all_goals rw [← Option.some.inj h, String.length_ofList]
  · omega
  · have hbody : (issue.draft.boundedBody issue.actionKey).length ≤
        maxDescriptionChars - (issue.draft.footer issue.actionKey).length - 2 :=
      (List.rdropWhile_prefix isSpace _).length_le.trans (List.length_take_le _ _)
    simp only [List.length_append, List.length_cons]
    omega

theorem keyLine_infix (issue : RenderedIssue) :
    keyLine issue.actionKey <:+: issue.description.toList := by
  have hline : keyLine issue.actionKey <:+ issue.draft.footer issue.actionKey :=
    ⟨issue.draft.evidenceLines ++ ['\n'], by simp [LinearDraft.footer]⟩
  exact (hline.trans issue.footer_suffix).isInfix

theorem evidenceMarker_infix (issue : RenderedIssue) :
    evidenceMarker <:+: issue.description.toList := by
  have hmarker : evidenceMarker <:+: issue.draft.footer issue.actionKey :=
    ⟨"---\n".toList, ' ' :: issue.draft.evidenceIds ++ '\n' :: keyLine issue.actionKey,
      by simp [LinearDraft.footer, LinearDraft.evidenceLines]⟩
  exact hmarker.trans issue.footer_suffix.isInfix

def containing (actionKey : String) (issues : List RenderedIssue) : List RenderedIssue :=
  issues.filter fun issue => keyLine actionKey <:+: issue.description.toList

theorem filter_containing (actionKey : String) (issues : List RenderedIssue) :
    (containing actionKey issues).filter (fun issue => issue.actionKey = actionKey) =
      issues.filter fun issue => issue.actionKey = actionKey := by
  rw [containing, List.filter_filter]
  apply List.filter_congr
  intro issue _
  by_cases hkey : issue.actionKey = actionKey
  · have hinfix := issue.keyLine_infix
    rw [hkey] at hinfix
    simp [hkey, hinfix]
  · simp [hkey]

/-- What is found for a key among issues that are honest: those of the key that are answered. -/
theorem reconcileCreate_of_honest (htracker : tracker.Holds issues)
    (hhonest : ∀ issue ∈ issues, issue.Honest) :
    tracker.reconcileCreate limit actionKey =
      some (((containing actionKey issues).take limit).filter
        fun issue => issue.actionKey = actionKey) := by
  have hextract : ∀ issue ∈ (containing actionKey issues).take limit,
      extractActionKey issue.description = some issue.actionKey := by
    intro issue hissue
    rw [extractActionKey_iff]
    exact hhonest issue (List.mem_of_mem_filter (List.mem_of_mem_take hissue))
  have hvalid : (((containing actionKey issues).take limit).all fun issue =>
      (extractActionKey issue.description).all isActionKey) = true := by
    rw [List.all_eq_true]
    intro issue hissue
    rw [hextract issue hissue]
    exact issue.isKey
  simp only [LinearTracker.reconcileCreate, htracker.found]
  rw [containing] at hvalid
  rw [if_pos hvalid, Option.some_inj]
  apply List.filter_congr
  intro issue hissue
  rw [hextract issue hissue]
  simp [issue.evidenceMarker_infix]

/-- Each issue is recognised by its key, whole and with its footer, and by no other one. -/
def Recognised (tracker : LinearTracker) (limit : ℕ) (issues : List RenderedIssue) : Prop :=
  (∀ issue ∈ issues, extractActionKey issue.description = some issue.actionKey ∧
    issue.description.length ≤ maxDescriptionChars ∧
    issue.draft.footer issue.actionKey <:+ issue.description.toList ∧
    tracker.create issue = some issue) ∧
  ∀ actionKey, isActionKey actionKey = true → tracker.reconcileCreate limit actionKey =
    some (issues.filter fun issue => issue.actionKey = actionKey)

/-- Every issue that is made is recognised by its key, and by no other one, if and only if none of
them has the line of another key above its own and no search leaves out an issue of the key. -/
theorem keys_recognised (limit : ℕ) (issues : List RenderedIssue)
    (htracker : tracker.Holds issues) : Recognised tracker limit issues ↔
      (∀ issue ∈ issues, issue.Honest) ∧
        ∀ actionKey, isActionKey actionKey = true →
          ∀ issue ∈ (containing actionKey issues).drop limit, issue.actionKey ≠ actionKey := by
  have hfound (hhonest : ∀ issue ∈ issues, issue.Honest) (actionKey : String) :
      tracker.reconcileCreate limit actionKey =
          some (issues.filter fun issue => issue.actionKey = actionKey) ↔
        ∀ issue ∈ (containing actionKey issues).drop limit, issue.actionKey ≠ actionKey := by
    have hsplit : issues.filter (fun issue => issue.actionKey = actionKey) =
        ((containing actionKey issues).take limit).filter
          (fun issue => issue.actionKey = actionKey) ++
          ((containing actionKey issues).drop limit).filter
            fun issue => issue.actionKey = actionKey := by
      rw [← List.filter_append, List.take_append_drop, filter_containing]
    rw [reconcileCreate_of_honest htracker hhonest, Option.some_inj, hsplit,
      List.self_eq_append_right, List.filter_eq_nil_iff]
    simp
  constructor
  · rintro ⟨hmade, hsearch⟩
    have hhonest : ∀ issue ∈ issues, issue.Honest :=
      fun issue hissue => issue.extractActionKey_iff.mp (hmade issue hissue).1
    exact ⟨hhonest, fun actionKey hkey => (hfound hhonest actionKey).mp (hsearch actionKey hkey)⟩
  · rintro ⟨hhonest, hleft⟩
    refine ⟨fun issue hissue => ?_, fun actionKey hkey =>
      (hfound hhonest actionKey).mpr (hleft actionKey hkey)⟩
    have hextract := issue.extractActionKey_iff.mpr (hhonest issue hissue)
    refine ⟨hextract, issue.length_le, issue.footer_suffix, ?_⟩
    rw [LinearTracker.create, htracker.made, if_pos hextract]

def keyOf (c : Char) : String := String.ofList (List.replicate 64 c)

/-- The issue of a draft for a key of one digit over and over. -/
def issueOf (description : String) (c : Char) (hc : (c.isDigit || ('a' ≤ c && c ≤ 'f')) = true)
    (h : ((⟨some description, ["e1"]⟩ : LinearDraft).renderDescription (keyOf c)).isSome = true) :
    RenderedIssue where
  draft := ⟨some description, ["e1"]⟩
  actionKey := keyOf c
  description := Option.get _ h
  isKey := by simpa [isActionKey, keyOf] using hc
  rendered := (Option.some_get h).symm

/-- Two issues, of which one has the key of the other in its text. -/
def quoted : List RenderedIssue :=
  [issueOf ("As in matinier-action-key: " ++ keyOf 'a') 'b' (by decide) (by decide +kernel),
    issueOf "Send the report" 'a' (by decide) (by decide +kernel)]

theorem quoted_recognised : Recognised ⟨RenderedIssue.description, fun limit text =>
    (quoted.filter fun issue => text <:+: issue.description.toList).take limit⟩ 2 quoted := by
  refine (keys_recognised 2 quoted ⟨fun _ => rfl, fun _ _ => rfl⟩).mpr
    ⟨?_, fun actionKey _ issue h => ?_⟩
  · have hnone : ∀ issue ∈ quoted, issue.draft.forgery issue.actionKey = none := by decide +kernel
    intro issue hissue key hkey
    rw [hnone issue hissue] at hkey
    cases hkey
  · have hlength : (containing actionKey quoted).length ≤ 2 := List.length_filter_le _ quoted
    rw [List.drop_eq_nil_of_le hlength] at h
    cases h

/-- Of a draft whose body has a marker with a letter i that has no dot, another key is read. -/
theorem dotless_forges :
    let draft : LinearDraft :=
      ⟨some (String.ofList ("mat\u0131nier-action-key: ".toList ++ List.replicate 64 'b')), ["e1"]⟩
    let actionKey := String.ofList (List.replicate 64 'a')
    draft.Admitted ∧ isActionKey actionKey = true ∧
      (draft.renderDescription actionKey).bind extractActionKey =
        some (String.ofList (List.replicate 64 'b')) := by
  refine ⟨⟨?_, by decide, by decide, by decide⟩, ?_, ?_⟩
  · rintro description ⟨⟩
    rw [String.length_ofList]
    decide +kernel
  · rw [isActionKey, String.length_ofList, String.toList_ofList]
    decide +kernel
  · unfold LinearDraft.renderDescription
    rw [if_neg (by decide +kernel), Option.bind_some, extractActionKey, String.toList_ofList]
    decide +kernel

end RenderedIssue
end TaskSystem
end Matinier
