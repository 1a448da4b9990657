import Mathlib.Data.List.Perm.Basic
import Matinier.Meeting.Candidates

/-!
# What a merge keeps

Two contents that may be merged are of one thing, but they need not say the same of it. A field of
the merged content is the field of the side that is settled further, and of the survivor where
both are settled alike. So it depends on how far the fields are settled whether the merge keeps
what either side says, and whether the order of the two sides counts.
-/

namespace Matinier
namespace Meeting

open Assistant

/-- The same person, as far as a content says it, whatever the case of the name. -/
def SameAssignee (casefold : String → String) (a b : AssigneeValue) : Prop :=
  casefold a.spokenText = casefold b.spokenText ∧ a.linearUserId = b.linearUserId ∧
    a.isPlaceholder = b.isPlaceholder

/-- The field has a value if one of two fields has one. -/
def KeepsValue {α : Type} (left right merged : GroundedValue α) : Prop :=
  left.value.isSome = true ∨ right.value.isSome = true → merged.value.isSome = true

def resolvedUser (assignee : GroundedValue AssigneeValue) : Option String :=
  assignee.value.bind AssigneeValue.linearUserId

/-- Two fields of one resolution and of the same value, as values are compared. -/
def SameField {α : Type} (same : α → α → Prop) (field other : GroundedValue α) : Prop :=
  field.resolution = other.resolution ∧ Option.Rel same field.value other.value

/-- Nothing of the two sides is lost. -/
structure LosesNothing (left right merged : ActionCandidateContent) : Prop where
  title : KeepsValue left.title right.title merged.title
  deliverable : KeepsValue left.deliverable right.deliverable merged.deliverable
  assignee : KeepsValue left.assignee right.assignee merged.assignee
  dueAt : KeepsValue left.dueAt right.dueAt merged.dueAt
  priority : KeepsValue left.priority right.priority merged.priority
  user : (resolvedUser left.assignee).isSome = true ∨ (resolvedUser right.assignee).isSome = true →
    (resolvedUser merged.assignee).isSome = true
  messages : ∀ message ∈ left.evidenceMessages ++ right.evidenceMessages,
    message ∈ merged.evidenceMessages

/-- The same values and resolutions, up to the order of the evidence and the case of texts. -/
structure SameContent (casefold : String → String) (content other : ActionCandidateContent) :
    Prop where
  title : SameField (fun a b => casefold a = casefold b) content.title other.title
  deliverable : SameField (fun a b => casefold a = casefold b) content.deliverable
    other.deliverable
  assignee : SameField (SameAssignee casefold) content.assignee other.assignee
  dueAt : SameField (fun a b => a.utcInstant = b.utcInstant) content.dueAt other.dueAt
  priority : SameField Eq content.priority other.priority
  messages : content.evidenceMessages.Perm other.evidenceMessages

/-- The contents can be merged in both orders, nothing is lost, and the order does not count. -/
def MergesWell (casefold : String → String) (left right : ActionCandidateContent) : Prop :=
  ∃ merged swapped, mergeContent left right = .ok merged ∧ mergeContent right left = .ok swapped ∧
    LosesNothing left right merged ∧ SameContent casefold merged swapped

/-- A field that is settled as far as another one has a value if that has one. -/
def Covers {α : Type} (field other : GroundedValue α) : Prop :=
  other.resolution.rank ≤ field.resolution.rank → other.value.isSome = true →
    field.value.isSome = true

/-- The values of two fields that are settled alike are the same, as values are compared. -/
def AgreeSettledAlike {α : Type} (same : α → α → Prop) (field other : GroundedValue α) : Prop :=
  field.resolution = other.resolution → ∀ a ∈ field.value, ∀ b ∈ other.value, same a b

/-- An assignee that is settled further than another one has a user if that has one. -/
def CoversUser (assignee other : GroundedValue AssigneeValue) : Prop :=
  other.resolution.rank < assignee.resolution.rank → (resolvedUser other).isSome = true →
    (resolvedUser assignee).isSome = true

/-- Of each field, the side that is settled as far as the other one says as much; texts and
assignees that are settled alike differ in case only; and a message that both sides carry is the
same on both. -/
structure SettledTogether (casefold : String → String) (left right : ActionCandidateContent) :
    Prop where
  covers : Covers left.title right.title ∧ Covers right.title left.title ∧
    Covers left.deliverable right.deliverable ∧ Covers right.deliverable left.deliverable ∧
    Covers left.assignee right.assignee ∧ Covers right.assignee left.assignee ∧
    Covers left.dueAt right.dueAt ∧ Covers right.dueAt left.dueAt ∧
    Covers left.priority right.priority ∧ Covers right.priority left.priority
  title : AgreeSettledAlike (fun a b => casefold a = casefold b) left.title right.title
  deliverable : AgreeSettledAlike (fun a b => casefold a = casefold b) left.deliverable
    right.deliverable
  assignee : AgreeSettledAlike (SameAssignee casefold) left.assignee right.assignee
  user : CoversUser left.assignee right.assignee ∧ CoversUser right.assignee left.assignee
  messages : ∀ message ∈ left.evidenceMessages, ∀ other ∈ right.evidenceMessages,
    message.messageId = other.messageId → message = other

section Field

variable {α : Type} {left right : GroundedValue α}

theorem Resolution.rank_injective : Function.Injective Resolution.rank := by
  intro a b h
  cases a <;> cases b <;> first | rfl | exact absurd h (by decide)

theorem mergeGrounded_of_lt (h : left.resolution.rank < right.resolution.rank) :
    (mergeGrounded left right).value = right.value ∧
      (mergeGrounded left right).resolution = right.resolution := by
  have hpreferred : preferred left right = (right, left) := if_pos h
  unfold mergeGrounded
  simp [hpreferred]

theorem mergeGrounded_of_le (h : right.resolution.rank ≤ left.resolution.rank) :
    (mergeGrounded left right).value = left.value ∧
      (mergeGrounded left right).resolution = left.resolution := by
  have hpreferred : preferred left right = (left, right) := if_neg (not_lt.mpr h)
  unfold mergeGrounded
  simp [hpreferred]

theorem sameField_of_eq {same : α → α → Prop} (hrefl : ∀ a, same a a)
    {field other : GroundedValue α}
    (hvalue : field.value = other.value) (hresolution : field.resolution = other.resolution) :
    SameField same field other := by
  refine ⟨hresolution, ?_⟩
  rw [hvalue]
  cases other.value with
  | none => exact .none
  | some a => exact .some (hrefl a)

/-- A field is merged well just where each side has what the other has, if it is settled as far,
and the two agree where they are settled alike. -/
theorem field_iff {same : α → α → Prop} (hrefl : ∀ a, same a a) :
    KeepsValue left right (mergeGrounded left right) ∧
        SameField same (mergeGrounded left right) (mergeGrounded right left) ↔
      Covers left right ∧ Covers right left ∧ AgreeSettledAlike same left right := by
  unfold KeepsValue Covers AgreeSettledAlike
  rcases lt_trichotomy left.resolution.rank right.resolution.rank with hlt | heq | hlt
  · obtain ⟨hvalue, hresolution⟩ := mergeGrounded_of_lt hlt
    obtain ⟨hvalue', hresolution'⟩ := mergeGrounded_of_le hlt.le
    have hsame : SameField same (mergeGrounded left right) (mergeGrounded right left) :=
      sameField_of_eq hrefl (hvalue.trans hvalue'.symm) (hresolution.trans hresolution'.symm)
    have hne : left.resolution ≠ right.resolution := fun h => by simp [h] at hlt
    rw [hvalue]
    simp only [hsame, hne, hlt.le, not_le.mpr hlt, or_imp, imp_self, and_true, true_and,
      false_implies, true_implies]
  · obtain ⟨hvalue, hresolution⟩ := mergeGrounded_of_le heq.symm.le
    obtain ⟨hvalue', hresolution'⟩ := mergeGrounded_of_le heq.le
    have hres : left.resolution = right.resolution := Resolution.rank_injective heq
    unfold SameField
    rw [hvalue, hvalue', hresolution, hresolution']
    cases left.value <;> cases right.value <;> simp [hres]
  · obtain ⟨hvalue, hresolution⟩ := mergeGrounded_of_le hlt.le
    obtain ⟨hvalue', hresolution'⟩ := mergeGrounded_of_lt hlt
    have hsame : SameField same (mergeGrounded left right) (mergeGrounded right left) :=
      sameField_of_eq hrefl (hvalue.trans hvalue'.symm) (hresolution.trans hresolution'.symm)
    have hne : left.resolution ≠ right.resolution := fun h => by simp [h] at hlt
    rw [hvalue]
    simp only [hsame, hne, hlt.le, not_le.mpr hlt, or_imp, imp_self, and_true, true_and,
      false_implies, true_implies]

end Field

/-- The user of an assignee is kept just where a side that is settled further has one if the other
has. -/
theorem user_iff {casefold : String → String} {left right : GroundedValue AssigneeValue}
    (hcovers : Covers left right)
    (hagree : AgreeSettledAlike (SameAssignee casefold) left right) :
    ((resolvedUser left).isSome = true ∨ (resolvedUser right).isSome = true →
        (resolvedUser (mergeGrounded left right)).isSome = true) ↔
      CoversUser left right ∧ CoversUser right left := by
  have hmerged : ∀ field : GroundedValue AssigneeValue,
      (mergeGrounded left right).value = field.value →
        resolvedUser (mergeGrounded left right) = resolvedUser field := fun _ h =>
    congrArg (fun value : Option AssigneeValue => value.bind AssigneeValue.linearUserId) h
  unfold CoversUser
  rcases lt_trichotomy left.resolution.rank right.resolution.rank with hlt | heq | hlt
  · rw [hmerged right (mergeGrounded_of_lt hlt).1]
    simp only [hlt, not_lt.mpr hlt.le, or_imp, imp_self, and_true, true_and, false_implies,
      true_implies]
  · rw [hmerged left (mergeGrounded_of_le heq.symm.le).1]
    have hkept : (resolvedUser right).isSome = true → (resolvedUser left).isSome = true := by
      intro huser
      obtain ⟨user, huser⟩ := Option.isSome_iff_exists.mp huser
      obtain ⟨b, hb, hid⟩ := Option.bind_eq_some_iff.mp huser
      obtain ⟨a, ha⟩ := Option.isSome_iff_exists.mp (hcovers heq.symm.le (by simp [hb]))
      have hsame := hagree (Resolution.rank_injective heq) a ha b hb
      simp [resolvedUser, ha, hsame.2.1, hid]
    simpa [heq, or_imp] using hkept
  · rw [hmerged left (mergeGrounded_of_le hlt.le).1]
    simp only [hlt, not_lt.mpr hlt.le, or_imp, imp_self, and_true, true_and, false_implies,
      true_implies]

section Messages

variable {messages others : List CaptionEvidenceMessage} {message : CaptionEvidenceMessage}

theorem map_messageId_replaced (messages others : List CaptionEvidenceMessage) :
    (messages.map fun message =>
        (others.find? fun other => other.messageId = message.messageId).getD message).map
      CaptionEvidenceMessage.messageId = messages.map CaptionEvidenceMessage.messageId := by
  rw [List.map_map]
  apply List.map_congr_left
  intro message _
  cases hfind : others.find? fun other => other.messageId = message.messageId with
  | none => simp [hfind]
  | some other => simpa [hfind] using List.find?_some hfind

theorem mergeMessages_nodup (h : (messages.map CaptionEvidenceMessage.messageId).Nodup)
    (h' : (others.map CaptionEvidenceMessage.messageId).Nodup) :
    ((mergeMessages messages others).map CaptionEvidenceMessage.messageId).Nodup := by
  unfold mergeMessages
  rw [List.map_append, map_messageId_replaced, List.nodup_append']
  refine ⟨h, h'.sublist (List.filter_sublist.map _), ?_⟩
  intro id hid hid'
  obtain ⟨other, hother, rfl⟩ := List.mem_map.mp hid'
  simpa [hid] using (List.mem_filter.mp hother).2

/-- A message with the identifier of one that is among them all is that one. -/
theorem eq_of_messageId (h : (messages.map CaptionEvidenceMessage.messageId).Nodup)
    {other : CaptionEvidenceMessage} (hmessage : message ∈ messages) (hother : other ∈ messages)
    (hid : message.messageId = other.messageId) : message = other :=
  List.inj_on_of_nodup_map h hmessage hother hid

theorem mem_mergeMessages_right (h' : (others.map CaptionEvidenceMessage.messageId).Nodup)
    (hmessage : message ∈ others) : message ∈ mergeMessages messages others := by
  unfold mergeMessages
  rw [List.mem_append]
  by_cases hid : message.messageId ∈ messages.map CaptionEvidenceMessage.messageId
  · left
    obtain ⟨kept, hkept, hsame⟩ := List.mem_map.mp hid
    refine List.mem_map.mpr ⟨kept, hkept, ?_⟩
    have hsome : (others.find? fun other => other.messageId = kept.messageId).isSome = true :=
      List.find?_isSome.mpr ⟨message, hmessage, by simp [hsame]⟩
    obtain ⟨found, hfound⟩ := Option.isSome_iff_exists.mp hsome
    have hfoundId : found.messageId = kept.messageId := by simpa using List.find?_some hfound
    rw [hfound, Option.getD_some]
    exact eq_of_messageId h' (List.mem_of_find?_eq_some hfound) hmessage (hfoundId.trans hsame)
  · exact Or.inr (List.mem_filter.mpr ⟨hmessage, by simpa using hid⟩)

theorem mem_of_mem_mergeMessages (hmessage : message ∈ mergeMessages messages others) :
    message ∈ messages ∨ message ∈ others := by
  unfold mergeMessages at hmessage
  rcases List.mem_append.mp hmessage with hmessage | hmessage
  · obtain ⟨kept, hkept, rfl⟩ := List.mem_map.mp hmessage
    cases hfind : others.find? fun other => other.messageId = kept.messageId with
    | none => exact Or.inl (by simpa using hkept)
    | some other => exact Or.inr (by simpa using List.mem_of_find?_eq_some hfind)
  · exact Or.inr (List.mem_of_mem_filter hmessage)

theorem messageId_mem_mergeMessages (messages others : List CaptionEvidenceMessage) {id : MessageId}
    (hid : id ∈ messages.map CaptionEvidenceMessage.messageId ∨
      id ∈ others.map CaptionEvidenceMessage.messageId) :
    id ∈ (mergeMessages messages others).map CaptionEvidenceMessage.messageId := by
  unfold mergeMessages
  rw [List.map_append, map_messageId_replaced, List.mem_append]
  by_cases hleft : id ∈ messages.map CaptionEvidenceMessage.messageId
  · exact Or.inl hleft
  · right
    obtain ⟨other, hother, rfl⟩ := List.mem_map.mp (hid.resolve_left hleft)
    exact List.mem_map.mpr ⟨other, List.mem_filter.mpr ⟨hother, by simpa using hleft⟩, rfl⟩

/-- Every message of both sides is carried just where those with one identifier are the same. -/
theorem messages_iff (h : (messages.map CaptionEvidenceMessage.messageId).Nodup)
    (h' : (others.map CaptionEvidenceMessage.messageId).Nodup) :
    (∀ message ∈ messages ++ others, message ∈ mergeMessages messages others) ↔
      ∀ message ∈ messages, ∀ other ∈ others, message.messageId = other.messageId →
        message = other := by
  constructor
  · intro hall message hmessage other hother hid
    exact eq_of_messageId (mergeMessages_nodup h h')
      (hall message (List.mem_append_left _ hmessage)) (mem_mergeMessages_right h' hother) hid
  · intro hsame message hmessage
    rcases List.mem_append.mp hmessage with hmessage | hmessage
    · have hid := messageId_mem_mergeMessages messages others
        (Or.inl (List.mem_map_of_mem (f := CaptionEvidenceMessage.messageId) hmessage))
      obtain ⟨merged, hmerged, heq⟩ := List.mem_map.mp hid
      rcases mem_of_mem_mergeMessages hmerged with hfrom | hfrom
      · rw [← eq_of_messageId h hfrom hmessage heq]
        exact hmerged
      · rw [hsame message hmessage merged hfrom heq.symm]
        exact hmerged
    · exact mem_mergeMessages_right h' hmessage

end Messages

theorem mergeContent_eq_ok (left right : ActionCandidateContent) :
    ∃ merged, mergeContent left right = .ok merged ∧
      merged.title = mergeGrounded left.title right.title ∧
      merged.deliverable = mergeGrounded left.deliverable right.deliverable ∧
      merged.assignee = mergeGrounded left.assignee right.assignee ∧
      merged.dueAt = mergeGrounded left.dueAt right.dueAt ∧
      merged.priority = mergeGrounded left.priority right.priority ∧
      merged.evidenceMessages = mergeMessages left.evidenceMessages right.evidenceMessages := by
  have hnodup := mergeMessages_nodup left.messages_nodup right.messages_nodup
  -- What a side cites is among its messages, and those are among the merged ones.
  have hcited : ∀ id ∈ (left.blockingConflictMessageIds ++
    right.blockingConflictMessageIds).eraseDups
        ++ (mergeGrounded left.title right.title).evidenceMessageIds
        ++ (mergeGrounded left.deliverable right.deliverable).evidenceMessageIds
        ++ (mergeGrounded left.assignee right.assignee).evidenceMessageIds
        ++ (mergeGrounded left.dueAt right.dueAt).evidenceMessageIds
        ++ (mergeGrounded left.priority right.priority).evidenceMessageIds,
      id ∈ (mergeMessages left.evidenceMessages right.evidenceMessages).map
        CaptionEvidenceMessage.messageId := by
    intro id hid
    apply messageId_mem_mergeMessages
    have hleft := left.cited_available id
    have hright := right.cited_available id
    simp only [mergeGrounded, List.mem_append, List.mem_eraseDups] at hid hleft hright
    tauto
  exact ⟨_, (dif_pos hnodup).trans (dif_pos hcited), rfl, rfl, rfl, rfl, rfl, rfl⟩

theorem agree_of_safeMerge {cfg : CandidateConfig} {left right : ActionCandidateContent}
    (h : safeMerge cfg left right = .ok true) :
    AgreeSettledAlike (fun a b => a.utcInstant = b.utcInstant) left.dueAt right.dueAt ∧
      AgreeSettledAlike Eq left.priority right.priority := by
  unfold safeMerge at h
  split_ifs at h
  swap
  · cases h
  rw [bind_eq_ok] at h
  obtain ⟨sameDue, hdue, hboth⟩ := h
  have hand : sameDue = true ∧ samePriority left.priority.value right.priority.value = true := by
    simpa [pure_eq_ok] using hboth
  constructor
  · intro _ a ha b hb
    rw [Option.mem_def] at ha hb
    rw [ha, hb, hand.1] at hdue
    unfold sameDueDate at hdue
    simp only [bind_eq_ok, require_eq_ok, pure_eq_ok, decide_eq_true_eq] at hdue
    obtain ⟨instant, hinstant, instant', hinstant', heq⟩ := hdue
    rw [hinstant, hinstant', heq]
  · intro _ a ha b hb
    rw [Option.mem_def] at ha hb
    have hpriority := hand.2
    rw [ha, hb] at hpriority
    simpa [samePriority] using hpriority

/-- Of two contents that may be merged, the merge keeps what either side says, in either order,
just where the sides are settled together. -/
theorem mergesWell_iff (casefold : String → String) {cfg : CandidateConfig}
    {left right : ActionCandidateContent} (h : safeMerge cfg left right = .ok true) :
    MergesWell casefold left right ↔ SettledTogether casefold left right := by
  obtain ⟨hdue, hpriority⟩ := agree_of_safeMerge h
  obtain ⟨merged, hmerged, htitle, hdeliverable, hassignee, hdueAt, hprio, hmessages⟩ :=
    mergeContent_eq_ok left right
  obtain ⟨swapped, hswapped, htitle', hdeliverable', hassignee', hdueAt', hprio', hmessages'⟩ :=
    mergeContent_eq_ok right left
  have htext : ∀ a : String, casefold a = casefold a := fun _ => rfl
  have hperson : ∀ a : AssigneeValue, SameAssignee casefold a a := fun _ => ⟨rfl, rfl, rfl⟩
  have hinstant : ∀ a : DueDate, a.utcInstant = a.utcInstant := fun _ => rfl
  constructor
  · rintro ⟨m, s, hm, hs, hkept, hsame⟩
    obtain rfl := Except.ok.inj (hmerged.symm.trans hm)
    obtain rfl := Except.ok.inj (hswapped.symm.trans hs)
    obtain ⟨ktitle, kdeliverable, kassignee, kdueAt, kpriority, kuser, kmessages⟩ := hkept
    obtain ⟨stitle, sdeliverable, sassignee, sdueAt, spriority, -⟩ := hsame
    rw [htitle] at ktitle stitle
    rw [hdeliverable] at kdeliverable sdeliverable
    rw [hassignee] at kassignee sassignee kuser
    rw [hdueAt] at kdueAt sdueAt
    rw [hprio] at kpriority spriority
    rw [htitle'] at stitle
    rw [hdeliverable'] at sdeliverable
    rw [hassignee'] at sassignee
    rw [hdueAt'] at sdueAt
    rw [hprio'] at spriority
    rw [hmessages] at kmessages
    obtain ⟨ctitle, ctitle', atitle⟩ := (field_iff htext).mp ⟨ktitle, stitle⟩
    obtain ⟨cdeliverable, cdeliverable', adeliverable⟩ :=
      (field_iff htext).mp ⟨kdeliverable, sdeliverable⟩
    obtain ⟨cassignee, cassignee', aassignee⟩ := (field_iff hperson).mp ⟨kassignee, sassignee⟩
    obtain ⟨cdueAt, cdueAt', -⟩ := (field_iff hinstant).mp ⟨kdueAt, sdueAt⟩
    obtain ⟨cpriority, cpriority', -⟩ := (field_iff fun _ => rfl).mp ⟨kpriority, spriority⟩
    exact
      { covers := ⟨ctitle, ctitle', cdeliverable, cdeliverable', cassignee, cassignee', cdueAt,
          cdueAt', cpriority, cpriority'⟩
        title := atitle
        deliverable := adeliverable
        assignee := aassignee
        user := (user_iff cassignee aassignee).mp kuser
        messages := (messages_iff left.messages_nodup right.messages_nodup).mp kmessages }
  · rintro ⟨⟨ctitle, ctitle', cdeliverable, cdeliverable', cassignee, cassignee', cdueAt, cdueAt',
      cpriority, cpriority'⟩, atitle, adeliverable, aassignee, huser, hsingle⟩
    obtain ⟨ktitle, stitle⟩ := (field_iff htext).mpr ⟨ctitle, ctitle', atitle⟩
    obtain ⟨kdeliverable, sdeliverable⟩ :=
      (field_iff htext).mpr ⟨cdeliverable, cdeliverable', adeliverable⟩
    obtain ⟨kassignee, sassignee⟩ := (field_iff hperson).mpr ⟨cassignee, cassignee', aassignee⟩
    obtain ⟨kdueAt, sdueAt⟩ := (field_iff hinstant).mpr ⟨cdueAt, cdueAt', hdue⟩
    obtain ⟨kpriority, spriority⟩ :=
      (field_iff fun _ => rfl).mpr ⟨cpriority, cpriority', hpriority⟩
    have kuser := (user_iff cassignee aassignee).mpr huser
    have kmessages := (messages_iff left.messages_nodup right.messages_nodup).mpr hsingle
    have kmessages' := (messages_iff right.messages_nodup left.messages_nodup).mpr
      fun other hother message hmessage hid => (hsingle message hmessage other hother hid.symm).symm
    have hperm : (mergeMessages left.evidenceMessages right.evidenceMessages).Perm
        (mergeMessages right.evidenceMessages left.evidenceMessages) := by
      rw [List.perm_ext_iff_of_nodup
        (mergeMessages_nodup left.messages_nodup right.messages_nodup).of_map
        (mergeMessages_nodup right.messages_nodup left.messages_nodup).of_map]
      intro message
      constructor
      · intro hmem
        exact kmessages' message
          (List.mem_append.mpr (mem_of_mem_mergeMessages hmem).symm)
      · intro hmem
        exact kmessages message
          (List.mem_append.mpr (mem_of_mem_mergeMessages hmem).symm)
    refine ⟨merged, swapped, hmerged, hswapped, ?_, ?_⟩
    · constructor <;> simpa only [htitle, hdeliverable, hassignee, hdueAt, hprio, hmessages]
    · constructor <;> simpa only [htitle, hdeliverable, hassignee, hdueAt, hprio, hmessages,
        htitle', hdeliverable', hassignee', hdueAt', hprio', hmessages']

def slidesConfig : CandidateConfig where
  digest := fun _ _ _ => "candidate"
  normalizedText := id
  createdAt := fun _ => 0

def slidesCaption : ProjectionSegment where
  record :=
    { sessionId := 1
      segmentId := 1
      trackId := "track"
      revision := 1
      language := "en"
      rawText := "somebody has to finish the slides"
      displayText := "somebody has to finish the slides" }
  valid := by decide

def citing {α : Type} (value : Option α) (resolution : Resolution)
    (known_value : resolution = .known → value.isSome = true) : GroundedValue α where
  value
  origin := .meetingInferred
  resolution
  evidenceMessageIds := [CaptionEvidenceMessage.messageId ⟨slidesCaption⟩]
  confidence := none
  explanation := none
  known_value
  grounded := fun _ => List.cons_ne_nil _ _
  evidence_nodup := List.nodup_singleton _
  confidence_range := fun _ h => nomatch h
  explanation_brief := fun _ h => nomatch h

theorem missing_unknown {α : Type} :
    Resolution.missing = .known → (none : Option α).isSome = true :=
  fun h => by cases h

def slides (assignee : GroundedValue AssigneeValue)
    (hcites : assignee.evidenceMessageIds = [CaptionEvidenceMessage.messageId ⟨slidesCaption⟩]) :
    ActionCandidateContent where
  title := citing (some "finish slides") .known fun _ => rfl
  deliverable := citing (some "slides") .known fun _ => rfl
  assignee := assignee
  dueAt := citing none .missing missing_unknown
  priority := citing none .missing missing_unknown
  evidenceMessages := [⟨slidesCaption⟩]
  blockingConflictMessageIds := []
  messages_nodup := List.nodup_singleton _
  cited_available := by
    rw [hcites]
    simp [citing]

def somebody : ActionCandidateContent := slides (citing none .ambiguous nofun) rfl

def nobody : ActionCandidateContent := slides (citing none .missing nofun) rfl

theorem nobody_length : ∀ user ∈ (none : Option String), user.length ≤ 255 :=
  fun _ h => by cases h
theorem nobody_known : true = true → (none : Option String) = none := fun _ => rfl

def bob : AssigneeValue where
  spokenText := "Bob"
  linearUserId := none
  isPlaceholder := true
  spoken_length := by decide
  user_length := nobody_length
  placeholder_unknown := nobody_known

def perhapsBob : ActionCandidateContent := slides (citing (some bob) .ambiguous nofun) rfl

theorem safeMerge_slides : safeMerge slidesConfig somebody perhapsBob = .ok true ∧
    safeMerge slidesConfig nobody perhapsBob = .ok true := by
  decide

theorem nobody_merges_well : MergesWell id nobody perhapsBob := by
  apply (mergesWell_iff id safeMerge_slides.2).mpr
  constructor <;> simp [Covers, CoversUser, AgreeSettledAlike, nobody, perhapsBob, slides, citing,
    resolvedUser, Resolution.rank]

/-- Where both assignees are ambiguous and the survivor names none, the merge forgets the one that
the other side names. -/
theorem somebody_loses_bob : safeMerge slidesConfig somebody perhapsBob = .ok true ∧
    ¬ MergesWell id somebody perhapsBob := by
  refine ⟨safeMerge_slides.1, ?_⟩
  rintro ⟨merged, swapped, hmerged, -, hkept, -⟩
  obtain ⟨m, hm, -, -, hassignee, -⟩ := mergeContent_eq_ok somebody perhapsBob
  obtain rfl := Except.ok.inj (hm.symm.trans hmerged)
  have hvalue := hkept.assignee (Or.inr rfl)
  rw [hassignee] at hvalue
  exact absurd hvalue (by decide)

end Meeting
end Matinier
