import Mathlib.Logic.Equiv.List
import Matinier.Assistant.Plugin.AdmissionSpec
import Matinier.Assistant.Plugin.Previews

/-!
# Each preview is used once

The answer to a preview is kept in the step that creates its intent, an intent is consumed in the
step that admits its operation, and a request has one operation. So a preview leads to one
operation at most, however often it is confirmed and admitted, and that operation is what the
preview showed.
-/

namespace Matinier
namespace Assistant

section New

variable {db db' : MeetingDb} {host : HostConfig}

private theorem eq_singleton_of_nodup {α : Type} {l : List α} {a : α} (hnodup : l.Nodup)
    (hall : ∀ b ∈ l, b = a) (ha : a ∈ l) : l = [a] := by
  have hlength : l.length ≤ 1 := by
    rw [List.eq_replicate_of_mem hall, List.nodup_replicate] at hnodup
    exact hnodup
  rw [List.eq_replicate_of_mem hall]
  have hpositive : 0 < l.length := List.length_pos_of_mem ha
  have hone : l.length = 1 := by omega
  rw [hone]
  rfl

def ConsumedKept (db db' : MeetingDb) : Prop :=
  ∀ id i, db.intents.get id = some i → i.status = .consumed →
    ∃ i', db'.intents.get id = some i' ∧ i'.status = .consumed

theorem mem_newIntents {id : IntentId} : id ∈ newIntents db db' ↔
    (∃ i, db'.intents.get id = some i) ∧ db.intents.get id = none := by
  simp only [newIntents, List.mem_filter, List.mem_map, Option.isNone_iff_eq_none]
  refine and_congr_left fun _ => ⟨?_, ?_⟩
  · rintro ⟨i, hi, rfl⟩
    exact ⟨i, Table.get_of_mem hi⟩
  · rintro ⟨i, hi⟩
    exact ⟨i, Table.mem_of_get hi, Table.key_of_get hi⟩

theorem newIntents_nodup (db db' : MeetingDb) : (newIntents db db').Nodup :=
  db'.intents.keys_nodup.filter _

theorem mem_newlyConsumed {id : IntentId} : id ∈ newlyConsumed db db' ↔
    (∃ i, db'.intents.get id = some i ∧ i.status = .consumed) ∧
      ∀ i, db.intents.get id = some i → i.status ≠ .consumed := by
  simp only [newlyConsumed, List.mem_filter, List.mem_map, Table.mem_select, decide_eq_true_eq]
  constructor
  · rintro ⟨⟨i, ⟨hi, hstatus⟩, rfl⟩, hold⟩
    refine ⟨⟨i, Table.get_of_mem hi, hstatus⟩, fun old hget heq => hold ?_⟩
    rw [hget, Option.map_some, heq]
  · rintro ⟨⟨i, hi, hstatus⟩, hold⟩
    refine ⟨⟨i, ⟨Table.mem_of_get hi, hstatus⟩, Table.key_of_get hi⟩, fun hconsumed => ?_⟩
    obtain ⟨old, hget, heq⟩ := Option.map_eq_some_iff.mp hconsumed
    exact hold old hget heq

theorem newlyConsumed_nodup (db db' : MeetingDb) : (newlyConsumed db db').Nodup :=
  (db'.intents.keys_nodup.sublist (List.filter_sublist.map _)).filter _

theorem Admits.consumed (h : Admits host db db') : ConsumedKept db db' := by
  intro id i hget hstatus
  cases h with
  | none hintents _ =>
    obtain ⟨i', hi', hkept⟩ := hintents.kept id i hget
    exact ⟨i', hi', hkept.consumed hstatus⟩
  | one intent consumed o _ _ _ hconsumed hintents =>
    by_cases hid : id = Row.key consumed
    · exact ⟨consumed, hid ▸ hintents.1, hconsumed⟩
    · exact ⟨i, (hintents.2 id hid).trans hget, hstatus⟩

theorem Admits.newIntents (h : Admits host db db') : newIntents db db' = [] := by
  rw [List.eq_nil_iff_forall_not_mem]
  intro id hid
  obtain ⟨⟨i, hi⟩, hnone⟩ := mem_newIntents.mp hid
  cases h with
  | none hintents _ => exact hintents.fresh id i hi hnone
  | one intent consumed o hget _ hkept _ hintents =>
    have hkey : Row.key consumed = intent.id := hkept.id
    by_cases hid : id = Row.key consumed
    · rw [hid, hkey, hget] at hnone
      cases hnone
    · rw [hintents.2 id hid, hnone] at hi
      cases hi

variable {c : Confirmation} {intent : IntentRecord} {created : MeetingDb}

theorem Confirmed.consumed (h : Confirmed host c db intent created db') : ConsumedKept db db' := by
  intro id i hget hstatus
  have hother : id ≠ Row.key intent := fun heq => by
    have hnew := h.new
    rw [show intent.id = id from heq.symm, hget] at hnew
    cases hnew
  exact h.admits.consumed id i ((h.intents.2 id hother).trans hget) hstatus

theorem Confirmed.newIntents (h : Confirmed host c db intent created db') :
    newIntents db db' = [intent.id] := by
  have hnone := h.admits.newIntents
  refine eq_singleton_of_nodup (newIntents_nodup db db') (fun id hid => ?_) ?_
  · obtain ⟨hi, hget⟩ := mem_newIntents.mp hid
    by_contra hother
    have hmem : id ∈ Assistant.newIntents created db' :=
      mem_newIntents.mpr ⟨hi, (h.intents.2 id hother).trans hget⟩
    rw [hnone] at hmem
    cases hmem
  · refine mem_newIntents.mpr ⟨?_, h.new⟩
    have hcreated : created.intents.get intent.id = some intent := h.intents.1
    cases h.admits with
    | none hintents _ =>
      obtain ⟨i', hi', -⟩ := hintents.kept _ _ hcreated
      exact ⟨i', hi'⟩
    | one other consumed o _ _ _ _ hintents =>
      by_cases hid : intent.id = Row.key consumed
      · exact ⟨consumed, hid ▸ hintents.1⟩
      · exact ⟨intent, (hintents.2 _ hid).trans hcreated⟩

theorem newGrants_of_eq (h : db'.capabilityGrants = db.capabilityGrants) :
    newGrants db db' = [] := by
  rw [List.eq_nil_iff_forall_not_mem]
  intro id hid
  rw [newGrants, h, List.mem_filter, List.mem_map, Option.isNone_iff_eq_none] at hid
  obtain ⟨⟨grant, hgrant, rfl⟩, hnone⟩ := hid
  have hget := Table.get_of_mem hgrant
  rw [show Row.key grant = grant.id from rfl, hnone] at hget
  cases hget

theorem Confirmed.newGrants (h : Confirmed host c db intent created db') :
    (newGrants db db').length ≤ 1 := by
  rcases h.grants with hsame | ⟨grant, hinsert⟩
  · rw [newGrants_of_eq (h.kept.trans hsame)]
    exact Nat.zero_le 1
  · have hnodup : (Assistant.newGrants db db').Nodup := db'.capabilityGrants.keys_nodup.filter _
    have hall : ∀ id ∈ Assistant.newGrants db db', id = grant.id := by
      intro id hid
      rw [Assistant.newGrants, h.kept, List.mem_filter, List.mem_map,
        Option.isNone_iff_eq_none] at hid
      obtain ⟨⟨row, hrow, rfl⟩, hnone⟩ := hid
      rcases (Table.mem_insert hinsert).mp hrow with hold | rfl
      · have hget := Table.get_of_mem hold
        rw [show Row.key row = row.id from rfl, hnone] at hget
        cases hget
      · rfl
    rw [List.eq_replicate_of_mem hall, List.nodup_replicate] at hnodup
    exact hnodup

end New

/-- The intent is that of a preview which was shown, with the grant of its confirmation. -/
structure IntentOf (shown : List Preview) (yields : List Yield) (preview : Preview)
    (intent : IntentRecord) : Prop where
  shown : preview ∈ shown
  yielded : ∃ grants, Yield.mk preview [intent.id] grants ∈ yields
  scope : intent.scope =
    { preview.scope with capabilityGrantId := intent.scope.capabilityGrantId }

theorem IntentOf.kept {shown shown' : List Preview} {yields yields' : List Yield}
    {preview : Preview} {i i' : IntentRecord} (h : IntentOf shown yields preview i)
    (hshown : shown ⊆ shown') (hyields : yields ⊆ yields') (hkept : IntentKept i i') :
    IntentOf shown' yields' preview i' := by
  obtain ⟨grants, hyield⟩ := h.yielded
  refine ⟨hshown h.shown, ⟨grants, hyields ?_⟩, ?_⟩
  · rw [hkept.id]
    exact hyield
  · rw [hkept.scope]
    exact h.scope

/-- Every intent is of a preview, and every operation of its own consumed intent. -/
structure TablesSound (host : HostConfig) (shown : List Preview) (yields : List Yield)
    (db : MeetingDb) : Prop where
  intents : ∀ i ∈ db.intents.rows, ∃ preview, IntentOf shown yields preview i
  operations : ∀ o ∈ db.operations.rows, ∃ i ∈ db.intents.rows,
    i.status = .consumed ∧ AdmittedUnder host i o
  once : ∀ o ∈ db.operations.rows, ∀ o' ∈ db.operations.rows, o.intentId = o'.intentId → o = o'

namespace TablesSound

variable {host : HostConfig} {shown shown' : List Preview} {yields yields' : List Yield}
  {db db' created : MeetingDb}

theorem mono (h : TablesSound host shown yields db) (hshown : shown ⊆ shown')
    (hyields : yields ⊆ yields') : TablesSound host shown' yields' db :=
  ⟨fun i hi =>
    let ⟨preview, hpreview⟩ := h.intents i hi
    ⟨preview, hpreview.kept hshown hyields (.refl i)⟩, h.operations, h.once⟩

private theorem intents_kept (h : TablesSound host shown yields db)
    (hkept : ∀ k i, db'.intents.get k = some i → ∃ old, db.intents.get k = some old ∧
      IntentKept old i) {i : IntentRecord} (hi : i ∈ db'.intents.rows) :
    ∃ preview, IntentOf shown yields preview i := by
  obtain ⟨old, hold, hsame⟩ := hkept _ i (Table.get_of_mem hi)
  obtain ⟨preview, hpreview⟩ := h.intents old (Table.mem_of_get hold)
  exact ⟨preview, hpreview.kept (List.Subset.refl _) (List.Subset.refl _) hsame⟩

theorem admits (h : TablesSound host shown yields db) (hadmits : Admits host db db') :
    TablesSound host shown yields db' := by
  cases hadmits with
  | none hintents hoperations =>
    have hpast : ∀ o ∈ db'.operations.rows, ∃ old ∈ db.operations.rows, Restated old o := by
      intro o ho
      have hget := Table.get_of_mem ho
      cases hold : db.operations.get (Row.key o) with
      | none => exact (hoperations.fresh _ o hget hold).elim
      | some old =>
        obtain ⟨o', ho', hsame⟩ := hoperations.kept _ old hold
        obtain rfl : o' = o := Option.some.inj (ho'.symm.trans hget)
        exact ⟨old, Table.mem_of_get hold, hsame⟩
    refine ⟨fun i hi => h.intents_kept (fun k i hget => ?_) hi, fun o ho => ?_,
      fun o ho o' ho' heq => ?_⟩
    · cases hold : db.intents.get k with
      | none => exact (hintents.fresh k i hget hold).elim
      | some old =>
        obtain ⟨i', hi', hsame⟩ := hintents.kept k old hold
        obtain rfl : i' = i := Option.some.inj (hi'.symm.trans hget)
        exact ⟨old, rfl, hsame⟩
    · obtain ⟨old, hold, hsame⟩ := hpast o ho
      obtain ⟨i, hi, hconsumed, hunder⟩ := h.operations old hold
      obtain ⟨i', hi', hkept⟩ := hintents.kept _ i (Table.get_of_mem hi)
      exact ⟨i', Table.mem_of_get hi', hkept.consumed hconsumed, hunder.kept hkept hsame⟩
    · obtain ⟨old, hold, status, errorCode, rfl⟩ := hpast o ho
      obtain ⟨old', hold', status', errorCode', rfl⟩ := hpast o' ho'
      obtain rfl : old = old' := h.once old hold old' hold' heq
      exact Table.eq_of_key ho ho' rfl
  | one intent consumed o hget hactive hkept hconsumed hintents hnew hoperations hunder =>
    have hkey : Row.key consumed = intent.id := hkept.id
    have hother : ∀ old ∈ db.operations.rows, old.intentId ≠ o.intentId := by
      intro old hold heq
      obtain ⟨i, hi, hstatus, hadmitted⟩ := h.operations old hold
      have hid : i.id = intent.id :=
        Option.some.inj (hadmitted.intentId.symm.trans (heq.trans hunder.intentId))
      have hsame := Table.get_of_mem hi
      rw [show Row.key i = intent.id from hid, hget] at hsame
      cases hsame
      rw [hactive] at hstatus
      cases hstatus
    have hpast : ∀ row ∈ db'.operations.rows, row = o ∨ row ∈ db.operations.rows :=
      fun row hrow => ((hoperations.mem).mp hrow).imp_right And.left
    refine ⟨fun i hi => h.intents_kept (fun k i hi => ?_) hi, fun row hrow => ?_,
      fun row hrow row' hrow' heq => ?_⟩
    · rw [hintents.get] at hi
      split_ifs at hi with hk
      · cases hi
        exact ⟨intent, hk.trans hkey ▸ hget, hkept⟩
      · exact ⟨i, hi, .refl i⟩
    · rcases hpast row hrow with rfl | hrow
      · exact ⟨consumed, Table.mem_of_get hintents.1, hconsumed, hunder.kept hkept (.refl row)⟩
      · obtain ⟨i, hi, hstatus, hadmitted⟩ := h.operations row hrow
        have hne : Row.key i ≠ Row.key consumed := fun heq => by
          have hsame := Table.get_of_mem hi
          rw [heq, hkey, hget] at hsame
          cases hsame
          rw [hactive] at hstatus
          cases hstatus
        exact ⟨i, Table.mem_of_get ((hintents.2 _ hne).trans (Table.get_of_mem hi)), hstatus,
          hadmitted⟩
    · rcases hpast row hrow with rfl | hold <;> rcases hpast row' hrow' with rfl | hold'
      · rfl
      · exact absurd heq.symm (hother row' hold')
      · exact absurd heq (hother row hold)
      · exact h.once row hold row' hold' heq

theorem confirmed {c : Confirmation} {intent : IntentRecord} {preview : Preview}
    (h : TablesSound host shown yields db) (hconfirmed : Confirmed host c db intent created db')
    (hpreviewed : c.previewed = preview.scope) (hpreview : preview ∈ shown)
    (grants : List CapabilityGrantId) (hyields : yields ⊆ yields')
    (hyield : Yield.mk preview [intent.id] grants ∈ yields') :
    TablesSound host shown yields' db' := by
  refine admits (?_ : TablesSound host shown yields' created) hconfirmed.admits
  have hintents := hconfirmed.intents
  refine ⟨fun i hi => ?_, fun o ho => ?_, ?_⟩
  · rcases hintents.mem.mp hi with rfl | ⟨hold, -⟩
    · exact ⟨preview, hpreview, ⟨grants, hyield⟩, hpreviewed ▸ hconfirmed.scope⟩
    · exact (h.mono (List.Subset.refl _) hyields).intents i hold
  · rw [hconfirmed.operations] at ho
    obtain ⟨i, hi, hstatus, hadmitted⟩ := h.operations o ho
    refine ⟨i, hintents.mem.mpr (Or.inr ⟨hi, fun heq => ?_⟩), hstatus, hadmitted⟩
    have hnew := hconfirmed.new
    rw [show intent.id = Row.key i from heq.symm, Table.get_of_mem hi] at hnew
    cases hnew
  · rw [hconfirmed.operations]
    exact h.once

end TablesSound

/-- Each preview has its own identifier and was shown as it is, but for its answer; one that has
no answer has led to nothing. -/
structure PagesSound (actions : HostActions) (shown : List Preview) (yields : List Yield) :
    Prop where
  ids : (actions.previews.map Preview.id).Nodup
  previews : ∀ p ∈ actions.previews,
    p.id < actions.nextPreviewId ∧ { p with response := none } ∈ shown
  past : ∀ y ∈ yields, y.preview.id < actions.nextPreviewId
  unanswered : ∀ p ∈ actions.previews, p.response = none → ∀ y ∈ yields,
    y.preview.id = p.id → y.intents = [] ∧ y.grants = []

namespace PagesSound

variable {actions actions' : HostActions} {shown : List Preview} {yields : List Yield}

theorem sublist (h : PagesSound actions shown yields)
    (hprevious : actions'.previews.Sublist actions.previews)
    (hnext : actions'.nextPreviewId = actions.nextPreviewId) : PagesSound actions' shown yields :=
  ⟨h.ids.sublist (hprevious.map _),
    fun p hp => hnext ▸ h.previews p (hprevious.subset hp), fun y hy => hnext ▸ h.past y hy,
    fun p hp => h.unanswered p (hprevious.subset hp)⟩

theorem cleanup (h : PagesSound actions shown yields) (now : Instant) :
    PagesSound (actions.cleanup now) shown yields :=
  h.sublist List.filter_sublist rfl

theorem answer (h : PagesSound actions shown yields) (id : PreviewId) (response : HostResponse) :
    PagesSound (actions.answer id response) shown yields := by
  have hold : ∀ p ∈ (actions.answer id response).previews, ∃ old ∈ actions.previews,
      p.id = old.id ∧ { p with response := none } = { old with response := none } ∧
        (p.response = none → p = old ∧ p.id ≠ id) := by
    intro p hp
    obtain ⟨old, hmem, rfl⟩ := List.mem_map.mp hp
    refine ⟨old, hmem, ?_⟩
    split_ifs with hid
    · exact ⟨rfl, rfl, fun hnone => by cases hnone⟩
    · exact ⟨rfl, rfl, fun _ => ⟨rfl, hid⟩⟩
  have hids : (actions.answer id response).previews.map Preview.id =
      actions.previews.map Preview.id := by
    rw [HostActions.answer, List.map_map]
    refine List.map_congr_left fun p _ => ?_
    simp only [Function.comp_apply]
    split_ifs <;> rfl
  refine ⟨hids ▸ h.ids, fun p hp => ?_, h.past, fun p hp hnone => ?_⟩
  · obtain ⟨old, hmem, hid, hsame, -⟩ := hold p hp
    rw [hsame, hid]
    exact h.previews old hmem
  · obtain ⟨old, hmem, -, -, hopen⟩ := hold p hp
    obtain ⟨rfl, -⟩ := hopen hnone
    exact h.unanswered p hmem hnone

/-- After its answer is kept, more may be known of what a preview has led to. -/
theorem yield (h : PagesSound actions shown yields) {y : Yield}
    (hpast : y.preview.id < actions.nextPreviewId)
    (hopen : ∀ p ∈ actions.previews, p.response = none → p.id = y.preview.id →
      y.intents = [] ∧ y.grants = []) : PagesSound actions shown (yields ++ [y]) := by
  refine ⟨h.ids, h.previews, fun other hother => ?_, fun p hp hnone other hother heq => ?_⟩
  · rcases List.mem_append.mp hother with hother | hother
    · exact h.past other hother
    · rw [List.mem_singleton.mp hother]
      exact hpast
  · rcases List.mem_append.mp hother with hother | hother
    · exact h.unanswered p hp hnone other hother heq
    · obtain rfl := List.mem_singleton.mp hother
      exact hopen p hp hnone heq.symm

theorem prepared (h : PagesSound actions shown yields) {preview : Preview}
    (hid : preview.id = actions.nextPreviewId) (hnone : preview.response = none)
    (hprevious : actions'.previews = actions.previews ++ [preview])
    (hnext : actions'.nextPreviewId = actions.nextPreviewId + 1) :
    PagesSound actions' (shown ++ [preview]) yields := by
  have hself : { preview with response := none } = preview := by rw [← hnone]
  refine ⟨?_, fun p hp => ?_, fun y hy => ?_, fun p hp hopen y hy heq => ?_⟩
  · rw [hprevious, List.map_append, List.nodup_append]
    refine ⟨h.ids, List.nodup_singleton _, fun old hold new hnew heq => ?_⟩
    obtain ⟨p, hp, rfl⟩ := List.mem_map.mp hold
    have hlt := (h.previews p hp).1
    rw [heq, List.mem_singleton.mp hnew, hid] at hlt
    exact Nat.lt_irrefl _ hlt
  · rw [hprevious] at hp
    rw [hnext]
    rcases List.mem_append.mp hp with hp | hp
    · obtain ⟨hlt, hshown⟩ := h.previews p hp
      exact ⟨Nat.lt_succ_of_lt hlt, List.mem_append_left _ hshown⟩
    · rw [List.mem_singleton.mp hp, hself, hid]
      exact ⟨Nat.lt_succ_self _, List.mem_append_right _ List.mem_cons_self⟩
  · rw [hnext]
    exact Nat.lt_succ_of_lt (h.past y hy)
  · rw [hprevious] at hp
    rcases List.mem_append.mp hp with hp | hp
    · exact h.unanswered p hp hopen y hy heq
    · have hlt := h.past y hy
      rw [heq, List.mem_singleton.mp hp, hid] at hlt
      exact absurd hlt (Nat.lt_irrefl _)

theorem getPreview_cleanup (h : PagesSound actions shown yields) {now : Instant} {id : PreviewId}
    {preview : Preview} (hget : (actions.cleanup now).getPreview id = some preview) :
    actions.getPreview id = some preview ∧ preview ∈ (actions.cleanup now).previews ∧
      preview.id = id := by
  have hfind : ∀ {actions : HostActions} {p}, actions.getPreview id = some p →
      p ∈ actions.previews ∧ p.id = id := fun h =>
    ⟨List.mem_of_find?_eq_some h, by simpa using List.find?_some h⟩
  obtain ⟨hmem, hid⟩ := hfind hget
  have hold : preview ∈ actions.previews := List.mem_of_mem_filter hmem
  refine ⟨?_, hmem, hid⟩
  cases hfound : actions.getPreview id with
  | none =>
    have hnone := List.find?_eq_none.mp hfound preview hold
    simp [hid] at hnone
  | some other =>
    obtain ⟨hother, heq⟩ := hfind hfound
    exact congrArg some (List.inj_on_of_nodup_map h.ids hother hold (heq.trans hid.symm))

end PagesSound

/-- What a preview has led to in all its confirmations. -/
def yieldedBy (yields : List Yield) (id : PreviewId) : List Yield :=
  yields.filter fun y => y.preview.id = id

/-- A preview has led to one intent and one grant at most. -/
def YieldedOnce (yields : List Yield) : Prop := ∀ id,
  ((yieldedBy yields id).flatMap Yield.intents).length ≤ 1 ∧
    ((yieldedBy yields id).flatMap Yield.grants).length ≤ 1

theorem YieldedOnce.yield {yields : List Yield} {y : Yield} (h : YieldedOnce yields)
    (hintents : y.intents.length ≤ 1) (hgrants : y.grants.length ≤ 1)
    (hfirst : (y.intents = [] ∧ y.grants = []) ∨
      ∀ old ∈ yields, old.preview.id = y.preview.id → old.intents = [] ∧ old.grants = []) :
    YieldedOnce (yields ++ [y]) := by
  intro id
  obtain ⟨hold, hold'⟩ := h id
  by_cases hid : y.preview.id = id
  · have happend : yieldedBy (yields ++ [y]) id = yieldedBy yields id ++ [y] := by
      simp [yieldedBy, hid]
    rw [happend, List.flatMap_append, List.flatMap_append, List.flatMap_singleton,
      List.flatMap_singleton]
    rcases hfirst with ⟨hnone, hnone'⟩ | hfirst
    · rw [hnone, hnone', List.append_nil, List.append_nil]
      exact ⟨hold, hold'⟩
    · have hempty : ∀ old ∈ yieldedBy yields id, old.intents = [] ∧ old.grants = [] :=
        fun old hmem =>
          let ⟨hmem, heq⟩ := List.mem_filter.mp hmem
          hfirst old hmem ((of_decide_eq_true heq).trans hid.symm)
      rw [List.flatMap_eq_nil_iff.mpr fun old hmem => (hempty old hmem).1,
        List.flatMap_eq_nil_iff.mpr fun old hmem => (hempty old hmem).2]
      exact ⟨hintents, hgrants⟩
  · have happend : yieldedBy (yields ++ [y]) id = yieldedBy yields id := by
      simp [yieldedBy, hid]
    rw [happend]
    exact ⟨hold, hold'⟩

structure ConsumedOnce (consumptions : List IntentId) (db : MeetingDb) : Prop where
  nodup : consumptions.Nodup
  consumed : ∀ id ∈ consumptions, ∃ i, db.intents.get id = some i ∧ i.status = .consumed

theorem ConsumedOnce.advance {consumptions : List IntentId} {db db' : MeetingDb}
    (h : ConsumedOnce consumptions db) (hkept : ConsumedKept db db') :
    ConsumedOnce (consumptions ++ newlyConsumed db db') db' := by
  refine ⟨List.nodup_append.mpr ⟨h.nodup, newlyConsumed_nodup db db', ?_⟩, fun id hid => ?_⟩
  · rintro id hid _ hnew rfl
    obtain ⟨i, hget, hstatus⟩ := h.consumed id hid
    exact (mem_newlyConsumed.mp hnew).2 i hget hstatus
  · rcases List.mem_append.mp hid with hid | hid
    · obtain ⟨i, hget, hstatus⟩ := h.consumed id hid
      exact hkept id i hget hstatus
    · exact (mem_newlyConsumed.mp hid).1

section Requests

variable {cfg : HostActionsConfig} {actions actions' : HostActions} {db db' : MeetingDb}

theorem buildScope_payload {derived : Except Fault HostActionScope} {scope : HostActionScope}
    (h : db.buildScope derived = .ok (scope, db')) :
    ∃ built, derived = .ok built ∧ scope.payloadHash = built.payloadHash := by
  simp only [MeetingDb.buildScope, bind_eq_ok] at h
  obtain ⟨built, hbuilt, _, -, h⟩ := h
  refine ⟨built, hbuilt, ?_⟩
  split at h
  · cases h
    rfl
  · simp only [bind_eq_ok, pure_eq_ok, Prod.exists, Prod.mk.injEq] at h
    obtain ⟨_, -, _, -, row, db₁, -, rfl, -⟩ := h
    rfl

/-- A preview is new, unanswered, and carries the digest of its request. -/
theorem prepare_ok {input : Preparation} {preview : Preview}
    (h : prepare cfg input actions db = .ok (preview, actions', db')) :
    preview.id = actions.nextPreviewId ∧ preview.response = none ∧
      preview.scope.payloadHash = cfg.canonicalHash preview.requestId preview.arguments ∧
      actions'.previews = (actions.cleanup input.now).previews ++ [preview] ∧
      actions'.nextPreviewId = actions.nextPreviewId + 1 ∧
      Admits cfg.toHostConfig db db' := by
  simp only [prepare, bind_eq_ok, pure_eq_ok, Prod.exists, Prod.mk.injEq] at h
  obtain ⟨_, -, _, -, scope, db₁, hbuild, rfl, rfl, rfl⟩ := h
  obtain ⟨built, hbuilt, hpayload⟩ := buildScope_payload hbuild
  obtain ⟨derived, -, rfl⟩ : ∃ derived, input.derived = .ok derived ∧
      { derived with payloadHash := cfg.canonicalHash input.requestId input.arguments } =
        built := by
    cases hderived : input.derived with
    | error fault => simp [Preparation.scope, hderived, Except.map] at hbuilt
    | ok derived =>
      rw [Preparation.scope, hderived] at hbuilt
      exact ⟨derived, rfl, Except.ok.inj hbuilt⟩
  exact ⟨rfl, rfl, hpayload, rfl, rfl,
    .of_eq (buildScope_intents hbuild).1 (buildScope_operations hbuild)⟩

/-- What the confirmation of a preview does: it answers as before, or cancels, and changes
nothing that is stored; or it creates the intent, and keeps the answer. -/
inductive PreviewConfirmed (cfg : HostActionsConfig) (input : HostActionConfirm)
    (actions : HostActions) (db : MeetingDb) (preview : Preview) :
    HostActions → MeetingDb → Prop
  | unchanged (actions' : HostActions) (hprevious : actions'.previews.Sublist actions.previews)
      (hnext : actions'.nextPreviewId = actions.nextPreviewId) :
      PreviewConfirmed cfg input actions db preview actions' db
  | confirmed (response : HostResponse) (intent : IntentRecord) (created db' : MeetingDb)
      (hopen : preview.response = none)
      (hconfirmed : Confirmed cfg.toHostConfig (input.confirmation preview) db intent created db') :
      PreviewConfirmed cfg input actions db preview (actions.answer preview.id response) db'

theorem confirmPreview_ok {input : HostActionConfirm} {response : HostResponse}
    (h : confirmPreview cfg input actions db = .ok (response, actions', db')) :
    ∃ preview, (actions.cleanup input.now).getPreview input.previewId = some preview ∧
      PreviewConfirmed cfg input (actions.cleanup input.now) db preview actions' db' := by
  simp only [confirmPreview, bind_eq_ok, require_eq_ok] at h
  obtain ⟨_, -, preview, hpreview, _, -, _, -, h⟩ := h
  refine ⟨preview, hpreview, ?_⟩
  split_ifs at h
  · simp only [pure_eq_ok, Prod.mk.injEq] at h
    obtain ⟨-, rfl, rfl⟩ := h
    exact .unchanged _ List.filter_sublist rfl
  · split at h
    · simp only [pure_eq_ok, Prod.mk.injEq] at h
      obtain ⟨-, rfl, rfl⟩ := h
      exact .unchanged _ (List.Sublist.refl _) rfl
    · rename_i hopen
      simp only [bind_eq_ok, pure_eq_ok, Prod.exists, Prod.mk.injEq] at h
      obtain ⟨_, db₁, hconfirm, -, rfl, rfl⟩ := h
      obtain ⟨intent, created, hconfirmed⟩ := confirm_confirmed hconfirm
      exact .confirmed _ intent created db₁ hopen hconfirmed

theorem issueUiNonce_ok {origin : Option String} {nonceHash : Digest} {now : Instant}
    (h : actions.issueUiNonce cfg origin nonceHash now = .ok actions') :
    actions'.previews = (actions.cleanup now).previews ∧
      actions'.nextPreviewId = actions.nextPreviewId := by
  simp only [HostActions.issueUiNonce, bind_eq_ok, pure_eq_ok] at h
  obtain ⟨_, -, _, -, rfl⟩ := h
  exact ⟨rfl, rfl⟩

end Requests

namespace HostWorld

variable {cfg : HostActionsConfig} {executor : ExecutorConfig} {w w' : HostWorld} {step : HostStep}

structure Sound (cfg : HostActionsConfig) (w : HostWorld) : Prop where
  pages : PagesSound w.actions w.shown w.yields
  shown : ∀ p ∈ w.shown, p.scope.payloadHash = cfg.canonicalHash p.requestId p.arguments
  once : YieldedOnce w.yields
  consumed : ConsumedOnce w.consumptions w.db
  tables : TablesSound cfg.toHostConfig w.shown w.yields w.db

theorem Sound.with_actions (h : w.Sound cfg) {actions : HostActions}
    (hpages : PagesSound actions w.shown w.yields) : Sound cfg { w with actions := actions } :=
  ⟨hpages, h.shown, h.once, h.consumed, h.tables⟩

theorem Sound.advance (h : w.Sound cfg) {db : MeetingDb}
    (hadmits : Admits cfg.toHostConfig w.db db) : Sound cfg (w.advance db) :=
  ⟨h.pages, h.shown, h.once, h.consumed.advance hadmits.consumed, h.tables.admits hadmits⟩

theorem Sound.prepareStep (h : w.Sound cfg) (input : Preparation) :
    (w.prepareStep cfg input).Sound cfg := by
  unfold HostWorld.prepareStep
  split
  · exact h.with_actions (h.pages.cleanup _)
  · rename_i preview actions db hprepare
    obtain ⟨hid, hnone, hpayload, hprevious, hnext, hadmits⟩ := prepare_ok hprepare
    have hadvanced := h.advance hadmits
    refine ⟨(h.pages.cleanup input.now).prepared hid hnone hprevious hnext, fun p hp => ?_, h.once,
      hadvanced.consumed,
      hadvanced.tables.mono (List.subset_append_left _ _) (List.Subset.refl _)⟩
    rcases List.mem_append.mp hp with hp | hp
    · exact h.shown p hp
    · rw [List.mem_singleton.mp hp]
      exact hpayload

theorem Sound.confirmStep (h : w.Sound cfg) (input : HostActionConfirm) :
    (w.confirmStep cfg input).Sound cfg := by
  unfold HostWorld.confirmStep
  split
  · exact h.with_actions (h.pages.cleanup _)
  · rename_i response actions db hconfirm
    obtain ⟨preview, hget, hcases⟩ := confirmPreview_ok hconfirm
    obtain ⟨hpreview, hmem, hid⟩ := h.pages.getPreview_cleanup hget
    have hpages := h.pages.cleanup input.now
    obtain ⟨hpast, hshown⟩ := hpages.previews preview hmem
    rw [hpreview]
    cases hcases with
    | unchanged actions' hprevious hnext =>
      have hsame : Admits cfg.toHostConfig w.db w.db := .refl w.db
      have hintents : newIntents w.db w.db = [] := hsame.newIntents
      have hgrants : newGrants w.db w.db = [] := newGrants_of_eq rfl
      have hadvanced := h.advance hsame
      refine ⟨(hpages.sublist hprevious hnext).yield (hnext ▸ hpast)
        fun _ _ _ _ => ⟨hintents, hgrants⟩, h.shown,
        h.once.yield ?_ ?_ (Or.inl ⟨hintents, hgrants⟩), hadvanced.consumed,
        hadvanced.tables.mono (List.Subset.refl _) (List.subset_append_left _ _)⟩
      · exact (congrArg List.length hintents).trans_le (Nat.zero_le 1)
      · exact (congrArg List.length hgrants).trans_le (Nat.zero_le 1)
    | confirmed response intent created db' hopen hconfirmed =>
      have hself : { preview with response := none } = preview := by rw [← hopen]
      rw [hself] at hshown
      refine ⟨(hpages.answer preview.id response).yield hpast fun p hp hnone heq => ?_, h.shown,
        h.once.yield ?_ hconfirmed.newGrants (Or.inr ?_),
        h.consumed.advance hconfirmed.consumed,
        h.tables.confirmed hconfirmed rfl hshown (newGrants w.db db)
          (List.subset_append_left _ _) (List.mem_append_right _ ?_)⟩
      · obtain ⟨old, hold, rfl⟩ := List.mem_map.mp hp
        split_ifs at heq hnone with hsame
        exact absurd heq hsame
      · exact Nat.le_of_eq (congrArg List.length hconfirmed.newIntents)
      · exact hpages.unanswered preview hmem hopen
      · rw [← hconfirmed.newIntents]
        exact List.mem_cons_self

theorem Sound.next (h : w.Sound cfg) (hnext : w.next cfg executor step = some w') :
    w'.Sound cfg := by
  cases step with
  | issueNonce origin nonceHash now =>
    simp only [HostWorld.next] at hnext
    split at hnext
    · cases hnext
      exact h.with_actions (h.pages.cleanup now)
    · rename_i actions hissue
      cases hnext
      obtain ⟨hprevious, hcount⟩ := issueUiNonce_ok hissue
      exact h.with_actions ((h.pages.cleanup now).sublist (hprevious ▸ List.Sublist.refl _) hcount)
  | prepare input =>
    cases hnext
    exact h.prepareStep input
  | confirm input =>
    cases hnext
    exact h.confirmStep input
  | remember id operationId action =>
    cases hnext
    exact h.with_actions (h.pages.answer id _)
  | restart =>
    cases hnext
    exact h.with_actions (h.pages.sublist (List.nil_sublist _) rfl)
  | other action =>
    have hconfirm : ∀ c, action ≠ .confirm c := by
      rintro c rfl
      cases hnext
    have hadvance : (w.db.next executor cfg.toHostConfig action).map w.advance = some w' := by
      rw [← hnext]
      cases action with
      | confirm c => exact absurd rfl (hconfirm c)
      | _ => rfl
    obtain ⟨db, hdb, rfl⟩ := Option.map_eq_some_iff.mp hadvance
    exact h.advance (next_admits hconfirm hdb)

/-- Nothing was shown, confirmed or admitted yet. -/
structure Initial (w : HostWorld) : Prop where
  previews : w.actions.previews = []
  intents : w.db.intents = .empty
  operations : w.db.operations = .empty
  shown : w.shown = []
  yields : w.yields = []
  consumptions : w.consumptions = []

theorem Initial.sound (h : w.Initial) : w.Sound cfg := by
  obtain ⟨hpreviews, hintents, hoperations, hshown, hyields, hconsumptions⟩ := h
  refine ⟨⟨?_, ?_, ?_, ?_⟩, ?_, ?_, ⟨?_, ?_⟩, ⟨?_, ?_, ?_⟩⟩ <;>
    simp [hpreviews, hintents, hoperations, hshown, hyields, hconsumptions, YieldedOnce, yieldedBy,
      Table.empty]

end HostWorld

/-- The operation is what the preview showed, of the scope that was confirmed and with its
arguments, and it is that of the one intent of the preview, which is consumed. -/
structure AsShown (w : HostWorld) (preview : Preview) (intent : IntentRecord)
    (o : OperationRecord) : Prop where
  shown : preview ∈ w.shown
  confirmed : ∃ grants, Yield.mk preview [intent.id] grants ∈ w.yields
  scope : intent.scope =
    { preview.scope with capabilityGrantId := intent.scope.capabilityGrantId }
  consumed : intent.status = .consumed
  intentId : o.intentId = some intent.id
  plugin : o.pluginId = preview.scope.pluginId
  version : o.pluginVersion = preview.scope.pluginVersion
  media : o.mediaSessionId = preview.scope.mediaSessionId
  session : o.legacySessionId = preview.scope.legacySessionId
  epoch : o.authorityEpoch = preview.scope.authorityEpoch
  action : o.action = preview.scope.action
  requestId : o.clientRequestId = preview.requestId
  arguments : o.requestPayload = preview.arguments

/-- What holds of the host's previews, intents and operations. -/
structure SinglyUsed (w : HostWorld) : Prop where
  yields : ∀ id, ((yieldedBy w.yields id).flatMap Yield.intents).length ≤ 1 ∧
    ((yieldedBy w.yields id).flatMap Yield.grants).length ≤ 1
  consumed : w.consumptions.Nodup
  requests : ∀ o ∈ w.db.operations.rows, ∀ o' ∈ w.db.operations.rows,
    o.pluginId = o'.pluginId → o.pluginVersion = o'.pluginVersion →
    o.mediaSessionId = o'.mediaSessionId → o.clientRequestId = o'.clientRequestId → o = o'
  intents : ∀ o ∈ w.db.operations.rows, ∀ o' ∈ w.db.operations.rows,
    o.intentId = o'.intentId → o = o'
  shown : ∀ o ∈ w.db.operations.rows, ∃ preview, ∃ intent ∈ w.db.intents.rows,
    AsShown w preview intent o

/-- However preparations, confirmations and admissions interleave, with whatever else the host
does, each preview leads to one intent, one grant and one operation at most, which is what the
preview showed. -/
theorem previews_used_once {cfg : HostActionsConfig} {executor : ExecutorConfig}
    {w₀ w : HostWorld} {steps : List HostStep}
    (hdigest : ∀ r a r' a', cfg.canonicalHash r a = cfg.canonicalHash r' a' → r = r' ∧ a = a')
    (hinitial : w₀.Initial) (h : Run (HostSteps cfg executor) w₀ steps w) : SinglyUsed w := by
  have hsound : w.Sound cfg :=
    h.invariant (fun _ _ _ hsound hstep => hsound.next hstep) hinitial.sound
  refine ⟨hsound.once, hsound.consumed.nodup, fun o ho o' ho' hp hv hm hr => ?_,
    hsound.tables.once, fun o ho => ?_⟩
  · exact Table.eq_of_unique ho ho' rfl (by simp [Row.unique, hp, hv, hm, hr])
  · obtain ⟨i, hi, hconsumed, hunder⟩ := hsound.tables.operations o ho
    obtain ⟨preview, hshown, hyielded, hscope⟩ := hsound.tables.intents i hi
    obtain ⟨hintent, hplugin, hversion, hmedia, hsession, hepoch, haction, hpayload⟩ := hunder
    rw [hscope] at hplugin hversion hmedia hsession hepoch haction hpayload
    obtain ⟨hrequest, harguments⟩ :=
      hdigest _ _ _ _ ((hsound.shown preview hshown).symm.trans hpayload)
    exact ⟨preview, i, hi, hshown, hyielded, hscope, hconsumed, hintent, hplugin, hversion, hmedia,
      hsession, hepoch, haction, hrequest.symm, harguments.symm⟩

section Example

def textDigits (s : String) : List ℕ := s.toList.map Char.toNat

theorem textDigits_injective : Function.Injective textDigits := fun s t h => by
  have hchar : Function.Injective Char.toNat := fun a b heq => Char.toNat_inj.mp heq
  exact String.toList_inj.mp (hchar.list_map h)

def argumentDigits : HostArguments → List (List ℕ)
  | .analysis => [[0]]
  | .ask message => [[1], textDigits message]
  | .execute message marks candidates =>
    [2] :: textDigits message :: [marks.length] ::
      (marks.map textDigits ++ candidates.map textDigits)
  | .mark digest => [[3], [digest]]
  | .input executionId version input => [[4], [executionId], [version], textDigits input]
  | .cancel executionId version => [[5], [executionId], [version]]

theorem argumentDigits_injective : Function.Injective argumentDigits := by
  have htext := textDigits_injective
  intro a b h
  cases a <;> cases b <;> simp [argumentDigits, htext.eq_iff] at h
  case analysis.analysis => rfl
  case ask.ask => rw [h]
  case execute.execute =>
    obtain ⟨rfl, hlength, h⟩ := h
    obtain ⟨hmarks, hcandidates⟩ := List.append_inj h (by simpa using hlength)
    rw [htext.list_map hmarks, htext.list_map hcandidates]
  case mark.mark => rw [h]
  case input.input =>
    obtain ⟨rfl, rfl, rfl⟩ := h
    rfl
  case cancel.cancel =>
    obtain ⟨rfl, rfl⟩ := h
    rfl

/-- A digest that tells all requests apart. -/
def readableConfig : HostActionsConfig where
  canonicalHash requestId arguments :=
    Encodable.encode (textDigits requestId :: argumentDigits arguments)
  previewHash id _ _ _ := id

theorem readableConfig_injective (r : String) (a : HostArguments) (r' : String)
    (a' : HostArguments)
    (h : readableConfig.canonicalHash r a = readableConfig.canonicalHash r' a') :
    r = r' ∧ a = a' := by
  obtain ⟨hr, ha⟩ := List.cons.inj (Encodable.encode_injective h)
  exact ⟨textDigits_injective hr, argumentDigits_injective ha⟩

def pageContext : TrustedUIContext := { nonceHash := 7, origin := none, expiresAt := 901 }

def markScope : HostActionScope where
  pluginId := meetingPluginId
  pluginVersion := "1.0.0"
  mediaSessionId := 1
  legacySessionId := 1
  actorId := "local-user"
  authorityEpoch := 0
  action := .markCreate
  payloadHash := readableConfig.canonicalHash "r" (.mark 5)
  bounded := by constructor <;> simp

def noSnapshot : ContextSnapshot :=
  { id := 1, sessionId := 1, evidenceRefs := [], evidenceMessages := [] }

def markConfirm (token : Digest) (id : IntentId) : HostActionConfirm where
  context := pageContext
  mediaSessionId := 1
  previewId := 0
  previewHash := 0
  confirmed := true
  derived := .ok markScope
  tokenHash := token
  intentId := id
  capabilityGrantId := 1
  snapshot := noSnapshot
  ids := ⟨1, 1, 1⟩
  now := 3

def markAdmission (id : OperationId) : Admission where
  pluginId := meetingPluginId
  pluginVersion := "1.0.0"
  mediaSessionId := 1
  action := .markCreate
  requestId := "r"
  tokenHash := 11
  arguments := .mark 5
  derived := .ok markScope
  snapshot := noSnapshot
  ids := ⟨id, id, id⟩
  now := 4

/-- A mark is prepared, and confirmed and admitted twice. -/
def markedTwice : List HostStep :=
  [.issueNonce none 7 1,
    .prepare ⟨pageContext, "r", .mark 5, .ok markScope, [], 2⟩,
    .confirm (markConfirm 11 1), .confirm (markConfirm 12 2),
    .other (.admits (markAdmission 1)), .other (.admits (markAdmission 2))]

def openHost : HostWorld where
  db := { host := { permissions := fun _ _ => ["meeting.mark.write"] } }

def markedWorld : HostWorld :=
  (follow (HostWorld.next · readableConfig fileTaskConfig) markedTwice openHost).get
    (by decide +kernel)

theorem markedWorld_used_once : SinglyUsed markedWorld ∧
    markedWorld.db.operations.rows.length = 1 ∧ markedWorld.consumptions = [1] := by
  refine ⟨previews_used_once readableConfig_injective ⟨rfl, rfl, rfl, rfl, rfl, rfl⟩
    (run_to_get (HostWorld.next · readableConfig fileTaskConfig) markedTwice _
      (by decide +kernel)), ?_⟩
  decide +kernel

end Example

end Assistant
end Matinier
