import Matinier.Assistant.Plugin.OperationWorkerSpec

/-!
# What confirmation and admission do to intents

A confirmation creates one intent, of the scope that was built. An admission consumes the active
intent of its token, and adds the operation of that intent's scope. Nothing else creates an
intent or an operation, and none that is consumed becomes active again.
-/

namespace Matinier
namespace Assistant

/-- The intent has its token and its scope, and is consumed if it was. -/
structure IntentKept (i i' : IntentRecord) : Prop where
  id : i'.id = i.id
  token : i'.tokenHash = i.tokenHash
  scope : i'.scope = i.scope
  consumed : i.status = .consumed → i'.status = .consumed

theorem IntentKept.refl (i : IntentRecord) : IntentKept i i :=
  ⟨rfl, rfl, rfl, fun h => h⟩

theorem IntentKept.trans {a b c : IntentRecord} (h : IntentKept a b) (h' : IntentKept b c) :
    IntentKept a c :=
  ⟨h'.id.trans h.id, h'.token.trans h.token, h'.scope.trans h.scope, h'.consumed ∘ h.consumed⟩

/-- No intent is created. -/
def IntentsKept (intents intents' : Table IntentRecord) : Prop :=
  intents.Evolves IntentKept (fun _ => False) intents'

/-- No operation is added. -/
def OperationsRestated (operations operations' : Table OperationRecord) : Prop :=
  operations.Evolves Restated (fun _ => False) operations'

/-- The operation was admitted under the intent: it is of its scope, and its request and its
arguments are those of the scope's digest. -/
structure AdmittedUnder (host : HostConfig) (intent : IntentRecord) (o : OperationRecord) :
    Prop where
  intentId : o.intentId = some intent.id
  plugin : o.pluginId = intent.scope.pluginId
  version : o.pluginVersion = intent.scope.pluginVersion
  media : o.mediaSessionId = intent.scope.mediaSessionId
  session : o.legacySessionId = intent.scope.legacySessionId
  epoch : o.authorityEpoch = intent.scope.authorityEpoch
  action : o.action = intent.scope.action
  payload : intent.scope.payloadHash = host.canonicalHash o.clientRequestId o.requestPayload

theorem AdmittedUnder.kept {host : HostConfig} {i i' : IntentRecord} {o o' : OperationRecord}
    (h : AdmittedUnder host i o) (hkept : IntentKept i i') (hsame : Restated o o') :
    AdmittedUnder host i' o' := by
  obtain ⟨hintent, hplugin, hversion, hmedia, hsession, hepoch, haction, hpayload⟩ := h
  obtain ⟨status, errorCode, rfl⟩ := hsame
  rw [← hkept.scope] at hplugin hversion hmedia hsession hepoch haction hpayload
  exact ⟨hintent.trans (congrArg some hkept.id.symm), hplugin, hversion, hmedia, hsession, hepoch,
    haction, hpayload⟩

/-- What a transaction does once its intents are created: it admits one operation, consuming its
intent, or it adds none. -/
inductive Admits (host : HostConfig) (db db' : MeetingDb) : Prop
  | none (hintents : IntentsKept db.intents db'.intents)
      (hoperations : OperationsRestated db.operations db'.operations)
  | one (intent consumed : IntentRecord) (o : OperationRecord)
      (hget : db.intents.get intent.id = some intent) (hactive : intent.status = .active)
      (hkept : IntentKept intent consumed) (hconsumed : consumed.status = .consumed)
      (hintents : Table.Writes db.intents db'.intents consumed)
      (hnew : db.operations.get o.id = .none)
      (hoperations : Table.Writes db.operations db'.operations o)
      (hunder : AdmittedUnder host intent o)

section Transactions

variable {host : HostConfig} {db db' : MeetingDb}

theorem Admits.refl (db : MeetingDb) : Admits host db db :=
  .none (.refl IntentKept.refl _) (.refl Restated.refl _)

theorem Admits.of_eq (hintents : db'.intents = db.intents)
    (hoperations : db'.operations = db.operations) : Admits host db db' := by
  refine .none ?_ ?_
  · rw [hintents]
    exact .refl IntentKept.refl _
  · rw [hoperations]
    exact .refl Restated.refl _

theorem buildScope_intents {derived : Except Fault HostActionScope} {scope : HostActionScope}
    (h : db.buildScope derived = .ok (scope, db')) :
    db'.intents = db.intents ∧ db'.capabilityGrants = db.capabilityGrants := by
  simp only [MeetingDb.buildScope, bind_eq_ok] at h
  obtain ⟨_, -, _, -, h⟩ := h
  split at h
  · cases h
    exact ⟨rfl, rfl⟩
  · simp only [bind_eq_ok, pure_eq_ok, Prod.exists, Prod.mk.injEq] at h
    obtain ⟨_, -, _, -, row, db₁, hensure, -, rfl⟩ := h
    simp only [MeetingDb.ensureSession, bind_eq_ok] at hensure
    obtain ⟨_, -, hensure⟩ := hensure
    split at hensure
    · simp only [bind_eq_ok, pure_eq_ok, Prod.mk.injEq] at hensure
      obtain ⟨_, -, -, rfl⟩ := hensure
      exact ⟨rfl, rfl⟩
    · simp only [bind_eq_ok, require_eq_ok, pure_eq_ok, Prod.mk.injEq] at hensure
      obtain ⟨sessions, -, -, rfl⟩ := hensure
      exact ⟨rfl, rfl⟩

theorem consumeIntent_writes {tokenHash : Digest} {scope : HostActionScope} {now : Instant}
    {consumed : IntentRecord} (h : db.consumeIntent tokenHash scope now = .ok (consumed, db')) :
    ∃ intent, db.intents.getUnique tokenHash = some intent ∧ intent.scope = scope ∧
      intent.status = .active ∧ IntentKept intent consumed ∧ consumed.status = .consumed ∧
      Table.Writes db.intents db'.intents consumed ∧ db'.operations = db.operations ∧
      db'.capabilityGrants = db.capabilityGrants := by
  simp only [MeetingDb.consumeIntent, bind_eq_ok, require_eq_ok, ensure_eq_ok, pure_eq_ok,
    Prod.mk.injEq] at h
  obtain ⟨intent, hintent, _, ⟨hscope, hactive, -⟩, rfl, rfl⟩ := h
  let consumed : IntentRecord := { intent with status := .consumed, consumedAt := some now }
  have hget : db.intents.get (Row.key consumed) = some intent :=
    Table.get_of_mem (Table.getUnique_eq_some.mp hintent).1
  exact ⟨intent, hintent, hscope, hactive, ⟨rfl, rfl, rfl, fun _ => rfl⟩, rfl,
    .of_set hget ⟨rfl, Or.inr rfl⟩, rfl, rfl⟩

/-- What is carried out of an operation touches the assistant, and its status and execution. -/
theorem carryOut_eq {admission : Admission} {operation operation' : OperationRecord}
    {scope : HostActionScope} {expiresAt : Instant}
    (h : carryOut admission operation scope expiresAt db = .ok (operation', db')) :
    (∃ status executionId,
      operation' = { operation with status := status, executionId := executionId }) ∧
      db'.intents = db.intents ∧ db'.operations = db.operations ∧
      db'.capabilityGrants = db.capabilityGrants := by
  unfold carryOut at h
  cases hargs : admission.arguments with
  | analysis => simp [hargs] at h
  | ask message =>
    simp only [hargs, startTurn, bind_eq_ok, pure_eq_ok, Prod.exists, Prod.mk.injEq] at h
    obtain ⟨execution, assistant, -, rfl, rfl⟩ := h
    exact ⟨⟨_, _, rfl⟩, rfl, rfl, rfl⟩
  | execute message marks candidates =>
    simp only [hargs, startAction, bind_eq_ok, require_eq_ok, pure_eq_ok, Prod.exists,
      Prod.mk.injEq] at h
    obtain ⟨_, -, _, _, -, _, _, -, rfl, rfl⟩ := h
    exact ⟨⟨_, _, rfl⟩, rfl, rfl, rfl⟩
  | mark digest =>
    simp only [hargs, Except.ok.injEq, Prod.mk.injEq] at h
    obtain ⟨rfl, rfl⟩ := h
    exact ⟨⟨_, _, rfl⟩, rfl, rfl, rfl⟩
  | input executionId version input =>
    simp only [hargs, submitContinuation, bind_eq_ok, pure_eq_ok, Prod.exists, Prod.mk.injEq] at h
    obtain ⟨_, -, _, _, -, _, _, -, rfl, rfl⟩ := h
    exact ⟨⟨_, _, rfl⟩, rfl, rfl, rfl⟩
  | cancel executionId version =>
    simp only [hargs, cancelOwned, bind_eq_ok, pure_eq_ok, Prod.exists, Prod.mk.injEq] at h
    obtain ⟨_, -, _, -, _, _, -, rfl, rfl⟩ := h
    exact ⟨⟨_, _, rfl⟩, rfl, rfl, rfl⟩

/-- An admission consumes one intent for one operation, or finds the operation it was. -/
theorem admitOperation_admits {admission : Admission} {operation : OperationRecord}
    (h : admitOperation host admission db = .ok (operation, db')) :
    Admits host db db' ∧ db'.capabilityGrants = db.capabilityGrants := by
  simp only [admitOperation, bind_eq_ok, ensure_eq_ok, require_eq_ok] at h
  obtain ⟨_, -, intent, hintent, _, hmatches, h⟩ := h
  split at h
  · simp only [bind_eq_ok, pure_eq_ok, Prod.mk.injEq] at h
    obtain ⟨_, -, _, -, -, rfl⟩ := h
    exact ⟨.refl _, rfl⟩
  · simp only [bind_eq_ok, ensure_eq_ok, pure_eq_ok, Prod.exists, Prod.mk.injEq] at h
    obtain ⟨_, hpayload, rebuilt, db₁, hbuild, _, -, _, -, consumed, db₂, hconsume, accepted, db₃,
      haccept, carried, db₄, hcarry, rfl, rfl⟩ := h
    obtain ⟨hintents, hgrants⟩ := buildScope_intents hbuild
    obtain ⟨row, hrow, hscope, hactive, hkept, hconsumed, hwrites, hops₂, hgrants₂⟩ :=
      consumeIntent_writes hconsume
    simp only [MeetingDb.acceptOperation, bind_eq_ok, require_eq_ok, pure_eq_ok,
      Prod.mk.injEq] at haccept
    obtain ⟨_, -, operations, hinsert, haccepted, rfl⟩ := haccept
    rw [haccepted] at hinsert
    obtain ⟨⟨status, executionId, hcarried⟩, hints₄, hops₄, hgrants₄⟩ := carryOut_eq hcarry
    rw [hintents] at hrow hwrites
    have htoken : intent.tokenHash = admission.tokenHash :=
      Option.some.inj (Table.getUnique_eq_some.mp hintent).2
    obtain rfl : row = intent := by
      rw [htoken, hintent] at hrow
      exact (Option.some.inj hrow).symm
    rw [hops₂, buildScope_operations hbuild] at hinsert
    have hunder : AdmittedUnder host row carried := by
      rw [hcarried, ← haccepted]
      exact ⟨rfl, rfl, rfl, rfl, rfl, rfl, rfl, hpayload⟩
    have hget := Table.get_of_mem (Table.getUnique_eq_some.mp hintent).1
    have hkey : Row.key carried = Row.key accepted := by rw [hcarried]; rfl
    have hfit : Table.Replaces carried accepted := by rw [hcarried]; exact ⟨rfl, Or.inr rfl⟩
    have hinserted := Table.Writes.of_insert hinsert
    have hset : Table.Writes operations (db₄.setOperation carried).operations carried := by
      rw [← show db₄.operations = operations from hops₄]
      exact .of_set (hkey ▸ hops₄ ▸ hinserted.1) hfit
    refine ⟨.one row consumed carried hget hactive hkept hconsumed ?_ ?_
      (hinserted.trans hset hkey) hunder, hgrants₄.trans (hgrants₂.trans hgrants)⟩
    · rw [show (db₄.setOperation carried).intents = db₂.intents from hints₄]
      exact hwrites
    · exact (congrArg _ hkey).trans (Table.get_none_of_insert hinsert)

/-- What a confirmation does: it creates one intent of the scope it built, with one grant at
most, and may then admit the operation of that intent. -/
structure Confirmed (host : HostConfig) (c : Confirmation) (db : MeetingDb) (intent : IntentRecord)
    (created db' : MeetingDb) : Prop where
  id : intent.id = c.intentId
  scope : intent.scope =
    { c.previewed with capabilityGrantId := intent.scope.capabilityGrantId }
  active : intent.status = .active
  new : db.intents.get intent.id = none
  intents : Table.Writes db.intents created.intents intent
  operations : created.operations = db.operations
  grants : created.capabilityGrants = db.capabilityGrants ∨ ∃ grant,
    db.capabilityGrants.insert grant = some created.capabilityGrants
  admits : Admits host created db'
  kept : db'.capabilityGrants = created.capabilityGrants

theorem stopAnalysis_control (sessionId : SessionId) :
    (db.stopAnalysis sessionId).intents = db.intents ∧
      (db.stopAnalysis sessionId).operations = db.operations ∧
      (db.stopAnalysis sessionId).capabilityGrants = db.capabilityGrants := by
  unfold MeetingDb.stopAnalysis
  split <;> exact ⟨rfl, rfl, rfl⟩

theorem activateAnalysis_control (row : PluginSessionRecord) :
    (db.activateAnalysis row).intents = db.intents ∧
      (db.activateAnalysis row).operations = db.operations ∧
      (db.activateAnalysis row).capabilityGrants = db.capabilityGrants := by
  unfold MeetingDb.activateAnalysis
  split_ifs <;> exact ⟨rfl, rfl, rfl⟩

theorem createCapabilityGrant_grants {scope scope' : HostActionScope} {id : CapabilityGrantId}
    {expiresAt : Instant} (h : db.createCapabilityGrant scope id expiresAt = .ok (scope', db')) :
    scope' = { scope with capabilityGrantId := scope'.capabilityGrantId } ∧
      db'.intents = db.intents ∧ db'.operations = db.operations ∧
      (db'.capabilityGrants = db.capabilityGrants ∨
        ∃ grant, db.capabilityGrants.insert grant = some db'.capabilityGrants) := by
  unfold MeetingDb.createCapabilityGrant at h
  split_ifs at h
  · simp only [bind_eq_ok, require_eq_ok, pure_eq_ok, Prod.mk.injEq] at h
    obtain ⟨grants, hinsert, rfl, rfl⟩ := h
    exact ⟨rfl, rfl, rfl, Or.inr ⟨_, hinsert⟩⟩
  · cases h
    exact ⟨rfl, rfl, rfl, Or.inl rfl⟩

theorem Admits.of_consume {tokenHash : Digest} {scope : HostActionScope} {now : Instant}
    {consumed : IntentRecord} {db₁ : MeetingDb}
    (h : db.consumeIntent tokenHash scope now = .ok (consumed, db₁))
    (hsame : db'.intents = db₁.intents ∧ db'.operations = db₁.operations ∧
      db'.capabilityGrants = db₁.capabilityGrants) :
    Admits host db db' ∧ db'.capabilityGrants = db.capabilityGrants := by
  obtain ⟨row, hrow, -, -, hkept, -, hwrites, hops₁, hgrants₁⟩ :=
    consumeIntent_writes h
  obtain ⟨hintents, hoperations, hgrants⟩ := hsame
  have hget := Table.get_of_mem (Table.getUnique_eq_some.mp hrow).1
  have hkey : Row.key consumed = Row.key row := hkept.id
  refine ⟨.none ?_ ?_, hgrants.trans hgrants₁⟩
  · rw [hintents]
    refine .of_writes IntentKept.refl hwrites (fun old hold => ?_) (fun hnone => ?_)
    · rw [hkey, hget] at hold
      exact Option.some.inj hold ▸ hkept
    · rw [hkey, hget] at hnone
      cases hnone
  · rw [hoperations, hops₁]
    exact .refl Restated.refl _

theorem confirm_confirmed {c : Confirmation} {intent : IntentRecord}
    (h : confirm host c db = .ok (intent, db')) :
    ∃ intent created, Confirmed host c db intent created db' := by
  simp only [confirm, bind_eq_ok, ensure_eq_ok, Prod.exists] at h
  obtain ⟨built, db₁, hbuild, _, hbuilt, scope, db₂, hgrant, created, db₃, hcreate, h⟩ := h
  obtain ⟨hintents, hgrants⟩ := buildScope_intents hbuild
  have hoperations := buildScope_operations hbuild
  obtain ⟨hscope, hintents₂, hoperations₂, hgrants₂⟩ := createCapabilityGrant_grants hgrant
  simp only [MeetingDb.createIntent, bind_eq_ok, require_eq_ok, pure_eq_ok,
    Prod.mk.injEq] at hcreate
  obtain ⟨_, -, intents, hinsert, rfl, rfl⟩ := hcreate
  rw [hintents₂, hintents] at hinsert
  rw [hgrants] at hgrants₂
  subst hbuilt
  have hconfirmed : ∀ db', Admits host { db₂ with intents := intents } db' ∧
      db'.capabilityGrants = db₂.capabilityGrants →
      ∃ intent created, Confirmed host c db intent created db' := fun db' ⟨hadmits, hsame⟩ =>
    ⟨_, { db₂ with intents := intents }, rfl, hscope, rfl, Table.get_none_of_insert hinsert,
      .of_insert hinsert, hoperations₂.trans hoperations, hgrants₂, hadmits, hsame⟩
  refine hconfirmed db' ?_
  split at h
  · simp only [bind_eq_ok, require_eq_ok, pure_eq_ok, Prod.exists, Prod.mk.injEq] at h
    obtain ⟨consumed, db₄, hconsume, row, -, -, rfl⟩ := h
    exact Admits.of_consume hconsume (activateAnalysis_control row)
  · simp only [bind_eq_ok, pure_eq_ok, Prod.exists, Prod.mk.injEq] at h
    obtain ⟨consumed, db₄, hconsume, -, rfl⟩ := h
    exact Admits.of_consume hconsume (stopAnalysis_control _)
  · simp only [bind_eq_ok, pure_eq_ok, Prod.exists, Prod.mk.injEq] at h
    obtain ⟨operation, db₄, hadmit, -, rfl⟩ := h
    exact admitOperation_admits hadmit
  · cases h
    exact ⟨.refl _, rfl⟩

/-- The active intents of a session are revoked, and none else is touched. -/
theorem revokeIntents_kept (sessionId : SessionId) (now : Instant) :
    IntentsKept db.intents (db.revokeIntents sessionId now) := by
  have hactive : ∀ i ∈ db.intents.select (fun i => i.scope.legacySessionId = sessionId ∧
      i.scope.pluginId = meetingPluginId ∧ i.status = .active), db.intents.get i.id = some i ∧
      i.status = .active := fun i hi => by
    obtain ⟨hi, hselected⟩ := Table.mem_select.mp hi
    exact ⟨Table.get_of_mem hi, (of_decide_eq_true hselected).2.2⟩
  unfold MeetingDb.revokeIntents
  refine List.foldlRecOn (motive := fun t : Table IntentRecord => IntentsKept db.intents t) _ _
    (.refl IntentKept.refl _) fun t ht i hi => ?_
  obtain ⟨hget, hstatus⟩ := hactive i hi
  let revoked : IntentRecord := { i with status := .revoked, revokedAt := some now }
  have hold : db.intents.get (Row.key revoked) = some i := hget
  refine ht.set hold ⟨rfl, rfl, rfl, fun hconsumed => ?_⟩ fun i' hkept =>
    ⟨hkept.id, Or.inr (congrArg some hkept.token.symm)⟩
  rw [hstatus] at hconsumed
  cases hconsumed

theorem revokeAuthority_kept (sessionId : SessionId) (now : Instant) :
    IntentsKept db.intents (db.revokeAuthority sessionId now).intents := by
  unfold MeetingDb.revokeAuthority
  split <;> exact revokeIntents_kept sessionId now

theorem disablePlugin_kept (now : Instant) :
    IntentsKept db.intents (db.disablePlugin now).intents := by
  unfold MeetingDb.disablePlugin
  refine List.foldlRecOn (motive := fun b : MeetingDb => IntentsKept db.intents b.intents) _ _
    (.refl IntentKept.refl _) fun b hb row _ => ?_
  exact hb.trans IntentKept.trans (fun h _ => h) (revokeAuthority_kept row.legacySessionId now)

theorem Admits.of_after {α : Type} {result : Except Fault (α × MeetingDb)}
    (h : ∀ value db', result = .ok (value, db') → Admits host db db') :
    Admits host db (db.after result) := by
  cases result with
  | error e => exact .refl _
  | ok reply => exact h reply.1 reply.2 rfl

theorem Admits.of_afterAssistant {α : Type} (result : Except Fault (α × Db)) :
    Admits host db (db.afterAssistant result) := by
  cases result <;> exact .of_eq rfl rfl

theorem next_admits {cfg : ExecutorConfig} {a : PluginAction}
    (hconfirm : ∀ c, a ≠ .confirm c) (h : db.next cfg host a = some db') : Admits host db db' := by
  cases a with
  | confirm c => exact absurd rfl (hconfirm c)
  | execute input =>
    cases h
    refine .of_after fun begun db' hbegin => ?_
    rcases guardedExecute_cases hbegin with rfl | ⟨_, _, _, _, -, -, -, -, hrest⟩
    · exact .refl _
    · have hintents := congrArg MeetingDb.intents hrest
      have hoperations := congrArg MeetingDb.operations hrest
      exact .of_eq hintents hoperations
  | admits admission =>
    cases h
    exact .of_after fun _ _ hadmit => (admitOperation_admits hadmit).1
  | revoke sessionId now =>
    cases h
    refine .none (revokeAuthority_kept sessionId now) ?_
    rw [revokeAuthority_operations]
    exact .refl Restated.refl _
  | disable now =>
    cases h
    refine .none (disablePlugin_kept now) ?_
    rw [disablePlugin_operations]
    exact .refl Restated.refl _
  | deactivate sessionId =>
    cases h
    have hstopped : (db.stopAnalysis sessionId).intents = db.intents ∧
        (db.stopAnalysis sessionId).operations = db.operations ∧ _ :=
      stopAnalysis_control sessionId
    exact .of_eq hstopped.1 hstopped.2.1
  | analyse =>
    obtain ⟨row, -, rfl⟩ := Option.map_eq_some_iff.mp h
    exact .of_eq rfl rfl
  | track id status errorCode =>
    obtain ⟨o, ho, rfl⟩ := Option.map_eq_some_iff.mp h
    refine .none (.refl IntentKept.refl _) ?_
    let restated : OperationRecord := { o with status := status, errorCode := errorCode }
    have hold : db.operations.get (Row.key restated) = some o :=
      Table.get_of_mem (Table.mem_of_get ho)
    exact .of_set Restated.refl hold ⟨rfl, Or.inr rfl⟩ ⟨status, errorCode, rfl⟩
  | host =>
    cases h
    exact .of_eq rfl rfl
  | create | createTarget | transition | appendStep | prepareCall =>
    cases h
    exact .of_afterAssistant _
  | updateCall id expected u =>
    simp only [MeetingDb.next] at h
    split_ifs at h
    cases h
    exact .of_afterAssistant _
  | other assistant =>
    cases h
    exact .of_eq rfl rfl

end Transactions

end Assistant
end Matinier
