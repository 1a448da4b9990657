import Mathlib.Data.Option.Basic
import Matinier.Plugins.Framing

/-!
# What one side sends and the other accepts

Whatever the host sends is accepted by the runtime of a plugin. The host accepts what a runtime
sends where it is not nested deeper than the host allows, its identifier is not too long for the
host and its text is not longer than the host's stream gives out as one line.
-/

namespace Matinier
namespace Plugins

open JsonText

section Entries

variable {e : Envelope} {id : RpcId} {method code message : String} {params : JsonEntries}
  {value : JsonValue} {data : Option JsonEntries}

@[simp] theorem rpcId?_toJson (id : RpcId) : rpcId? id.toJson = some id := by
  cases id <;> rfl

@[simp] theorem data?_dataJson (data : Option JsonEntries) : data? (dataJson data) = some data := by
  cases data <;> rfl

@[simp] theorem errorId?_toJson (id : Option RpcId) :
    errorId? (id.elim .null RpcId.toJson) = some id := by
  rcases id with _ | (_ | _) <;> rfl

theorem RpcId.unique (id : RpcId) : id.toJson.Unique := by
  cases id
  · exact .str _
  · exact .int _

theorem dataJson_unique {data : Option JsonDict} :
    (dataJson (data.map JsonDict.entries)).Unique := by
  cases data with
  | none => exact .null
  | some data => exact data.unique

/-- The parts of a message have no repeated keys. -/
def Envelope.PartsUnique : Envelope → Prop
  | .request _ _ params => (JsonValue.obj params).Unique
  | .notification _ params => (JsonValue.obj params).Unique
  | .result _ value => value.Unique
  | .error _ _ _ data => (dataJson data).Unique

theorem Envelope.unique (h : e.PartsUnique) : e.toJson.Unique := by
  cases e with
  | request id method params =>
    refine .obj (by simp [Envelope.entries]) ?_
    simp only [Envelope.entries, List.forall_mem_cons]
    exact ⟨.str _, id.unique, .str _, h, fun _ hmem => absurd hmem List.not_mem_nil⟩
  | notification method params =>
    refine .obj (by simp [Envelope.entries]) ?_
    simp only [Envelope.entries, List.forall_mem_cons]
    exact ⟨.str _, .str _, h, fun _ hmem => absurd hmem List.not_mem_nil⟩
  | result id value =>
    refine .obj (by simp [Envelope.entries]) ?_
    simp only [Envelope.entries, List.forall_mem_cons]
    exact ⟨.str _, id.unique, h, fun _ hmem => absurd hmem List.not_mem_nil⟩
  | error id code message data =>
    have hid : (id.elim JsonValue.null RpcId.toJson).Unique := by
      cases id with
      | none => exact .null
      | some id => exact id.unique
    refine .obj (by simp [Envelope.entries]) ?_
    simp only [Envelope.entries, List.forall_mem_cons]
    refine ⟨.str _, hid, .obj (by simp) ?_, fun _ hmem => absurd hmem List.not_mem_nil⟩
    simp only [List.forall_mem_cons]
    exact ⟨.str _, .str _, h, fun _ hmem => absurd hmem List.not_mem_nil⟩

theorem BoundedJson.entry {maxBytes maxDepth : ℕ} {entries : JsonEntries} (key : String)
    (h : BoundedJson maxBytes maxDepth (.obj entries)) (hmem : (key, value) ∈ entries) :
    BoundedJson maxBytes maxDepth value :=
  ⟨(JsonValue.nesting_entry hmem).le.trans h.1, (byteLength_entry key hmem).trans h.2⟩

end Entries

theorem readLine_encodeLine (message : JsonValue) (rest : List Char) :
    readLine (encodeLine message ++ rest) = some (dumps message, rest) := by
  have hline : ∀ c ∈ dumps message, (decide (c ≠ '\n')) = true := by
    intro c hc
    rw [decide_eq_true_eq]
    rintro rfl
    exact newline_notMem_dumps message hc
  unfold readLine encodeLine
  rw [List.append_assoc, List.dropWhile_append_of_pos hline, List.takeWhile_append_of_pos hline]
  simp

theorem loads_message {message : JsonValue} (h : message.Unique) :
    loads (dumps message) = some message := by
  simpa using loads_dumps h [] (by simp)

/-- What the host asks of the parts of a message. -/
def Envelope.HostAcceptable : Envelope → Prop
  | .request id method params => id.HostValid ∧ isMethod method = true ∧
      BoundedJson maxRpcMessageBytes maxEventPayloadDepth (.obj params)
  | .notification method params => isMethod method = true ∧
      BoundedJson maxRpcMessageBytes maxEventPayloadDepth (.obj params)
  | .result id value => id.HostValid ∧
      BoundedJson maxRpcMessageBytes maxEventPayloadDepth value
  | .error id code message data => (∀ i ∈ id, i.HostValid) ∧
      (code ∈ publicErrorCodes ∧ 1 ≤ message.length ∧ message.length ≤ 512) ∧
      BoundedJson maxRpcMessageBytes maxEventPayloadDepth (dataJson data)

instance (e : Envelope) : Decidable e.HostAcceptable := by
  unfold Envelope.HostAcceptable
  split <;> infer_instance

theorem guard_eq_some_iff {p : Prop} [Decidable p] {u : Unit} :
    (guard p : Option Unit) = some u ↔ p := by
  by_cases hp : p <;> simp [hp]

/-- The host reads the parts of a message back, where it asks no more of them. -/
theorem hostDispatch_entries (e e' : Envelope) :
    hostDispatch e.entries = some e' ↔ e.HostAcceptable ∧ e = e' := by
  cases e with
  | request id method params =>
    simp [hostDispatch, hostAcceptRequest, hostAcceptCall, Envelope.entries, JsonValue.lookup,
      onlyKeys, versionOk, Envelope.HostAcceptable, Option.bind_eq_some_iff, and_assoc]
  | notification method params =>
    simp [hostDispatch, hostAcceptNotification, hostAcceptCall, Envelope.entries,
      JsonValue.lookup, onlyKeys, versionOk, Envelope.HostAcceptable, Option.bind_eq_some_iff,
      and_assoc]
  | result id value =>
    simp [hostDispatch, hostAcceptResult, Envelope.entries, JsonValue.lookup, onlyKeys, versionOk,
      Envelope.HostAcceptable, Option.bind_eq_some_iff, and_assoc]
  | error id code message data =>
    simp [hostDispatch, hostAcceptError, Envelope.entries, JsonValue.lookup, onlyKeys, versionOk,
      Envelope.HostAcceptable, Option.bind_eq_some_iff, and_assoc]

/-- The host reads a message from its line where the line is short enough, the message is bounded
and its parts are accepted; the stream goes on behind the line. -/
theorem hostRead_line {e : Envelope} (h : e.PartsUnique) (rest : List Char)
    (received : Envelope × List Char) :
    hostRead (encodeLine e.toJson ++ rest) = some received ↔
      byteLength (dumps e.toJson) ≤ streamLimit ∧
        byteLength (dumps e.toJson) + 1 ≤ maxLineBytes ∧
        BoundedJson maxRpcMessageBytes maxEventPayloadDepth e.toJson ∧ e.HostAcceptable ∧
        (e, rest) = received := by
  have hloads : loads (dumps e.toJson) = some (.obj e.entries) :=
    loads_message (Envelope.unique h)
  unfold hostRead
  simp only [readLine_encodeLine, Option.bind_eq_bind, Option.bind_some, hloads,
    Option.bind_eq_some_iff, guard_eq_some_iff, hostDispatch_entries, Option.pure_def,
    Option.some.injEq]
  constructor
  · rintro ⟨_, hstream, _, hline, _, hbounded, _, ⟨hparts, rfl⟩, heq⟩
    exact ⟨hstream, hline, hbounded, hparts, heq⟩
  · rintro ⟨hstream, hline, hbounded, hparts, heq⟩
    exact ⟨(), hstream, (), hline, (), hbounded, _, ⟨hparts, rfl⟩, heq⟩

def SdkMessage.id? : SdkMessage → Option RpcId
  | .capability requestId _ _ _ _ => some (.str ("plugin-" ++ toString requestId))
  | .result id _ => some id
  | .error id _ => id

/-- What of a message the host can take: it is not nested too deep for the host, its text is not
longer than the host's stream gives out, and its identifier is not too long. -/
def SdkMessage.Fits (m : SdkMessage) : Prop :=
  m.envelope.toJson.nesting ≤ maxEventPayloadDepth ∧
    byteLength (dumps m.envelope.toJson) ≤ streamLimit ∧ ∀ id ∈ m.id?, id.HostValid

instance (m : SdkMessage) : Decidable m.Fits := inferInstanceAs (Decidable (_ ∧ _ ∧ _))

theorem SdkMessage.partsUnique (m : SdkMessage) : m.envelope.PartsUnique := by
  cases m with
  | capability requestId name sessionScope inputValue idempotencyKey =>
    refine .obj ?_ ?_
    · cases idempotencyKey <;> simp [capabilityParams]
    · have hinput := inputValue.unique
      cases idempotencyKey <;>
        simp only [capabilityParams, Option.toList, List.map_nil, List.map_cons, List.append_nil,
          List.cons_append, List.nil_append, List.forall_mem_cons]
      · exact ⟨.str _, .str _, hinput, fun _ hmem => absurd hmem List.not_mem_nil⟩
      · exact ⟨.str _, .str _, hinput, .str _, fun _ hmem => absurd hmem List.not_mem_nil⟩
  | result id value => exact value.unique
  | error id reason => exact dataJson_unique

/-- In a bounded message that a runtime has made up the host looks at the identifier only. -/
theorem SdkMessage.hostAcceptable_iff {m : SdkMessage}
    (hbounded : BoundedJson maxRpcMessageBytes maxEventPayloadDepth m.envelope.toJson) :
    m.envelope.HostAcceptable ↔ ∀ id ∈ m.id?, id.HostValid := by
  cases m with
  | capability requestId name sessionScope inputValue idempotencyKey =>
    have hparams := hbounded.entry "params" (by simp [envelope, Envelope.entries]; rfl)
    have hmethod : isMethod "capability.invoke" = true := by decide
    simp [envelope, Envelope.HostAcceptable, id?, hparams, hmethod]
  | result id value =>
    have hvalue := hbounded.entry "result" (by simp [envelope, Envelope.entries]; rfl)
    simp [envelope, Envelope.HostAcceptable, id?, hvalue]
  | error id reason =>
    have herror := hbounded.entry "error" (by simp [envelope, Envelope.entries]; rfl)
    have hdata := herror.entry "data"
      (by simp only [List.mem_cons, Prod.mk.injEq, true_and]; exact Or.inr (Or.inr (Or.inl rfl)))
    simp [envelope, Envelope.HostAcceptable, id?, hdata, reason.code_public, reason.message_pos,
      reason.message_le]

theorem sdkSend_eq_some {m : SdkMessage} {line : List Char} (h : sdkSend m = some line) :
    m.Checked ∧ byteLength (dumps m.envelope.toJson) ≤ maxRpcMessageBytes ∧
      line = encodeLine m.envelope.toJson := by
  unfold sdkSend at h
  split_ifs at h with hsent
  exact ⟨hsent.1, hsent.2, (Option.some.inj h).symm⟩

theorem hostRead_sent {m : SdkMessage} {line : List Char} (h : sdkSend m = some line)
    (rest : List Char) (received : Envelope × List Char) :
    hostRead (line ++ rest) = some received ↔ m.Fits ∧ (m.envelope, rest) = received := by
  obtain ⟨-, hbytes, rfl⟩ := sdkSend_eq_some h
  rw [hostRead_line m.partsUnique]
  constructor
  · rintro ⟨hstream, -, hbounded, hparts, heq⟩
    exact ⟨⟨hbounded.1, hstream, (SdkMessage.hostAcceptable_iff hbounded).mp hparts⟩, heq⟩
  · rintro ⟨⟨hnesting, hstream, hid⟩, heq⟩
    have hline : byteLength (dumps m.envelope.toJson) + 1 ≤ maxLineBytes := by
      unfold streamLimit at hstream
      unfold maxLineBytes
      omega
    exact ⟨hstream, hline, ⟨hnesting, hbytes⟩,
      (SdkMessage.hostAcceptable_iff ⟨hnesting, hbytes⟩).mpr hid, heq⟩

/-- What the runtime of a plugin is to do with a message: start its handler, or settle the
pending call that has its identifier. -/
def HostMessage.receipt (pending : RpcId → Bool) : HostMessage → SdkReceipt
  | .request requestId method params =>
    .dispatched (some (.str ("host-" ++ toString requestId))) method params.entries
  | .notification method params => .dispatched none method params.entries
  | .result id value =>
    if pending id = false then .ignored
    else match value.value with
      | .obj entries => .resolved id entries
      | _ => .failed id "plugin.protocol.invalid" "Host capability returned a non-object result"
          none
  | .error id reason =>
    if pending id = false then .ignored
    else .failed id reason.code reason.message (reason.data.map JsonDict.entries)

theorem length_le_byteLength (text : List Char) : text.length ≤ byteLength text := by
  induction text with
  | nil => exact Nat.le_refl _
  | cons c text ih =>
    have hc := c.utf8Size_pos
    rw [List.length_cons, byteLength_cons]
    omega

/-- An identifier that is short enough for the host is so for the runtime. -/
theorem RpcId.HostValid.sdkValid {id : RpcId} (h : id.HostValid) : id.SdkValid := by
  cases id with
  | str s =>
    have hlength := length_le_byteLength s.toList
    rw [String.length_toList] at hlength
    exact ⟨h.1, hlength.trans h.2⟩
  | int n => trivial

theorem isDottedName_of_isMethod {method : String} (h : isMethod method = true) :
    isDottedName method = true := by
  unfold isMethod at h
  rw [Bool.and_eq_true] at h
  exact h.2

theorem HostMessage.partsUnique (m : HostMessage) : m.envelope.PartsUnique := by
  cases m with
  | request requestId method params => exact params.unique
  | notification method params => exact params.unique
  | result id value => exact value.unique
  | error id reason => exact dataJson_unique

theorem sdkAccept_message {m : HostMessage} (h : m.Checked) (pending : RpcId → Bool) :
    sdkAccept pending m.envelope.toJson = some (m.receipt pending) := by
  cases m with
  | request requestId method params =>
    obtain ⟨hid, hmethod, hparams⟩ := h
    have hid := hid.sdkValid
    simp only [Nat.toString_eq_repr] at hid
    simp [sdkAccept, sdkAcceptRequest, HostMessage.envelope, Envelope.toJson, Envelope.entries,
      HostMessage.receipt, JsonValue.lookup, onlyKeys, isDottedName_of_isMethod hmethod,
      hparams.2, hid]
  | notification method params =>
    obtain ⟨hmethod, hparams⟩ := h
    simp [sdkAccept, sdkAcceptRequest, HostMessage.envelope, Envelope.toJson, Envelope.entries,
      HostMessage.receipt, JsonValue.lookup, onlyKeys, isDottedName_of_isMethod hmethod,
      hparams.2]
  | result id value =>
    obtain ⟨hid, hvalue⟩ := h
    obtain ⟨value, hunique⟩ := value
    by_cases hpending : pending id = false
    · simp [sdkAccept, sdkAcceptResponse, HostMessage.envelope, Envelope.toJson,
        Envelope.entries, HostMessage.receipt, JsonValue.lookup, onlyKeys, hid.sdkValid, hpending]
    · cases value <;>
        simp_all [sdkAccept, sdkAcceptResponse, HostMessage.envelope, Envelope.toJson,
          Envelope.entries, HostMessage.receipt, JsonValue.lookup, onlyKeys, hid.sdkValid,
          hvalue.2]
  | error id reason =>
    obtain ⟨hid, -⟩ := h
    by_cases hpending : pending id = false
    · simp [sdkAccept, sdkAcceptResponse, HostMessage.envelope, Envelope.toJson,
        Envelope.entries, HostMessage.receipt, JsonValue.lookup, onlyKeys, hid.sdkValid, hpending]
    · simp [sdkAccept, sdkAcceptResponse, HostMessage.envelope, Envelope.toJson,
        Envelope.entries, HostMessage.receipt, JsonValue.lookup, onlyKeys, hid.sdkValid, hpending,
        reason.code_public]

theorem hostSend_eq_some {m : HostMessage} {line : List Char} (h : hostSend m = some line) :
    m.Checked ∧ Sendable m.envelope.toJson ∧ line = encodeLine m.envelope.toJson := by
  unfold hostSend at h
  split_ifs at h with hsent
  exact ⟨hsent.1, hsent.2, (Option.some.inj h).symm⟩

theorem sdkRead_sent {m : HostMessage} {line : List Char} (h : hostSend m = some line)
    (pending : RpcId → Bool) (rest : List Char) :
    sdkRead pending (line ++ rest) = some (m.receipt pending, rest) := by
  obtain ⟨hchecked, ⟨hbounded, -⟩, rfl⟩ := hostSend_eq_some h
  have hshort : ¬ byteLength (dumps m.envelope.toJson) + 1 > maxRpcMessageBytes + 1 := by
    have := hbounded.2
    omega
  have hloads := loads_message (Envelope.unique m.partsUnique)
  unfold sdkRead
  rw [readLine_encodeLine]
  simp only [Option.map_some, if_neg hshort, hloads, Option.bind_some,
    sdkAccept_message hchecked pending, Option.getD_some]

/-- The host takes what a runtime sends as it was meant where it fits, and refuses it otherwise;
the runtime does with what the host sends what it is to do. -/
theorem framing_agrees (rest : List Char) :
    (∀ (m : SdkMessage) (line : List Char), sdkSend m = some line →
      (hostRead (line ++ rest) = some (m.envelope, rest) ↔ m.Fits) ∧
        (¬ m.Fits → hostRead (line ++ rest) = none)) ∧
    ∀ (m : HostMessage) (line : List Char) (pending : RpcId → Bool),
      hostSend m = some line → sdkRead pending (line ++ rest) = some (m.receipt pending, rest) := by
  refine ⟨fun m line hsent => ⟨?_, fun hfits => ?_⟩,
    fun m line pending hsent => sdkRead_sent hsent pending rest⟩
  · rw [hostRead_sent hsent]
    exact ⟨fun h => h.1, fun h => ⟨h, rfl⟩⟩
  · refine Option.eq_none_iff_forall_ne_some.mpr fun received hread => hfits ?_
    exact ((hostRead_sent hsent rest received).mp hread).1

def nested : ℕ → JsonValue
  | 0 => .null
  | n + 1 => .arr [nested n]

theorem nested_unique (n : ℕ) : (nested n).Unique := by
  induction n with
  | zero => exact .null
  | succ n ih => exact .arr (by simpa using ih)

/-- The result of a request that is nested one level deeper than the host allows. -/
def deepResult : SdkMessage := .result (.str "host-1") ⟨nested 16, nested_unique 16⟩

theorem shallowResult_agrees :
    ∃ line, sdkSend (.result (.str "host-1") ⟨nested 15, nested_unique 15⟩) = some line ∧
      hostRead line = some (.result (.str "host-1") (nested 15), []) := by
  have hsent : sdkSend (.result (.str "host-1") ⟨nested 15, nested_unique 15⟩) =
      some (encodeLine (Envelope.result (.str "host-1") (nested 15)).toJson) := by
    unfold sdkSend
    exact if_pos (by decide)
  have hread := ((framing_agrees []).1 _ _ hsent).1.mpr (by decide)
  rw [List.append_nil] at hread
  exact ⟨_, hsent, hread⟩

theorem deepResult_refused : ∃ line, sdkSend deepResult = some line ∧ hostRead line = none := by
  have hsent : sdkSend deepResult = some (encodeLine deepResult.envelope.toJson) := by
    unfold sdkSend
    exact if_pos (by decide)
  have hfits : ¬ deepResult.Fits := by decide
  refine ⟨_, hsent, Option.eq_none_iff_forall_ne_some.mpr fun received hread => hfits ?_⟩
  rw [← List.append_nil (encodeLine deepResult.envelope.toJson)] at hread
  exact ((hostRead_sent hsent [] received).mp hread).1

end Plugins
end Matinier
