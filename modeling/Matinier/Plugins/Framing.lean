import Matinier.Foundation.JsonText

/-!
# Messages between the host and a plugin

Each message is the text of a JSON object on a line of its own. The runtime that a plugin is
written with and the host's peer each have their own limits on what they send and on what they
accept.
-/

namespace Matinier
namespace Plugins

open JsonText

/-- The nesting and the bytes of a value are within limits. -/
def BoundedJson (maxBytes maxDepth : ℕ) (value : JsonValue) : Prop :=
  value.nesting ≤ maxDepth ∧ byteLength (dumps value) ≤ maxBytes

instance (maxBytes maxDepth : ℕ) (value : JsonValue) :
    Decidable (BoundedJson maxBytes maxDepth value) :=
  inferInstanceAs (Decidable (_ ∧ _))

def maxEventPayloadBytes : ℕ := 64 * 1024
def maxEventPayloadDepth : ℕ := 16
def maxRpcMessageBytes : ℕ := 256 * 1024

def maxLineBytes : ℕ := 256 * 1024

/-- The bytes the stream of a subprocess gives out as one line when it is made without a limit. -/
def streamLimit : ℕ := 64 * 1024

def publicErrorCodes : List String :=
  ["plugin.protocol.invalid", "plugin.permission.denied", "plugin.protocol.method_not_found",
    "plugin.protocol.timeout", "plugin.scope.invalid", "plugin.capability.failed"]

/-- Names with a dot between two; each starts with a small letter and goes on with small letters,
digits and the marks that are allowed. -/
def isDotted (marks : List Char) (name : String) : Bool :=
  let parts := name.toList.splitOn '.'
  2 ≤ parts.length && parts.all fun part =>
    part.head?.any Char.isLower && part.all fun c => c.isLower || c.isDigit || c ∈ marks

def isDottedName (name : String) : Bool := isDotted ['_'] name

abbrev JsonEntries := List (String × JsonValue)

/-- A dictionary; it has no key twice, at any depth. -/
structure JsonDict where
  entries : JsonEntries
  unique : (JsonValue.obj entries).Unique

structure JsonDocument where
  value : JsonValue
  unique : value.Unique

inductive RpcId where
  | str (value : String)
  | int (value : ℤ)
  deriving DecidableEq

def RpcId.toJson : RpcId → JsonValue
  | .str s => .str s
  | .int n => .int n

/-- The identifiers the host accepts. -/
def RpcId.HostValid : RpcId → Prop
  | .str s => s ≠ "" ∧ byteLength s.toList ≤ 128
  | .int _ => True

instance (id : RpcId) : Decidable id.HostValid := by
  unfold RpcId.HostValid
  split <;> infer_instance

/-- The identifiers the runtime of a plugin accepts. -/
def RpcId.SdkValid : RpcId → Prop
  | .str s => s ≠ "" ∧ s.length ≤ 128
  | .int _ => True

instance (id : RpcId) : Decidable id.SdkValid := by
  unfold RpcId.SdkValid
  split <;> infer_instance

def rpcId? : JsonValue → Option RpcId
  | .str s => some (.str s)
  | .int n => some (.int n)
  | _ => none

/-- An error of the public contract. -/
structure PublicError where
  code : String
  message : String
  data : Option JsonDict
  code_public : code ∈ publicErrorCodes
  message_pos : 1 ≤ message.length
  message_le : message.length ≤ 512

def dataJson (data : Option JsonEntries) : JsonValue := data.elim .null .obj

/-- The data of an error, where it has any; anything but a dictionary is none. -/
def data? : JsonValue → Option (Option JsonEntries)
  | .null => some none
  | .obj data => some (some data)
  | _ => none

/-- The identifier in an error, which may be null. -/
def errorId? : JsonValue → Option (Option RpcId)
  | .null => some none
  | raw => (rpcId? raw).map some

inductive Envelope where
  | request (id : RpcId) (method : String) (params : JsonEntries)
  | notification (method : String) (params : JsonEntries)
  | result (id : RpcId) (value : JsonValue)
  | error (id : Option RpcId) (code message : String) (data : Option JsonEntries)

def Envelope.entries : Envelope → JsonEntries
  | .request id method params =>
    [("jsonrpc", .str "2.0"), ("id", id.toJson), ("method", .str method), ("params", .obj params)]
  | .notification method params =>
    [("jsonrpc", .str "2.0"), ("method", .str method), ("params", .obj params)]
  | .result id value => [("jsonrpc", .str "2.0"), ("id", id.toJson), ("result", value)]
  | .error id code message data =>
    [("jsonrpc", .str "2.0"), ("id", id.elim .null RpcId.toJson),
      ("error", .obj [("code", .str code), ("message", .str message), ("data", dataJson data)])]

def Envelope.toJson (e : Envelope) : JsonValue := .obj e.entries

def encodeLine (message : JsonValue) : List Char := dumps message ++ ['\n']

/-- The next line of a stream, without its end, and what comes after it. -/
def readLine (stream : List Char) : Option (List Char × List Char) :=
  match stream.dropWhile (· ≠ '\n') with
  | _ :: rest => some (stream.takeWhile (· ≠ '\n'), rest)
  | [] => none

/-- What the runtime of a plugin sends: a request for a capability, the result of a request of
the host, or an error. -/
inductive SdkMessage where
  | capability (requestId : ℕ) (name sessionScope : String) (inputValue : JsonDict)
      (idempotencyKey : Option String)
  | result (id : RpcId) (value : JsonDocument)
  | error (id : Option RpcId) (reason : PublicError)

/-- What is checked before the runtime makes up a message. -/
def SdkMessage.Checked : SdkMessage → Prop
  | .capability _ name sessionScope inputValue idempotencyKey =>
    isDottedName name = true ∧ sessionScope ≠ "" ∧ (∀ key ∈ idempotencyKey, key ≠ "") ∧
      byteLength (dumps (.obj inputValue.entries)) ≤ maxRpcMessageBytes
  | .result id _ => id.SdkValid
  | .error id reason => (∀ i ∈ id, i.SdkValid) ∧
      byteLength (dumps (dataJson (reason.data.map JsonDict.entries))) ≤ maxRpcMessageBytes

instance (m : SdkMessage) : Decidable m.Checked := by
  unfold SdkMessage.Checked
  split <;> infer_instance

def capabilityParams (name sessionScope : String) (inputValue : JsonEntries)
    (idempotencyKey : Option String) : JsonEntries :=
  [("capability", .str name), ("session_scope", .str sessionScope), ("input", .obj inputValue)] ++
    idempotencyKey.toList.map fun key => ("idempotency_key", .str key)

def SdkMessage.envelope : SdkMessage → Envelope
  | .capability requestId name sessionScope inputValue idempotencyKey =>
    .request (.str ("plugin-" ++ toString requestId)) "capability.invoke"
      (capabilityParams name sessionScope inputValue.entries idempotencyKey)
  | .result id value => .result id value.value
  | .error id reason => .error id reason.code reason.message (reason.data.map JsonDict.entries)

/-- The line a runtime sends for a message, where it sends it. -/
def sdkSend (m : SdkMessage) : Option (List Char) :=
  if m.Checked ∧ byteLength (dumps m.envelope.toJson) ≤ maxRpcMessageBytes then
    some (encodeLine m.envelope.toJson)
  else none

/-- What becomes of a line in the runtime of a plugin: a handler is started, a pending call is
settled, a reply nobody waits for is passed over, or the line is refused. -/
inductive SdkReceipt where
  | dispatched (id : Option RpcId) (method : String) (params : JsonEntries)
  | resolved (id : RpcId) (result : JsonEntries)
  | failed (id : RpcId) (code message : String) (data : Option JsonEntries)
  | ignored
  | refused

def onlyKeys (keys : List String) (entries : JsonEntries) : Bool :=
  entries.all fun entry => entry.1 ∈ keys

def sdkAcceptRequest (entries : JsonEntries) : Option SdkReceipt := do
  guard (onlyKeys ["jsonrpc", "id", "method", "params"] entries = true)
  let .str method ← JsonValue.lookup "method" entries | none
  let .obj params := (JsonValue.lookup "params" entries).getD (.obj []) | none
  guard (isDottedName method = true)
  guard (byteLength (dumps (.obj params)) ≤ maxRpcMessageBytes)
  match JsonValue.lookup "id" entries with
  | none => return .dispatched none method params
  | some raw => do
    let id ← rpcId? raw
    guard id.SdkValid
    return .dispatched (some id) method params

def sdkAcceptResponse (pending : RpcId → Bool) (entries : JsonEntries) : Option SdkReceipt := do
  guard (onlyKeys ["jsonrpc", "id", "result", "error"] entries = true)
  let id ← (JsonValue.lookup "id" entries).bind rpcId?
  guard ((JsonValue.lookup "result" entries).isSome ≠ (JsonValue.lookup "error" entries).isSome)
  guard id.SdkValid
  if pending id = false then return .ignored
  match JsonValue.lookup "error" entries, JsonValue.lookup "result" entries with
  | some (.obj error), _ => do
    guard (onlyKeys ["code", "message", "data"] error = true)
    let .str code ← JsonValue.lookup "code" error | none
    let .str message ← JsonValue.lookup "message" error | none
    guard (code ∈ publicErrorCodes)
    let data ← data? ((JsonValue.lookup "data" error).getD .null)
    return .failed id code message data
  | some _, _ => none
  | none, some (.obj result) => do
    guard (byteLength (dumps (.obj result)) ≤ maxRpcMessageBytes)
    return .resolved id result
  | none, _ =>
    let message := "Host capability returned a non-object result"
    return .failed id "plugin.protocol.invalid" message none

def sdkAccept (pending : RpcId → Bool) (message : JsonValue) : Option SdkReceipt :=
  match message with
  | .obj entries =>
    match JsonValue.lookup "jsonrpc" entries with
    | some (.str version) =>
      if version = "2.0" then
        if (JsonValue.lookup "method" entries).isSome then sdkAcceptRequest entries
        else sdkAcceptResponse pending entries
      else none
    | _ => none
  | _ => none

/-- Read the next line of what the host sends. -/
def sdkRead (pending : RpcId → Bool) (stream : List Char) : Option (SdkReceipt × List Char) :=
  (readLine stream).map fun line =>
    let receipt :=
      if byteLength line.1 + 1 > maxRpcMessageBytes + 1 then none
      else (loads line.1).bind (sdkAccept pending)
    (receipt.getD .refused, line.2)

/-- What the peer of the host sends: a request, a notification, the result of a request of the
plugin, or an error. -/
inductive HostMessage where
  | request (requestId : ℕ) (method : String) (params : JsonDict)
  | notification (method : String) (params : JsonDict)
  | result (id : RpcId) (value : JsonDocument)
  | error (id : RpcId) (reason : PublicError)

def isMethod (method : String) : Bool :=
  3 ≤ method.length && method.length ≤ 128 && isDottedName method

def HostMessage.Checked : HostMessage → Prop
  | .request requestId method params =>
    (RpcId.str ("host-" ++ toString requestId)).HostValid ∧ isMethod method = true ∧
      BoundedJson maxRpcMessageBytes maxEventPayloadDepth (.obj params.entries)
  | .notification method params => isMethod method = true ∧
      BoundedJson maxRpcMessageBytes maxEventPayloadDepth (.obj params.entries)
  | .result id value => id.HostValid ∧
      BoundedJson maxRpcMessageBytes maxEventPayloadDepth value.value
  | .error id reason => id.HostValid ∧ BoundedJson maxRpcMessageBytes maxEventPayloadDepth
      (dataJson (reason.data.map JsonDict.entries))

instance (m : HostMessage) : Decidable m.Checked := by
  unfold HostMessage.Checked
  split <;> infer_instance

def HostMessage.envelope : HostMessage → Envelope
  | .request requestId method params =>
    .request (.str ("host-" ++ toString requestId)) method params.entries
  | .notification method params => .notification method params.entries
  | .result id value => .result id value.value
  | .error id reason =>
    .error (some id) reason.code reason.message (reason.data.map JsonDict.entries)

def Sendable (message : JsonValue) : Prop :=
  BoundedJson maxRpcMessageBytes maxEventPayloadDepth message ∧
    byteLength (encodeLine message) ≤ maxLineBytes

instance (message : JsonValue) : Decidable (Sendable message) :=
  inferInstanceAs (Decidable (_ ∧ _))

/-- The line the host sends for a message, where it sends it. -/
def hostSend (m : HostMessage) : Option (List Char) :=
  if m.Checked ∧ Sendable m.envelope.toJson then some (encodeLine m.envelope.toJson) else none

def versionOk (entries : JsonEntries) : Bool :=
  match JsonValue.lookup "jsonrpc" entries with
  | none => true
  | some (.str version) => version = "2.0"
  | some _ => false

/-- The method and the parameters of a request or a notification. -/
def hostAcceptCall (entries : JsonEntries) : Option (String × JsonEntries) := do
  guard (versionOk entries = true)
  let .str method ← JsonValue.lookup "method" entries | none
  let .obj params := (JsonValue.lookup "params" entries).getD (.obj []) | none
  guard (isMethod method = true)
  guard (BoundedJson maxRpcMessageBytes maxEventPayloadDepth (.obj params))
  return (method, params)

def hostAcceptRequest (entries : JsonEntries) : Option Envelope := do
  guard (onlyKeys ["jsonrpc", "id", "method", "params"] entries = true)
  let id ← (JsonValue.lookup "id" entries).bind rpcId?
  guard id.HostValid
  let (method, params) ← hostAcceptCall entries
  return .request id method params

def hostAcceptNotification (entries : JsonEntries) : Option Envelope := do
  guard (onlyKeys ["jsonrpc", "method", "params"] entries = true)
  let (method, params) ← hostAcceptCall entries
  return .notification method params

def hostAcceptResult (entries : JsonEntries) : Option Envelope := do
  guard (onlyKeys ["jsonrpc", "id", "result"] entries = true ∧ versionOk entries = true)
  let id ← (JsonValue.lookup "id" entries).bind rpcId?
  guard id.HostValid
  let value ← JsonValue.lookup "result" entries
  guard (BoundedJson maxRpcMessageBytes maxEventPayloadDepth value)
  return .result id value

def hostAcceptError (entries : JsonEntries) : Option Envelope := do
  guard (onlyKeys ["jsonrpc", "id", "error"] entries = true ∧ versionOk entries = true)
  let id ← (JsonValue.lookup "id" entries).bind errorId?
  guard (∀ i ∈ id, i.HostValid)
  let .obj error ← JsonValue.lookup "error" entries | none
  guard (onlyKeys ["code", "message", "data"] error = true)
  let .str code ← JsonValue.lookup "code" error | none
  let .str message ← JsonValue.lookup "message" error | none
  guard (code ∈ publicErrorCodes ∧ 1 ≤ message.length ∧ message.length ≤ 512)
  let data ← data? ((JsonValue.lookup "data" error).getD .null)
  guard (BoundedJson maxRpcMessageBytes maxEventPayloadDepth (dataJson data))
  return .error id code message data

def hostDispatch (entries : JsonEntries) : Option Envelope :=
  let has := fun key => (JsonValue.lookup key entries).isSome
  if has "method" then
    if has "id" then hostAcceptRequest entries else hostAcceptNotification entries
  else if has "error" then
    if has "result" then none else hostAcceptError entries
  else if has "result" then hostAcceptResult entries
  else none

def hostRead (stream : List Char) : Option (Envelope × List Char) := do
  let (text, rest) ← readLine stream
  guard (byteLength text ≤ streamLimit)
  guard (byteLength text + 1 ≤ maxLineBytes)
  let .obj entries ← loads text | none
  guard (BoundedJson maxRpcMessageBytes maxEventPayloadDepth (.obj entries))
  let envelope ← hostDispatch entries
  return (envelope, rest)

end Plugins
end Matinier
