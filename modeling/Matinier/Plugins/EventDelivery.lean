import Matinier.Foundation.Machine
import Matinier.Media.Records
import Matinier.Plugins.Framing

/-!
# The delivery of media events to a plugin

A pass reads the events of a media session in windows, sends those of a window that the plugin
has subscribed to in one request, and stores how far the plugin has acknowledged them. It ends
where nothing is left, where the plugin acknowledges nothing new, or with what a request raises.

A pass is cut where it waits: for the row of the binding, for the supervisor, for the plugin.
Meanwhile the log grows, sessions are opened and lost, other passes go on, and the pass itself may
be given up. The passes for one binding keep apart by a lock, but locks are forgotten where the host
is stopped, so that nothing keeps them apart here.
-/

namespace Matinier
namespace Plugins

open JsonText
open Media (EventFinality)

def mediaEventFamilies : List String :=
  ["session", "playback", "transcript", "translation", "timeline", "audio", "video", "ocr",
    "chat", "user"]

def sensitiveKeys : List String :=
  ["access_token", "accesstoken", "api_key", "apikey", "authorization", "client_secret",
    "clientsecret", "cookie", "password", "passwd", "private_key", "privatekey", "secret"]

/-- A character without its case, as far as letters from a to z come of it. -/
def caseFold (c : Char) : List Char :=
  match c.toNat with
  | 0xdf | 0x1e9e => ['s', 's']
  | 0x130 => ['i', c]
  | 0x149 => [c, 'n']
  | 0x17f => ['s']
  | 0x1f0 => ['j', c]
  | 0x1e96 => ['h', c]
  | 0x1e97 => ['t', c]
  | 0x1e98 => ['w', c]
  | 0x1e99 => ['y', c]
  | 0x1e9a => ['a', c]
  | 0x212a => ['k']
  | 0xfb00 => ['f', 'f']
  | 0xfb01 => ['f', 'i']
  | 0xfb02 => ['f', 'l']
  | 0xfb03 => ['f', 'f', 'i']
  | 0xfb04 => ['f', 'f', 'l']
  | 0xfb05 | 0xfb06 => ['s', 't']
  | _ => [c.toLower]

/-- Small letters and digits, with one underscore between the runs of them. -/
def normalizedKey (key : String) : String :=
  let folded := key.toList.flatMap caseFold
  let runs := folded.splitOnP fun c => !(c.isLower || c.isDigit)
  String.intercalate "_" ((runs.filter fun run => !run.isEmpty).map String.ofList)

mutual

def hasKey (p : String → Bool) : JsonValue → Bool
  | .arr items => itemsHaveKey p items
  | .obj entries => entriesHaveKey p entries
  | _ => false

def itemsHaveKey (p : String → Bool) : List JsonValue → Bool
  | [] => false
  | v :: vs => hasKey p v || itemsHaveKey p vs

def entriesHaveKey (p : String → Bool) : List (String × JsonValue) → Bool
  | [] => false
  | (key, v) :: vs => p key || hasKey p v || entriesHaveKey p vs

end

def finalityName : EventFinality → String
  | .draft => "draft"
  | .final => "final"
  | .derived => "derived"

/-- What an event says; the time it was made at is a text here. -/
structure EventFields where
  eventId : String
  sessionId : String
  sequence : ℤ
  eventType : String
  mediaTimeMs : Option ℤ := none
  durationMs : Option ℤ := none
  logicalId : Option String := none
  revision : Option ℤ := none
  finality : EventFinality
  source : String
  payload : JsonDict
  createdAt : String

structure EventFields.Valid (e : EventFields) : Prop where
  eventId : 1 ≤ e.eventId.length ∧ e.eventId.length ≤ 128
  sessionId : 1 ≤ e.sessionId.length ∧ e.sessionId.length ≤ 128
  sequence : 1 ≤ e.sequence
  eventType : 3 ≤ e.eventType.length ∧ e.eventType.length ≤ 96 ∧ isDottedName e.eventType = true
  family : String.ofList (e.eventType.toList.takeWhile (· ≠ '.')) ∈ mediaEventFamilies
  mediaTimeMs : ∀ ms ∈ e.mediaTimeMs, 0 ≤ ms
  durationMs : ∀ ms ∈ e.durationMs, 0 ≤ ms
  logicalId : ∀ id ∈ e.logicalId, 1 ≤ id.length ∧ id.length ≤ 256
  revision : ∀ n ∈ e.revision, 1 ≤ n
  revised : e.revision.isSome = true → e.logicalId.isSome = true
  source : 3 ≤ e.source.length ∧ e.source.length ≤ 96 ∧ isDotted ['_', '-'] e.source = true
  payload : BoundedJson maxEventPayloadBytes maxEventPayloadDepth (.obj e.payload.entries)
  public_keys : hasKey (fun key => normalizedKey key ∈ sensitiveKeys) (.obj e.payload.entries) =
    false

structure MediaEvent extends EventFields where
  valid : toEventFields.Valid

def MediaEvent.toJson (e : MediaEvent) : JsonValue :=
  .obj [("schema_version", .int 1), ("event_id", .str e.eventId), ("session_id", .str e.sessionId),
    ("sequence", .int e.sequence), ("event_type", .str e.eventType),
    ("media_time_ms", e.mediaTimeMs.elim .null .int),
    ("duration_ms", e.durationMs.elim .null .int), ("logical_id", e.logicalId.elim .null .str),
    ("revision", e.revision.elim .null .int), ("finality", .str (finalityName e.finality)),
    ("source", .str e.source), ("payload", .obj e.payload.entries),
    ("created_at", .str e.createdAt)]

structure EventLog where
  events : List MediaEvent
  increasing : events.Pairwise fun e e' => e.sequence < e'.sequence

def EventLog.listEventsAfter (log : EventLog) (afterSequence : ℤ) (limit : ℕ) :
    List MediaEvent :=
  (log.events.filter fun e => afterSequence < e.sequence).take limit

inductive Raised where
  | runtime
  | connection
  | timeout
  | value
  | lookup
  | assertion
  deriving DecidableEq, Repr

inductive Reply where
  | result (value : JsonValue)
  | raised (error : Raised)

/-- What the host's peer raises instead of sending a message. -/
def sendError (m : HostMessage) : Option Raised :=
  if m.Checked ∧ BoundedJson maxRpcMessageBytes maxEventPayloadDepth m.envelope.toJson then
    if byteLength (encodeLine m.envelope.toJson) ≤ maxLineBytes then none else some .runtime
  else some .value

/-- A session that the supervisor has open with a plugin. -/
structure OpenSession where
  scope : String
  lastAcknowledgedSequence : ℤ

/-- The row of a binding, and what the supervisor holds of it. -/
structure EventBinding where
  mediaSessionId : String
  lastDeliveredSequence : ℤ := 0
  lastAcknowledgedSequence : ℤ := 0
  session : Option OpenSession := none

structure DeliveryConfig where
  batchSize : ℕ := 100
  batchSize_pos : 0 < batchSize := by decide
  subscriptions : List String

/-- What one batch of a pass finds: the log, a plugin that is ready or not, the number of its
next request, and what comes of the request. -/
structure Round where
  log : EventLog
  ready : Bool
  requestId : ℕ
  respond : List MediaEvent → Reply

theorem optional_unique {α : Type} {f : α → JsonValue} (value : Option α)
    (h : ∀ a, (f a).Unique) : (value.elim .null f).Unique := by
  cases value with
  | none => exact .null
  | some a => exact h a

theorem MediaEvent.unique (e : MediaEvent) : e.toJson.Unique := by
  apply JsonValue.Unique.obj
  · simp
  · simp only [List.forall_mem_cons]
    exact ⟨.int _, .str _, .str _, .int _, .str _, optional_unique _ .int, optional_unique _ .int,
      optional_unique _ .str, optional_unique _ .int, .str _, .str _, e.payload.unique, .str _,
      fun _ hmem => absurd hmem List.not_mem_nil⟩

def batchParams (mediaSessionId scope : String) (events : List MediaEvent) : JsonDict where
  entries := [("media_session_id", .str mediaSessionId), ("session_scope", .str scope),
    ("events", .arr (events.map MediaEvent.toJson))]
  unique := by
    apply JsonValue.Unique.obj
    · simp
    · simp only [List.forall_mem_cons]
      refine ⟨.str _, .str _, .arr ?_, fun _ hmem => absurd hmem List.not_mem_nil⟩
      intro item hitem
      obtain ⟨e, -, rfl⟩ := List.mem_map.mp hitem
      exact e.unique

def batchMessage (requestId : ℕ) (mediaSessionId scope : String) (events : List MediaEvent) :
    HostMessage :=
  .request requestId "event.batch" (batchParams mediaSessionId scope events)

def acknowledgement? : JsonValue → Option ℤ
  | .obj entries =>
    match JsonValue.lookup "acknowledged_sequence" entries with
    | some (.int n) => some n
    | _ => none
  | _ => none

namespace EventBinding

variable (b : EventBinding)

def advanceDelivery (sequence : ℤ) : EventBinding :=
  if b.lastDeliveredSequence < sequence then { b with lastDeliveredSequence := sequence } else b

def acknowledgeBinding (sequence : ℤ) : Except Raised EventBinding := do
  ensure (sequence ≤ b.lastDeliveredSequence) .value
  return if b.lastAcknowledgedSequence < sequence then
    { b with lastAcknowledgedSequence := sequence } else b

def hold (session : OpenSession) (sequence : ℤ) : EventBinding :=
  { b with session := some { session with lastAcknowledgedSequence := sequence } }

/-- Have the supervisor deliver events, and what the plugin acknowledges. -/
def deliverEvents (r : Round) (events : List MediaEvent) : Except Raised (ℤ × EventBinding) := do
  ensure (r.ready = true) .runtime
  let session ← require b.session .lookup
  match (events.map fun e => e.sequence).max? with
  | none => return (session.lastAcknowledgedSequence, b)
  | some maximum => do
    match sendError (batchMessage r.requestId b.mediaSessionId session.scope events) with
    | some e => throw e
    | none =>
      match r.respond events with
      | .raised e => throw e
      | .result value => do
        let acknowledged ← require (acknowledgement? value) .value
        ensure (session.lastAcknowledgedSequence ≤ acknowledged ∧ acknowledged ≤ maximum) .value
        return (acknowledged, b.hold session acknowledged)

def acknowledgeThrough (sequence : ℤ) : Except Raised (ℤ × EventBinding) := do
  let session ← require b.session .lookup
  ensure (session.lastAcknowledgedSequence ≤ sequence) .value
  return (sequence, b.hold session sequence)

/-- Deliver the events of a window, or go past it where it has none for the plugin. -/
def answerBatch (r : Round) (events : List MediaEvent) (deliveredThrough : ℤ) :
    Except Raised (ℤ × EventBinding) :=
  if events.isEmpty then b.acknowledgeThrough deliveredThrough else b.deliverEvents r events

/-- The last event of a window that is for the plugin says how far the window is delivered, or the
last one of all where none is. -/
def deliveredThrough (cfg : DeliveryConfig) (raw : List MediaEvent) (lastRaw : MediaEvent) : ℤ :=
  ((raw.filter fun e => e.eventType ∈ cfg.subscriptions).getLast?.getD lastRaw).sequence

def nextCursor (cfg : DeliveryConfig) (raw : List MediaEvent) (lastRaw : MediaEvent)
    (cursor acknowledged : ℤ) : Option ℤ :=
  if acknowledged ≤ cursor then none
  else if acknowledged < lastRaw.sequence then some acknowledged
  else if raw.length < cfg.batchSize then none
  else some acknowledged

/-- Deliver the next window of events, and where to go on, if anywhere. -/
def deliverBatch (cfg : DeliveryConfig) (r : Round) (cursor : ℤ) :
    EventBinding × Except Raised (Option ℤ) :=
  let raw := r.log.listEventsAfter cursor cfg.batchSize
  match raw.getLast? with
  | none => (b, .ok none)
  | some lastRaw =>
    let events := raw.filter fun e => e.eventType ∈ cfg.subscriptions
    let through := deliveredThrough cfg raw lastRaw
    let advanced := b.advanceDelivery through
    match advanced.answerBatch r events through with
    | .error e => (advanced, .error e)
    | .ok (acknowledged, answered) =>
      match answered.acknowledgeBinding acknowledged with
      | .error e => (answered, .error e)
      | .ok stored => (stored, .ok (nextCursor cfg raw lastRaw cursor acknowledged))

/-- Deliver windows of events, one for each round at most, and what ends it early. -/
def deliverEventBatches (cfg : DeliveryConfig) :
    List Round → ℤ → EventBinding → EventBinding × Option Raised
  | [], _, b => (b, none)
  | r :: rounds, cursor, b =>
    match b.deliverBatch cfg r cursor with
    | (b', .error e) => (b', some e)
    | (b', .ok none) => (b', none)
    | (b', .ok (some cursor')) => deliverEventBatches cfg rounds cursor' b'

end EventBinding

def EventLog.Extends (log log' : EventLog) : Prop := log.events <+: log'.events

def ReadsThrough : EventLog → List Round → EventLog → Prop
  | log, [], log' => log.Extends log'
  | log, r :: rounds, log' => log.Extends r.log ∧ ReadsThrough r.log rounds log'

structure Delivery where
  log : EventLog
  binding : EventBinding

/-- What may happen to a binding: the log grows; the supervisor opens the session, takes it over
from the row or opens it again for a new process, or loses it; a pass is made. -/
inductive DeliveryAction where
  | append
  | opened (scope : String)
  | loaded (scope : String)
  | reopened (scope : String)
  | closed
  | pass (rounds : List Round)

inductive DeliverySteps (cfg : DeliveryConfig) : Delivery → DeliveryAction → Delivery → Prop
  | append {log log' : EventLog} {b : EventBinding} (h : log.Extends log') :
    DeliverySteps cfg ⟨log, b⟩ .append ⟨log', b⟩
  | opened {log : EventLog} {b : EventBinding} (scope : String) :
    DeliverySteps cfg ⟨log, b⟩ (.opened scope) ⟨log, { b with session := some ⟨scope, 0⟩ }⟩
  | loaded {log : EventLog} {b : EventBinding} (scope : String) :
    DeliverySteps cfg ⟨log, b⟩ (.loaded scope)
      ⟨log, { b with session := some ⟨scope, b.lastAcknowledgedSequence⟩ }⟩
  | reopened {log : EventLog} {b : EventBinding} (scope : String) :
    DeliverySteps cfg ⟨log, b⟩ (.reopened scope)
      ⟨log, { b with session := b.session.map fun session => { session with scope } }⟩
  | closed {log : EventLog} {b : EventBinding} :
    DeliverySteps cfg ⟨log, b⟩ .closed ⟨log, { b with session := none }⟩
  | pass {log log' : EventLog} {b : EventBinding} {rounds : List Round}
      (h : ReadsThrough log rounds log') :
    DeliverySteps cfg ⟨log, b⟩ (.pass rounds)
      ⟨log', (b.deliverEventBatches cfg rounds b.lastAcknowledgedSequence).1⟩

open EventBinding (deliveredThrough nextCursor)

/-- The events that a pass has read behind its cursor. -/
structure Window where
  cursor : ℤ
  raw : List MediaEvent
  lastRaw : MediaEvent
  last : raw.getLast? = some lastRaw

namespace Window

variable (cfg : DeliveryConfig) (w : Window)

def events : List MediaEvent := w.raw.filter fun e => e.eventType ∈ cfg.subscriptions

def through : ℤ := deliveredThrough cfg w.raw w.lastRaw

end Window

def EventLog.window (log : EventLog) (cfg : DeliveryConfig) (cursor : ℤ) : Option Window :=
  match h : (log.listEventsAfter cursor cfg.batchSize).getLast? with
  | none => none
  | some lastRaw => some ⟨cursor, log.listEventsAfter cursor cfg.batchSize, lastRaw, h⟩

/-- What a pass waits for: to store how far its window is delivered; to have the supervisor deliver
the window, or go past it; the answer of the plugin, to what was sent in a session; to store how far
the window is acknowledged. -/
inductive PassStage where
  | advancing
  | answering
  | requested (session : OpenSession)
  | storing (acknowledged : ℤ)

/-- A pass, with the windows that it may read after this one. -/
structure DeliveryPass where
  left : ℕ
  window : Window
  stage : PassStage

/-- A binding and the passes for it. What was sent to the plugin, and what it has acknowledged of
it, is kept. -/
structure Deliveries where
  log : EventLog
  binding : EventBinding
  passes : ℕ → Option DeliveryPass := fun _ => none
  sent : List (List MediaEvent) := []
  answered : List (List MediaEvent × ℤ) := []

namespace Deliveries

def start (log : EventLog) (mediaSessionId : String) : Deliveries where
  log := log
  binding := { mediaSessionId }

variable (d : Deliveries)

def setPass (id : ℕ) (pass : Option DeliveryPass) : Deliveries :=
  { d with passes := Function.update d.passes id pass }

def readWindow (cfg : DeliveryConfig) (id left : ℕ) (cursor : ℤ) : Deliveries :=
  match left with
  | 0 => d.setPass id none
  | left + 1 =>
    d.setPass id ((d.log.window cfg cursor).map fun window => ⟨left, window, .advancing⟩)

def setBinding (binding : EventBinding) : Deliveries := { d with binding }

def setSession (session : Option OpenSession) : Deliveries :=
  d.setBinding { d.binding with session }

end Deliveries

inductive DeliveryLabel where
  | append
  | opened (scope : String)
  | loaded (scope : String)
  | reopened (scope : String)
  | closed
  | begun (id maxBatches : ℕ)
  | advanced (id : ℕ)
  | requested (id requestId : ℕ)
  | answered (id : ℕ) (value : JsonValue)
  | passedOver (id : ℕ)
  | stored (id : ℕ)
  | givenUp (id : ℕ)
  | crashed

inductive Overlaps (cfg : DeliveryConfig) : Deliveries → DeliveryLabel → Deliveries → Prop
  | append {d : Deliveries} {log' : EventLog} (h : d.log.Extends log') :
    Overlaps cfg d .append { d with log := log' }
  | opened {d : Deliveries} (scope : String) :
    Overlaps cfg d (.opened scope) (d.setSession (some ⟨scope, 0⟩))
  | loaded {d : Deliveries} (scope : String) :
    Overlaps cfg d (.loaded scope)
      (d.setSession (some ⟨scope, d.binding.lastAcknowledgedSequence⟩))
  | reopened {d : Deliveries} (scope : String) :
    Overlaps cfg d (.reopened scope)
      (d.setSession (d.binding.session.map fun session => { session with scope }))
  | closed {d : Deliveries} : Overlaps cfg d .closed (d.setSession none)
  | begun {d : Deliveries} {id : ℕ} (maxBatches : ℕ) (hfree : d.passes id = none) :
    Overlaps cfg d (.begun id maxBatches)
      (d.readWindow cfg id maxBatches d.binding.lastAcknowledgedSequence)
  | advanced {d : Deliveries} {id left : ℕ} {w : Window}
      (hpass : d.passes id = some ⟨left, w, .advancing⟩) :
    Overlaps cfg d (.advanced id)
      ((d.setBinding (d.binding.advanceDelivery (w.through cfg))).setPass id
        (some ⟨left, w, .answering⟩))
  -- The request is sent to a plugin that is ready, if nothing keeps it from being sent.
  | requested {d : Deliveries} {id left : ℕ} {w : Window} {session : OpenSession} (requestId : ℕ)
      (hpass : d.passes id = some ⟨left, w, .answering⟩) (hevents : w.events cfg ≠ [])
      (hsession : d.binding.session = some session)
      (hsend : sendError (batchMessage requestId d.binding.mediaSessionId session.scope
        (w.events cfg)) = none) :
    Overlaps cfg d (.requested id requestId)
      ({ d with sent := w.events cfg :: d.sent }.setPass id (some ⟨left, w, .requested session⟩))
  | answered {d : Deliveries} {id left : ℕ} {w : Window} {session : OpenSession}
      {value : JsonValue} {acknowledged maximum : ℤ}
      (hpass : d.passes id = some ⟨left, w, .requested session⟩)
      (hvalue : acknowledgement? value = some acknowledged)
      (hmaximum : ((w.events cfg).map fun e => e.sequence).max? = some maximum)
      (hrange : session.lastAcknowledgedSequence ≤ acknowledged ∧ acknowledged ≤ maximum) :
    Overlaps cfg d (.answered id value)
      ({ d.setBinding (d.binding.hold session acknowledged) with
          answered := (w.events cfg, acknowledged) :: d.answered }.setPass id
        (some ⟨left, w, .storing acknowledged⟩))
  | passedOver {d : Deliveries} {id left : ℕ} {w : Window} {acknowledged : ℤ} {b : EventBinding}
      (hpass : d.passes id = some ⟨left, w, .answering⟩) (hevents : w.events cfg = [])
      (hheld : d.binding.acknowledgeThrough (w.through cfg) = .ok (acknowledged, b)) :
    Overlaps cfg d (.passedOver id)
      ((d.setBinding b).setPass id (some ⟨left, w, .storing acknowledged⟩))
  | stored {d : Deliveries} {id left : ℕ} {w : Window} {acknowledged : ℤ} {b : EventBinding}
      (hpass : d.passes id = some ⟨left, w, .storing acknowledged⟩)
      (hstored : d.binding.acknowledgeBinding acknowledged = .ok b) :
    Overlaps cfg d (.stored id)
      (match nextCursor cfg w.raw w.lastRaw w.cursor acknowledged with
        | none => (d.setBinding b).setPass id none
        | some cursor => (d.setBinding b).readWindow cfg id left cursor)
  -- A pass ends with whatever is raised in it.
  | givenUp {d : Deliveries} (id : ℕ) : Overlaps cfg d (.givenUp id) (d.setPass id none)
  | crashed {d : Deliveries} :
    Overlaps cfg d .crashed { d.setSession none with passes := fun _ => none }

end Plugins
end Matinier
