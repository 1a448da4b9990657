import Matinier.Foundation.Machine
import Matinier.Plugins.Framing

/-!
# The JSON-RPC peer of the host

Requests of the host wait in a table for their responses, requests of the plugin run in tasks of
their own, and one reader dispatches what arrives. What one of them does up to where it waits is
one step here. The peer is closed by the end of its reader, or by a call of `aclose`, each of
whose steps may raise; calls are told apart by their place in a list.
-/

namespace Matinier
namespace Plugins

open JsonText

def Envelope.id? : Envelope → Option RpcId
  | .request id _ _ => some id
  | .notification _ _ => none
  | .result id _ => some id
  | .error id _ _ _ => id

inductive CallFuture where
  | pending
  | answered (response : Envelope)
  | failed
  | cancelled

/-- Where a call of `request` is: its message is sent, it waits, it has given up and tells the
other side, or it has ended. -/
inductive CallStage where
  | sending
  | waiting
  | cancelling
  | ended
  deriving DecidableEq, Repr

/-- A request of the host, with every response its future was settled with. -/
structure OutgoingCall where
  id : RpcId
  future : CallFuture := .pending
  stage : CallStage := .sending
  registered : Bool := true
  responses : List Envelope := []

def CallFuture.isPending : CallFuture → Bool
  | .pending => true
  | _ => false

namespace OutgoingCall

variable (c : OutgoingCall)

/-- Somebody waits for the call and nothing has come of it. -/
def isPending : Bool := c.future.isPending && c.stage ≠ .ended

def ended : OutgoingCall := { c with stage := .ended, registered := false }

/-- Settle the future with a response, unless it is settled. -/
def accept (response : Envelope) : OutgoingCall :=
  if c.future.isPending then
    { c with future := .answered response, responses := c.responses ++ [response] }
  else c

def giveUp : OutgoingCall :=
  { c with future := if c.future.isPending then .cancelled else c.future, stage := .cancelling }

/-- Fail the future of a call in the table, and take the call out of it. -/
def failPending : OutgoingCall :=
  if c.registered then
    { c with future := if c.future.isPending then .failed else c.future, registered := false }
  else c

end OutgoingCall

inductive HandlerOutcome where
  | returned (value : JsonDocument)
  | publicError (code message : String) (data : Option JsonDict)
  | failed

/-- Where the task of a request is: its handler runs, an answer waits for its turn to be written,
one is written and drained, or the task has ended. An error is sent in place of a result whose
sending raises. -/
inductive TaskStage where
  | running
  | queued (answer : Envelope) (isResult : Bool)
  | draining (isResult : Bool)
  | ended

/-- A request of the plugin, with every answer to it that was written. -/
structure InboundTask where
  id : RpcId
  stage : TaskStage := .running
  answers : List Envelope := []
  cancelRequested : Bool := false
  cancelled : Bool := false
  registered : Bool := true

def TaskStage.isEnded : TaskStage → Bool
  | .ended => true
  | _ => false

def TaskStage.isResult : TaskStage → Bool
  | .queued _ isResult => isResult
  | .draining isResult => isResult
  | _ => false

def HostMessage.Sent (m : HostMessage) : Prop := m.Checked ∧ Sendable m.envelope.toJson

instance (m : HostMessage) : Decidable m.Sent := inferInstanceAs (Decidable (_ ∧ _))

def publicError? (code message : String) (data : Option JsonDict) : Option PublicError :=
  if h : code ∈ publicErrorCodes ∧ 1 ≤ message.length ∧ message.length ≤ 512 then
    some ⟨code, message, data, h.1, h.2.1, h.2.2⟩
  else none

/-- An error answer, where it can be made up and sent. -/
def errorAnswer (id : RpcId) (code message : String) (data : Option JsonDict) :
    Option Envelope := do
  let reason ← publicError? code message data
  if (HostMessage.error id reason).Sent then some (HostMessage.error id reason).envelope else none

def handlerFailed (id : RpcId) : Option Envelope :=
  errorAnswer id "plugin.capability.failed" "handler failed" none

/-- What a request is answered with, and whether that is its result. -/
def answerTo (id : RpcId) : HandlerOutcome → Option (Envelope × Bool)
  | .returned value =>
    if (HostMessage.result id value).Sent then
      some ((HostMessage.result id value).envelope, true)
    else (handlerFailed id).map (·, false)
  | .publicError code message data => (errorAnswer id code message data).map (·, false)
  | .failed => (handlerFailed id).map (·, false)

namespace InboundTask

variable (t : InboundTask)

/-- Queue an answer if there is one and the peer is available; otherwise the task ends. -/
def answerWith (available : Bool) (answer : Option (Envelope × Bool)) : InboundTask :=
  match answer with
  | some (answer, isResult) =>
    if available then { t with stage := .queued answer isResult } else { t with stage := .ended }
  | none => { t with stage := .ended }

/-- What a sending that raises leads to. -/
def sendRaised (available isResult : Bool) : InboundTask :=
  if isResult then t.answerWith available ((handlerFailed t.id).map (·, false))
  else { t with stage := .ended }

/-- Cancel a task in the table, and take it out of it. -/
def cancelInbound : InboundTask :=
  if t.registered then { t with cancelRequested := true, registered := false } else t

end InboundTask

/-- The reader waits for a line, or sends an error of its own; it may be about to fail. -/
inductive Reading where
  | reading
  | answering
  | failing
  | ended
  deriving DecidableEq, Repr

inductive Closer where
  | waitingClosed
  | stoppingReader
  | waitingReader
  | returned
  | raised
  deriving DecidableEq, Repr

def Closer.isEnded : Closer → Bool
  | .returned | .raised => true
  | _ => false

structure PeerConfig where
  maxPendingRequests : ℕ := 128
  handlers : List String

structure Peer where
  calls : List OutgoingCall := []
  nextRequest : ℕ := 1
  inbound : List InboundTask := []
  reading : Reading := .reading
  closers : List Closer := []
  closing : Bool := false
  closed : Bool := false

/-- What may happen. A flag says whether what is waited for raises, or closing the writer does. -/
inductive PeerAction where
  | request (method : String) (params : JsonDict)
  | sendEnded (call : ℕ) (raised : Bool)
  | resumed (call : ℕ)
  | gaveUp (call : ℕ)
  | cancelEnded (call : ℕ)
  | line (message : Envelope)
  | refusalEnded (raised : Bool)
  | readEnded (closeRaises : Bool)
  | handlerEnded (task : ℕ) (outcome : HandlerOutcome)
  | writeEnded (task : ℕ) (raised : Bool)
  | drainEnded (task : ℕ) (raised : Bool)
  | taskCancelled (task : ℕ)
  | taskDone (task : ℕ)
  | aclose (closeRaises : Bool)
  | closedEnded (closer : ℕ) (raised : Bool)
  | readerAwaited (closer : ℕ) (raised : Bool)

namespace Peer

variable (s : Peer)

def available : Bool := !s.closed && !s.closing

def pendingCount : ℕ := s.calls.countP OutgoingCall.registered

def setCall (i : ℕ) (c : OutgoingCall) : Peer := { s with calls := s.calls.set i c }

def setTask (i : ℕ) (t : InboundTask) : Peer := { s with inbound := s.inbound.set i t }

def setCloser (i : ℕ) (c : Closer) : Peer := { s with closers := s.closers.set i c }

/-- Cancel what runs for the plugin and fail what waits for it. -/
def settle : Peer :=
  { s with
    calls := s.calls.map OutgoingCall.failPending
    inbound := s.inbound.map InboundTask.cancelInbound }

/-- Start a request; one that is not valid has used up its identifier. -/
def requestStep (cfg : PeerConfig) (method : String) (params : JsonDict) : Option Peer :=
  if s.available = true ∧ s.pendingCount < cfg.maxPendingRequests then
    let message := HostMessage.request s.nextRequest method params
    if message.Checked then
      let call := { id := .str ("host-" ++ toString s.nextRequest) : OutgoingCall }
      some { s with
        nextRequest := s.nextRequest + 1
        calls := s.calls ++ [if Sendable message.envelope.toJson then call else call.ended] }
    else some { s with nextRequest := s.nextRequest + 1 }
  else none

def sendEndedStep (call : ℕ) (raised : Bool) : Option Peer := do
  let c ← s.calls[call]?
  if c.stage = .sending then
    some (s.setCall call (if raised then c.ended else { c with stage := .waiting }))
  else none

def resumedStep (call : ℕ) : Option Peer := do
  let c ← s.calls[call]?
  if c.stage = .waiting ∧ c.future.isPending = false then some (s.setCall call c.ended) else none

def gaveUpStep (call : ℕ) : Option Peer := do
  let c ← s.calls[call]?
  if c.stage = .waiting then some (s.setCall call c.giveUp) else none

def cancelEndedStep (call : ℕ) : Option Peer := do
  let c ← s.calls[call]?
  if c.stage = .cancelling then some (s.setCall call c.ended) else none

/-- The reader refuses a request with an error of its own. -/
def refuse : Peer := { s with reading := if s.available then .answering else .failing }

def acceptRequest (cfg : PeerConfig) (id : RpcId) (method : String) : Peer :=
  if s.inbound.any (fun t => t.registered && t.id = id) then s.refuse
  else if method ∈ cfg.handlers then { s with inbound := s.inbound ++ [{ id := id }] }
  else s.refuse

def acceptNotification (method : String) (params : JsonEntries) : Peer :=
  if method = "rpc.cancel" then
    match (JsonValue.lookup "id" params).bind rpcId? with
    | some id => { s with inbound := s.inbound.map fun t =>
        if t.registered && t.id = id then { t with cancelRequested := true } else t }
    | none => s
  else s

def acceptResponse (id : Option RpcId) (response : Envelope) : Peer :=
  match id with
  | some id => { s with calls := s.calls.map fun c =>
      if c.registered && c.id = id then c.accept response else c }
  | none => s

def lineStep (cfg : PeerConfig) (message : Envelope) : Option Peer :=
  if s.reading = .reading then
    match message with
    | .request id method _ => some (s.acceptRequest cfg id method)
    | .notification method params => some (s.acceptNotification method params)
    | .result id _ => some (s.acceptResponse (some id) message)
    | .error id _ _ _ => some (s.acceptResponse id message)
  else none

def refusalEndedStep (raised : Bool) : Option Peer :=
  if s.reading = .answering then
    some { s with reading := if raised then .failing else .reading }
  else none

/-- The reader ends: with the transport, with an error or cancelled. Unless the peer is being
closed it closes the writer and settles everything. -/
def readEndedStep (closeRaises : Bool) : Option Peer :=
  if s.reading = .ended then none
  else
    let ended := { s with reading := .ended }
    if s.closing then some ended
    else if closeRaises then some { ended with closed := true }
    else some ({ ended with closed := true } : Peer).settle

def handlerEndedStep (task : ℕ) (outcome : HandlerOutcome) : Option Peer := do
  let t ← s.inbound[task]?
  match t.stage with
  | .running => some (s.setTask task (t.answerWith s.available (answerTo t.id outcome)))
  | _ => none

def writeEndedStep (task : ℕ) (raised : Bool) : Option Peer := do
  let t ← s.inbound[task]?
  match t.stage with
  | .queued answer isResult =>
    some (s.setTask task (if raised then t.sendRaised s.available isResult
      else { t with stage := .draining isResult, answers := t.answers ++ [answer] }))
  | _ => none

def drainEndedStep (task : ℕ) (raised : Bool) : Option Peer := do
  let t ← s.inbound[task]?
  match t.stage with
  | .draining isResult =>
    some (s.setTask task (if raised then t.sendRaised s.available isResult
      else { t with stage := .ended }))
  | _ => none

def taskCancelledStep (task : ℕ) : Option Peer := do
  let t ← s.inbound[task]?
  if t.cancelRequested = true ∧ t.stage.isEnded = false then
    some (s.setTask task { t with stage := .ended, cancelled := true })
  else none

def taskDoneStep (task : ℕ) : Option Peer := do
  let t ← s.inbound[task]?
  if t.stage.isEnded = true then some (s.setTask task { t with registered := false }) else none

/-- A first call of `aclose` closes the writer and waits for that; another one waits for the
reader, if it has not ended. -/
def acloseStep (closeRaises : Bool) : Option Peer :=
  if s.closing then
    let closer := if s.reading = .ended then Closer.returned else .waitingReader
    some { s with closers := s.closers ++ [closer] }
  else if closeRaises then
    some { s with closing := true, closed := true, closers := s.closers ++ [.raised] }
  else some { s with closing := true, closers := s.closers ++ [.waitingClosed] }

def closedEndedStep (closer : ℕ) (raised : Bool) : Option Peer := do
  let c ← s.closers[closer]?
  if c = .waitingClosed then
    if raised then some ({ s with closed := true }.setCloser closer .raised)
    else if s.reading = .ended then
      some ({ s with closed := true }.settle.setCloser closer .returned)
    else some (s.setCloser closer .stoppingReader)
  else none

def readerAwaitedStep (closer : ℕ) (raised : Bool) : Option Peer := do
  let c ← s.closers[closer]?
  if c = .stoppingReader then
    if raised then some ({ s with closed := true }.setCloser closer .raised)
    else if s.reading = .ended then
      some ({ s with closed := true }.settle.setCloser closer .returned)
    else none
  else if c = .waitingReader then
    if raised then some (s.setCloser closer .raised)
    else if s.reading = .ended then some (s.setCloser closer .returned)
    else none
  else none

def next (cfg : PeerConfig) (s : Peer) : PeerAction → Option Peer
  | .request method params => s.requestStep cfg method params
  | .sendEnded call raised => s.sendEndedStep call raised
  | .resumed call => s.resumedStep call
  | .gaveUp call => s.gaveUpStep call
  | .cancelEnded call => s.cancelEndedStep call
  | .line message => s.lineStep cfg message
  | .refusalEnded raised => s.refusalEndedStep raised
  | .readEnded closeRaises => s.readEndedStep closeRaises
  | .handlerEnded task outcome => s.handlerEndedStep task outcome
  | .writeEnded task raised => s.writeEndedStep task raised
  | .drainEnded task raised => s.drainEndedStep task raised
  | .taskCancelled task => s.taskCancelledStep task
  | .taskDone task => s.taskDoneStep task
  | .aclose closeRaises => s.acloseStep closeRaises
  | .closedEnded closer raised => s.closedEndedStep closer raised
  | .readerAwaited closer raised => s.readerAwaitedStep closer raised

end Peer

abbrev PeerSteps (cfg : PeerConfig) (s : Peer) (a : PeerAction) (t : Peer) : Prop :=
  s.next cfg a = some t

end Plugins
end Matinier
