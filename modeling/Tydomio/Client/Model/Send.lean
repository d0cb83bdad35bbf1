import Tydomio.Client.Model.Pending
import Tydomio.Common.Machine
import Tydomio.Protocol.Model.Request

/-!
# Sending

`AsyncTydomClient.send`, as the steps its calls take between two
suspensions, and what other tasks do meanwhile. A call is suspended at the
write on the websocket or at the wait for its future; a cancellation or a
timeout reaches it at its next step, so one that waits is `interrupted`
until then. A call is named by a number, and `requests` gives its request.

The history is what an observer of the run writes down. No step reads it.
-/

namespace Tydomio

open Common Protocol

namespace Client

/-- What a send ends with. -/
inductive Outcome where
  | returned (parsed : ParsedResponse)
  | raised (error : Exc)
  deriving DecidableEq

/-- **Where a call of `send` is**, with the future it registered. -/
inductive Call where
  | idle
  /-- Suspended in `websocket.send`. -/
  | writing (f : ℕ)
  /-- Suspended at the future. -/
  | waiting (f : ℕ)
  /-- Suspended at the future, the error that ends the wait on its way. -/
  | interrupted (f : ℕ) (error : Exc)
  /-- Ended before it registered a future. -/
  | refused (error : Exc)
  /-- Ended in its write. -/
  | unwritten (f : ℕ) (error : Exc)
  /-- Ended at the future. -/
  | ended (f : ℕ) (outcome : Outcome)
  deriving DecidableEq

namespace Call

/-- The future the call registered. -/
def future? : Call → Option ℕ
  | idle | refused _ => none
  | writing f | waiting f | interrupted f _ | unwritten f _ | ended f _ => some f

/-- The same, until the call ends. -/
def active? : Call → Option ℕ
  | writing f | waiting f | interrupted f _ => some f
  | _ => none

/-- The future the call is suspended at. -/
def awaits? : Call → Option ℕ
  | waiting f | interrupted f _ => some f
  | _ => none

/-- What the call ended with. -/
def outcome? : Call → Option Outcome
  | refused error | unwritten _ error => some (.raised error)
  | ended _ outcome => some outcome
  | _ => none

end Call

/-- **What happened**, as an observer records it. -/
structure History where
  /-- The requests put on the wire: the call, and the connection it wrote
  to. -/
  wire : List (ℕ × ℕ)
  /-- The responses read. -/
  read : List Response
  /-- How many responses had been read when a future was made. -/
  madeAt : ℕ → ℕ
  /-- Which response completed a future. -/
  takenAt : ℕ → Option ℕ

/-- What `send` and the tasks around it share. -/
structure SendState where
  pending : PendingRequests
  /-- `_websocket`: the connection it belongs to. -/
  websocket : Option ℕ
  calls : ℕ → Call
  history : History

/-- What can happen next. A cancellation of a call suspended in its write
is the write raising it. -/
inductive SendEvent where
  /-- The call runs to its first suspension. -/
  | start (c : ℕ)
  /-- `websocket.send` returned. -/
  | written (c : ℕ)
  /-- `websocket.send` raised. -/
  | writeRaises (c : ℕ) (error : Exc)
  /-- The call resumes at its future. -/
  | resume (c : ℕ)
  /-- The task of the call is cancelled. -/
  | cancel (c : ℕ)
  /-- The timeout of the call expires. -/
  | timeout (c : ℕ)
  /-- The read loop reads a response. -/
  | readResponse (response : Response)
  /-- The connection is lost. -/
  | flush (error : Exc)
  /-- `_websocket` is set, to a connection or to `None`. -/
  | setWebsocket (websocket : Option ℕ)
  deriving DecidableEq

/-- The call that moves. -/
def SendEvent.call? : SendEvent → Option ℕ
  | start c | written c | writeRaises c _ | resume c | cancel c | timeout c => some c
  | readResponse _ | flush _ | setWebsocket _ => none

/-- `except ConnectionClosed`, around the write. -/
def writeError (e : Exc) : Exc :=
  if e = .connectionClosed then .communicationError "Connection closed" else e

/-- `except TimeoutError`, around the wait. -/
def waitError (e : Exc) : Exc :=
  if e = .timeoutError then .communicationError "Request timeout" else e

section Send

variable (codec : Codec) (cmdPrefix : Bytes) (requests : ℕ → ClientRequest)

/-- The transaction id of a call's request. -/
def idOf (c : ℕ) : Option ℤ := (requests c).request.transactionId

namespace SendState

variable (s : SendState)

/-- The state with a call moved. -/
def setCall (c : ℕ) (call : Call) : SendState := { s with calls := Function.update s.calls c call }

/-- The refusal of a call, before it registers anything. -/
def refuse (c : ℕ) (error : Exc) : SendState := s.setCall c (.refused error)

/-- A future registered under a transaction id. -/
def register (id : ℤ) : SendState :=
  { s with
    pending := s.pending.register id
    history := { s.history with
      madeAt := Function.update s.history.madeAt s.pending.next s.history.read.length } }

/-- The `finally` of `send`. -/
def abandon (c f : ℕ) : SendState :=
  match idOf requests c with
  | none => s
  | some id => { s with pending := s.pending.abandon id f }

/-- The request of a call handed to a connection. -/
def putOnWire (c w : ℕ) : SendState :=
  { s with history := { s.history with wire := s.history.wire ++ [(c, w)] } }

/-- `send` up to its write, which raises at once where the request has no
bytes. -/
def start (c : ℕ) : SendState :=
  match idOf requests c with
  | none => s.refuse c (.tydomIoError "The request needs a unique transaction id")
  | some id =>
      if s.pending.contains id then
        s.refuse c (.tydomIoError "The request needs a unique transaction id")
      else
        match s.websocket with
        | none => s.refuse c (.communicationError "Not connected")
        | some w =>
            let f := s.pending.next
            match (requests c).request.toBytes cmdPrefix with
            -- raised inside the `try`: the `finally` drops the future
            | .error e => ((s.register id).setCall c (.unwritten f e)).abandon requests c f
            | .ok _ => ((s.register id).setCall c (.writing f)).putOnWire c w

/-- What a call that resumes at its future ends with, `none` while it has
nothing to resume with. -/
def outcomeOf (c : ℕ) : Option Outcome :=
  match s.calls c with
  | .waiting f =>
      match s.pending.store f with
      | .waiting => none
      | .result response =>
          match (requests c).parseResponse codec response with
          | .ok parsed => some (.returned parsed)
          | .error e => some (.raised (waitError e))
      | .exception e => some (.raised (waitError e))
      | .cancelled => some (.raised .cancelledError)
  -- what the future holds is not looked at any more
  | .interrupted _ e => some (.raised (waitError e))
  | _ => none

/-- A call that awaits its future is interrupted: the future is cancelled
with it. -/
def interrupt (c f : ℕ) (error : Exc) : SendState :=
  { s.setCall c (.interrupted f error) with pending := s.pending.cancel f }

/-- A response read: what `resolve` does, nothing where it raises. -/
def readResponse (response : Response) : SendState :=
  match s.pending.resolve response with
  | .error _ => { s with history := { s.history with read := s.history.read ++ [response] } }
  | .ok (_, pending) =>
      { s with
        pending
        history := { s.history with
          read := s.history.read ++ [response]
          takenAt := fun f =>
            if pending.store f = s.pending.store f then s.history.takenAt f
            else some s.history.read.length } }

end SendState

/-- **One step of the calls and of the tasks around them.** -/
def sendStep (s : SendState) : SendEvent → Option SendState
  | .start c =>
      match s.calls c with
      | .idle => some (s.start cmdPrefix requests c)
      | _ => none
  | .written c =>
      match s.calls c with
      | .writing f => some (s.setCall c (.waiting f))
      | _ => none
  | .writeRaises c e =>
      match s.calls c with
      | .writing f => some ((s.setCall c (.unwritten f (writeError e))).abandon requests c f)
      | _ => none
  | .resume c =>
      match (s.calls c).awaits?, s.outcomeOf codec requests c with
      | some f, some outcome => some ((s.setCall c (.ended f outcome)).abandon requests c f)
      | _, _ => none
  | .cancel c =>
      match s.calls c with
      | .waiting f | .interrupted f _ => some (s.interrupt c f .cancelledError)
      | _ => none
  | .timeout c =>
      match s.calls c with
      | .waiting f => some (s.interrupt c f .timeoutError)
      | _ => none
  | .readResponse response => some (s.readResponse response)
  | .flush e => some { s with pending := s.pending.flush e }
  | .setWebsocket websocket => some { s with websocket }

/-- No call made, nothing pending, not connected. -/
def SendState.init : SendState :=
  ⟨.init, none, fun _ => .idle, ⟨[], [], fun _ => 0, fun _ => none⟩⟩

/-- **The calls of `send`**, in any interleaving. -/
def sendMachine : Machine SendState SendEvent :=
  ⟨.init, sendStep codec cmdPrefix requests⟩

end Send

end Client

end Tydomio
