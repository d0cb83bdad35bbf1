import Tydomio.Client.Model.Pending
import Tydomio.Protocol.Model.Parse

/-!
# The read loop

`AsyncTydomClient._read_messages`: what one message read from the
websocket does, and the loop over them. Other tasks run between two
messages and may change the registry and the subscriptions; a `Turn` is
one message with what changed before it.
-/

namespace Tydomio

open Common Protocol

namespace Client

/-- The type a subscription asks for. -/
inductive RequestType where
  | tydomRequest
  | putDevicesData
  | putAreasData
  deriving DecidableEq

/-- `isinstance(request, request_type)`. -/
def RequestType.isInstance : RequestType → TydomRequest → Bool
  | tydomRequest, _ => true
  | putDevicesData, .putDevicesData .. => true
  | putAreasData, .putAreasData .. => true
  | _, _ => false

/-- A subscription: its handler and the type it asks for. -/
structure Subscription where
  handler : ℕ
  requestType : RequestType
  deriving DecidableEq

/-- A handler started as a task of the connection, with its request. -/
structure HandlerTask where
  handler : ℕ
  request : TydomRequest
  deriving DecidableEq

/-- What the loop changes. -/
structure ReadState where
  pending : PendingRequests
  /-- The handlers started, oldest first. -/
  tasks : List HandlerTask
  /-- The responses logged as unexpected. -/
  dropped : List Response

/-- The handlers a pushed request starts. -/
def startedBy (subscriptions : List Subscription) (request : TydomRequest) : List HandlerTask :=
  (subscriptions.filter fun s => s.requestType.isInstance request).map fun s =>
    ⟨s.handler, request⟩

/-- What the loop does with a parsed message. -/
def handleMessage (subscriptions : List Subscription) (s : ReadState) :
    Incoming → Except Exc ReadState
  | .tydomRequest request =>
      .ok { s with tasks := s.tasks ++ startedBy subscriptions request }
  -- not a `TydomRequest`: it reaches no subscription
  | .jsonRequest _ => .ok s
  | .response response =>
      match s.pending.resolve response with
      | .error e => .error e
      | .ok (true, pending) => .ok { s with pending }
      | .ok (false, pending) => .ok { s with pending, dropped := s.dropped ++ [response] }

/-- A websocket message. -/
inductive Frame where
  | text (content : String)
  | binary (content : Bytes)

/-- The body of the loop: one message read. -/
def readFrame (codec : Codec) (cmdPrefix : Bytes) (subscriptions : List Subscription)
    (s : ReadState) : Frame → Except Exc ReadState
  | .text _ => .error (.communicationError "Unexpected text message from Tydom")
  | .binary message =>
      match parseMessage codec message cmdPrefix with
      | .ok parsed => handleMessage subscriptions s parsed
      -- a malformed message is logged, and the loop goes on
      | .error e => if e.isInvalidMessage then .ok s else .error e

/-- One message, with what other tasks did to the registry before it and
the subscriptions it finds. -/
structure Turn where
  before : PendingRequests → PendingRequests
  subscriptions : List Subscription
  frame : Frame

/-- `_read_messages` over the messages read until the connection closes:
the exception it ends with. -/
def readMessages (codec : Codec) (cmdPrefix : Bytes) (s : ReadState) : List Turn → Exc
  | [] => .communicationError "Connection closed"
  | turn :: turns =>
      match readFrame codec cmdPrefix turn.subscriptions
        { s with pending := turn.before s.pending } turn.frame with
      | .ok s' => readMessages codec cmdPrefix s' turns
      | .error e => e

end Client

end Tydomio
