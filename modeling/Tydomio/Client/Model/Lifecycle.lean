import Tydomio.Client.Model.Send

/-!
# Connections

`AsyncTydomClient.run_websocket` and `_disconnect`, with the calls of
`send` that any task makes meanwhile. An exception that leaves a task
group may be a group of groups: it is kept as the list of the exceptions
in it, which is all `except*` reads. An empty list is no exception.

A step is what happens between two suspensions. The tasks of a connection
are counted; what they raise is for the environment to choose, and so are
the outcomes of the authorization, of the websocket library and of the
connection and disconnection routines. What the library does on a closed
websocket is a hypothesis of the results that need it, and no part of a
step.
-/

namespace Tydomio

open Common Protocol

namespace Client

/-- How a task of the connection ends. -/
inductive TaskEnd where
  | returned
  | cancelled
  | raised (errors : List Exc)
  deriving DecidableEq

/-- **Where `run_websocket` is.** -/
inductive Control where
  /-- Suspended in the authorization provider. -/
  | authorizing
  /-- Suspended in the sleep before a retry. -/
  | pausing
  /-- Suspended in the opening of the websocket. -/
  | opening
  /-- Suspended in the task group: the tasks that run, what those that
  ended raised, and whether `run_websocket` was cancelled. -/
  | connected (tasks : ℕ) (errors : List Exc) (cancelled : Bool)
  /-- Suspended in the closing of the connection's context, with what the
  task group raised. -/
  | leaving (errors : List Exc)
  /-- Suspended in the disconnection routines. -/
  | disconnecting (exiting retryAfterPause : Bool)
  /-- Suspended in `websocket.close`. -/
  | closing (exiting retryAfterPause : Bool)
  | returned
  | raised (errors : List Exc)
  deriving DecidableEq

/-- `AsyncTydomClient` while `run_websocket` runs. -/
structure ClientState where
  control : Control
  /-- `_pending_requests` and `_websocket`, with the calls of `send`. -/
  send : SendState
  /-- `_connected`. -/
  connected : Bool
  /-- How many futures had been made when the connection's context closed the
  websocket, as an observer records it. No step reads it. -/
  closedAt : Option ℕ

/-- What can happen next. -/
inductive ClientEvent where
  /-- The authorization provider returns. -/
  | authorized
  /-- It raises `AuthorizationError`. -/
  | unauthorized
  /-- It raises something else, or the task is cancelled in it. -/
  | authorizationRaises (errors : List Exc)
  | pauseEnds
  | pauseRaises (errors : List Exc)
  /-- The websocket opens. -/
  | opened (w : ℕ)
  /-- It does not: a handshake or a network error. -/
  | openFails
  | openRaises (errors : List Exc)
  /-- The read loop starts a push handler. -/
  | taskStarts
  | taskEnds (result : TaskEnd)
  /-- The task of `run_websocket` is cancelled while connected. -/
  | cancelRun
  | groupEnds
  /-- The context of the connection closes. -/
  | exitReturns
  | exitRaises (errors : List Exc)
  /-- The disconnection routines have ended, with what they raised. -/
  | routinesEnd (errors : List Exc)
  | closeReturns
  | closeRaises (errors : List Exc)
  /-- A step of a call of `send`, or of the read loop. -/
  | send (event : SendEvent)
  deriving DecidableEq

/-- The call of `send` that moves. -/
def ClientEvent.call? : ClientEvent → Option ℕ
  | send event => event.call?
  | _ => none

/-- Whether an `except*` clause of `run_websocket` catches an exception. -/
def isHandled (e : Exc) : Bool := e = .cancelledError || e.isCommunication

/-- What `run_websocket` goes on with after `_disconnect`. -/
def nextControl (exiting retryAfterPause : Bool) : Control :=
  if exiting then .returned else if retryAfterPause then .pausing else .authorizing

/-- The steps the tasks take on their own: the connection is lost, made or
forgotten by `run_websocket` only. -/
def isTaskEvent : SendEvent → Bool
  | .flush _ | .setWebsocket _ => false
  | _ => true

namespace ClientState

variable (s : ClientState)

/-- `_disconnect` up to its disconnection routines. -/
def disconnect (exiting retryAfterPause : Bool) : ClientState :=
  { s with
    connected := false
    send := { s.send with
      pending := s.send.pending.flush (.communicationError "Connection lost") }
    control := .disconnecting exiting retryAfterPause }

/-- The end of the `try` statement of `run_websocket`: what no `except*`
clause catches is raised, and `_disconnect` is not called. -/
def leave (errors : List Exc) (retryAfterPause : Bool) : ClientState :=
  let rest := errors.filter fun e => !isHandled e
  if rest = [] then s.disconnect (errors.contains .cancelledError) retryAfterPause
  else { s with control := .raised rest }

/-- `websocket.close()`, or the end of `_disconnect` where there is no
websocket. -/
def close (exiting retryAfterPause : Bool) : ClientState :=
  match s.send.websocket with
  | some _ => { s with control := .closing exiting retryAfterPause }
  | none => { s with control := nextControl exiting retryAfterPause }

/-- `_websocket`, set to a connection or to `None`. -/
def setWebsocket (w : Option ℕ) : ClientState := { s with send := { s.send with websocket := w } }

end ClientState

section Lifecycle

variable (codec : Codec) (cmdPrefix : Bytes) (requests : ℕ → ClientRequest)

/-- A step of a task. -/
def taskStep (s : SendState) (event : SendEvent) : Option SendState :=
  if isTaskEvent event then sendStep codec cmdPrefix requests s event else none

variable (routines : ℕ)

/-- **One step of the client.** The connection starts with the read loop,
the ping and its connection routines. -/
def clientStep (s : ClientState) : ClientEvent → Option ClientState
  | .authorized =>
      match s.control with
      | .authorizing => some { s with control := .opening }
      | _ => none
  | .unauthorized =>
      match s.control with
      | .authorizing => some { s with control := .pausing }
      | _ => none
  | .authorizationRaises errors =>
      match s.control with
      | .authorizing => if errors = [] then none else some { s with control := .raised errors }
      | _ => none
  | .pauseEnds =>
      match s.control with
      | .pausing => some { s with control := .authorizing }
      | _ => none
  | .pauseRaises errors =>
      match s.control with
      | .pausing => if errors = [] then none else some { s with control := .raised errors }
      | _ => none
  | .opened w =>
      match s.control with
      | .opening =>
          some { s.setWebsocket (some w) with
            control := .connected (2 + routines) [] false
            connected := true
            closedAt := none }
      | _ => none
  | .openFails =>
      match s.control with
      -- logged by `_open_websocket`: the cleanup runs as after a connection
      | .opening => some ((s.setWebsocket none).leave [] true)
      | _ => none
  | .openRaises errors =>
      match s.control with
      | .opening => if errors = [] then none else some (s.leave errors false)
      | _ => none
  | .taskStarts =>
      match s.control with
      | .connected (tasks + 1) errors cancelled =>
          some { s with control := .connected (tasks + 2) errors cancelled }
      | _ => none
  | .taskEnds result =>
      match s.control, result with
      | .connected (tasks + 1) errors cancelled, .raised errors' =>
          if errors' = [] then none
          else some { s with control := .connected tasks (errors ++ errors') cancelled }
      | .connected (tasks + 1) errors cancelled, _ =>
          some { s with control := .connected tasks errors cancelled }
      | _, _ => none
  | .cancelRun =>
      match s.control with
      | .connected tasks errors _ => some { s with control := .connected tasks errors true }
      | _ => none
  | .groupEnds =>
      match s.control with
      | .connected 0 errors cancelled =>
          -- the cancellation gives way to the errors of the tasks
          let raised := if errors = [] ∧ cancelled then [.cancelledError] else errors
          some { s with control := .leaving raised }
      | _ => none
  | .exitReturns =>
      match s.control with
      | .leaving errors =>
          some ({ s with closedAt := some s.send.pending.next }.leave errors false)
      | _ => none
  | .exitRaises errors =>
      match s.control with
      -- cancelled while it closes: the websocket may not be closed
      | .leaving _ => if errors = [] then none else some (s.leave errors false)
      | _ => none
  | .routinesEnd errors =>
      match s.control with
      | .disconnecting exiting retryAfterPause =>
          -- `except* RuntimeError` keeps the rest, and the websocket stays open
          let rest := errors.filter fun e => !e.isRuntime
          if rest = [] then some (s.close exiting retryAfterPause)
          else some { s with control := .raised rest }
      | _ => none
  | .closeReturns =>
      match s.control with
      | .closing exiting retryAfterPause =>
          some { s.setWebsocket none with control := nextControl exiting retryAfterPause }
      | _ => none
  | .closeRaises errors =>
      match s.control with
      -- `_websocket` is only set to `None` once `close` has returned
      | .closing _ _ => if errors = [] then none else some { s with control := .raised errors }
      | _ => none
  | .send event =>
      (taskStep codec cmdPrefix requests s.send event).map fun send => { s with send }

/-- A client on which `run_websocket` starts. -/
def ClientState.init : ClientState := ⟨.authorizing, .init, false, none⟩

/-- **A client**, from the call of `run_websocket` on. -/
def clientMachine : Machine ClientState ClientEvent :=
  ⟨.init, clientStep codec cmdPrefix requests routines⟩

end Lifecycle

end Client

end Tydomio
