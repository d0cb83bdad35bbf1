import Tydomio.Mcp.Model.Server

/-!
# The program

`run` of `mcp_server/server.py`: one cache, kept by a `Sync` and read by the
tools of the server. The routine of the `Sync` is a connection routine of the
client, and its handlers are subscribed to the pushes.

The read loop reads a message once, for the requests that are pending and for
the routine and the handlers. A connection that opens starts the routine, and
its task group ends once the routine has ended. How the sends of the routine
go is for the environment to choose.
-/

namespace Tydomio

open Common Protocol Client

namespace Mcp

/-- **The program**: the server, and what keeps its cache. -/
structure RunState where
  server : ServerState
  sync : SyncState
  /-- The connection that the last routine was started on, as an observer
  records it. -/
  connection : Option ℕ

/-- What can happen next. -/
inductive RunEvent where
  /-- A connection opens: the routine is started on it. -/
  | opened (w : ℕ)
  /-- The read loop reads a push: a task is started for its handler. -/
  | readPush (push : TydomRequest)
  /-- It reads a response. -/
  | readResponse (response : Response)
  /-- A step of the routine, of a handler or of what they wait for. -/
  | sync (event : SyncEvent)
  /-- A step of the server. -/
  | server (event : ServerEvent)

/-- The steps that the client has no part in. -/
def SyncEvent.isOwn : SyncEvent → Bool
  | connect | readPush _ | readResponse _ => false
  | _ => true

/-- No routine was started yet, or it has ended and the handlers with it. -/
def SyncState.stopped (s : SyncState) : Bool :=
  !s.live && s.queue.isEmpty && (s.phase = .idle || s.phase = .ended)

/-- The steps of the server that are its own: its cache is written by the
`Sync`, and its client shares the connection and the read loop with it. -/
def RunState.allows (s : RunState) : ServerEvent → Bool
  | .cacheChanges _ | .client (.opened _) | .client .taskStarts
  | .client (.send (.readResponse _)) => false
  -- a task group ends with the last of its tasks
  | .client .groupEnds => s.sync.stopped
  | _ => true

section Program

variable (codec : Codec) (cmdPrefix : Bytes) (first : ℤ) (sameLetter : Char → Char → Bool)
variable (secrets : Secrets) (mode : WritesMode)

/-- A step of the `Sync` and one of the server, together. -/
def RunState.both (s : RunState) (connection : Option ℕ) (syncEvent : SyncEvent)
    (serverEvent : SyncState → ServerEvent) : Option RunState :=
  (syncStep codec s.sync syncEvent).bind fun sync =>
    (serverStep codec cmdPrefix 1 first sameLetter secrets mode s.server (serverEvent sync)).map
      fun server => ⟨server, sync, connection⟩

/-- **One step of the program.** -/
def runStep (s : RunState) : RunEvent → Option RunState
  | .opened w =>
      s.both codec cmdPrefix first sameLetter secrets mode (some w) .connect
        fun _ => .client (.opened w)
  | .readPush push =>
      s.both codec cmdPrefix first sameLetter secrets mode s.connection (.readPush push)
        fun _ => .client .taskStarts
  | .readResponse response =>
      s.both codec cmdPrefix first sameLetter secrets mode s.connection (.readResponse response)
        fun _ => .client (.send (.readResponse response))
  | .sync event =>
      if event.isOwn then
        s.both codec cmdPrefix first sameLetter secrets mode s.connection event
          fun sync => .cacheChanges sync.cache
      else none
  | .server event =>
      if s.allows event then
        (serverStep codec cmdPrefix 1 first sameLetter secrets mode s.server event).map
          fun server => { s with server }
      else none

/-- **The program**, from its start on. -/
def runMachine (rate clock : ℚ) : Machine RunState RunEvent :=
  ⟨⟨.init rate clock, .init, none⟩, runStep codec cmdPrefix first sameLetter secrets mode⟩

end Program

/-- **The step the order of the pushes rests on**, of the routine. -/
def RunState.inOrder (s : RunState) : RunEvent → Bool
  | .sync event => s.sync.inOrder event
  | _ => true

/-- The steps that are in order. -/
abbrev RunInOrder : RunState → RunEvent → Prop := fun s event => s.inOrder event = true

end Mcp

end Tydomio
