import Tydomio.Client.Model.Lifecycle
import Tydomio.Mcp.Model.Sync
import Tydomio.Mcp.Model.View

/-!
# The server

`build_server` of `mcp_server/tools.py` and `run` of `mcp_server/server.py`:
the tools the server lists and serves, over one cache, one `Writes` and the
client whose `send` the writes go through.

A request is made by a task of the server or by a call of a write tool, and
takes the next transaction id. The request made after `n` others has the id
`first + n`, and its call of `send` is named `n`. What the cache becomes is
for its own tasks to choose, and so is what happens to the client.
-/

namespace Tydomio

open Common Protocol Client

namespace Mcp

/-! ## Tools -/

/-- `--writes`. -/
inductive WritesMode where
  | none
  | shutters
  | all
  deriving DecidableEq

/-- The name of a write tool. -/
def Tool.name : Tool → String
  | setShutter => "set_shutter"
  | setHeating => "set_heating"

/-- `GET_STATE.name`. -/
def getStateName : String := "get_state"

namespace WritesMode

/-- `Writes.tools`, and no tool where there is no `Writes`. -/
def tools : WritesMode → List Tool
  | none => []
  | shutters => [.setShutter]
  | all => [.setShutter, .setHeating]

/-- `list_tools`: the names of the tools listed. -/
def listTools (mode : WritesMode) : List String := getStateName :: mode.tools.map Tool.name

/-- The write tool that is served under a name. -/
def tool? (mode : WritesMode) (name : String) : Option Tool :=
  mode.tools.find? fun tool => tool.name = name

end WritesMode

/-! ## Requests -/

/-- The requests that the tasks of the server make: the pings of the client,
and those of the bootstraps. -/
inductive OwnRequest where
  | ping
  | sync (request : SyncRequest)

/-- The request itself, with its transaction id. -/
def OwnRequest.toRequest : OwnRequest → ℤ → ClientRequest
  | ping => pingRequest
  | sync request => request.toRequest

/-- A request made. -/
structure Made where
  request : ClientRequest
  /-- The call of a write tool that made it; none for a task of the server. -/
  maker : Option ℕ

/-- The request a call makes where its checks before the count pass. -/
def Writes.makes (writes : Writes) (tool : Tool) (arguments : Dict String JsonValue)
    (transactionId : ℤ) : Option WriteRequest :=
  (tool.parse transactionId arguments).bind fun parsed =>
    (writes.cache.syncedConfig.toOption.bind fun synced =>
      (parsed.2 synced.1 synced.2).toOption).map Prepared.request

/-! ## Calls -/

/-- What a call of another tool is answered. -/
inductive Answer where
  /-- `get_state`: its output, none for `INVALID_INPUT`. -/
  | state (result : Option StateResult)
  /-- `MCPError`: the tool is unknown. -/
  | unknownTool

/-- A call of a write tool as it began, as an observer records it. -/
structure Asked where
  call : ℕ
  tool : Tool
  arguments : Dict String JsonValue
  cache : Cache
  clock : ℚ

/-- **The server**: the requests made, the client, the calls of the write
tools and the answers to the other calls. -/
structure ServerState where
  made : List Made
  client : ClientState
  calls : CallsState
  answers : ℕ → Option Answer
  asked : List Asked

/-- What can happen next. -/
inductive ServerEvent where
  /-- The cache is written by its own tasks. -/
  | cacheChanges (cache : Cache)
  /-- A task of the server makes a request. -/
  | makes (request : OwnRequest)
  /-- A step of the client; a call of a write tool whose send it ends goes
  on in the same step. -/
  | client (event : ClientEvent)
  /-- A tool is called. -/
  | call (call : ℕ) (name : String) (arguments : Dict String JsonValue) (clock : ℚ)
      (sentAt : DateTime)

/-- A call goes on when its send has ended. -/
def endOf (call : ℕ) : Outcome → CallEvent
  | .returned _ => .sendReturns call
  | .raised error => .sendRaises call error

section Server

variable (codec : Codec) (cmdPrefix : Bytes) (routines : ℕ) (first : ℤ)

namespace ServerState

variable (s : ServerState)

/-- The call of a write tool that made a request. -/
def maker? (n : ℕ) : Option ℕ := s.made[n]?.bind Made.maker

/-- The requests by their calls of `send`. -/
def requests (n : ℕ) : ClientRequest := (s.made[n]?.map Made.request).getD (pingRequest (first + n))

/-- The call that made a request goes on where the send of it has ended. -/
def settle (n : ℕ) : ServerState :=
  match s.maker? n, (s.client.send.calls n).outcome? with
  | some call, some outcome =>
      { s with calls := (callsStep s.calls (endOf call outcome)).getD s.calls }
  | _, _ => s

/-- A step of the client. -/
def stepClient (event : ClientEvent) : Option ServerState :=
  (clientStep codec cmdPrefix (s.requests first) routines s.client event).map fun client =>
    match event.call? with
    | some n => { s with client }.settle n
    | none => { s with client }

/-- A task sends what it made itself. -/
def allows : ClientEvent → Bool
  | .send (.start n) => s.made[n]?.any fun made => made.maker.isNone
  | _ => true

/-- A call of a write tool, begun: the request it makes is made. -/
def beginCall (call : ℕ) (tool : Tool) (arguments : Dict String JsonValue) (clock : ℚ)
    (calls : CallsState) : ServerState :=
  { s with
    made := s.made ++
      ((s.calls.writes.makes tool arguments (first + s.made.length)).map fun request =>
        ⟨request.request, some call⟩).toList
    calls
    asked := s.asked ++ [⟨call, tool, arguments, s.calls.writes.cache, clock⟩] }

/-- A call of a write tool, up to its send or to its end. -/
def callWrite (call : ℕ) (tool : Tool) (arguments : Dict String JsonValue) (clock : ℚ)
    (sentAt : DateTime) : Option ServerState :=
  let n := s.made.length
  (callsStep s.calls (.start call tool arguments (first + n) clock sentAt)).bind fun calls =>
    let s' := s.beginCall first call tool arguments clock calls
    match calls.calls call with
    -- nothing suspends between the count and the step of `send`
    | .sending .. => s'.stepClient codec cmdPrefix routines first (.send (.start n))
    | _ => some s'

end ServerState

variable (sameLetter : Char → Char → Bool) (secrets : Secrets) (mode : WritesMode)

/-- `call_tool` for a name that is no write tool's. -/
def otherTool (cache : Cache) (name : String) (arguments : Dict String JsonValue) : Answer :=
  if name = getStateName then
    .state (callGetState sameLetter cache secrets (mode ≠ .none) arguments)
  else .unknownTool

/-- **One step of the server.** -/
def serverStep (s : ServerState) : ServerEvent → Option ServerState
  | .cacheChanges cache =>
      (callsStep s.calls (.cacheChanges cache)).map fun calls => { s with calls }
  | .makes request =>
      some { s with made := s.made ++ [⟨request.toRequest (first + s.made.length), none⟩] }
  | .client event =>
      if s.allows event then s.stepClient codec cmdPrefix routines first event else none
  | .call call name arguments clock sentAt =>
      match s.calls.calls call, s.answers call, mode.tool? name with
      | .idle, none, some tool =>
          s.callWrite codec cmdPrefix routines first call tool arguments clock sentAt
      | .idle, none, none =>
          some { s with
            answers := Function.update s.answers call
              (some (otherTool sameLetter secrets mode s.calls.writes.cache name arguments)) }
      | _, _, _ => none

/-- A server that starts: an empty cache, a client that is not connected. -/
def ServerState.init (rate clock : ℚ) : ServerState :=
  ⟨[], .init, .init .init rate clock, fun _ => none, []⟩

/-- **The server**, with any calls of its tools in any interleaving. -/
def serverMachine (rate clock : ℚ) : Machine ServerState ServerEvent :=
  ⟨.init rate clock, serverStep codec cmdPrefix routines first sameLetter secrets mode⟩

end Server

end Mcp

end Tydomio
