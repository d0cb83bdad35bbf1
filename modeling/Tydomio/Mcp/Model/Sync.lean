import Tydomio.Common.Machine
import Tydomio.Mcp.Model.Cache
import Tydomio.Protocol.Model.Request

/-!
# Keeping the cache in sync

`mcp_server/sync.py`, with what `AsyncTydomClient` does around it: the read
loop, which starts a handler for each push and completes the future of a
response, and the task group of a connection. A step is what one task does
between two suspensions. The callbacks that are ready run first in, first
out: `queue` holds the handlers and the routine in that order.

What is read, when a write returns and when a wait times out is for the
environment to choose, and so is the end of a connection. The sleep between
two bootstraps suspends. The history is what an observer of the run writes
down. No step of the code reads it.
-/

namespace Tydomio

open Common Protocol

namespace Mcp

/-- The requests of a bootstrap, in their order, and the refresh after
it. -/
inductive SyncRequest where
  | config
  | devices
  | areas
  | refresh
  deriving DecidableEq

namespace SyncRequest

/-- The request itself, with its transaction id. -/
def toRequest : SyncRequest → ℤ → ClientRequest
  | config => getConfigFile
  | devices => getDevicesData
  | areas => getAreasData
  | refresh => refreshAll

/-- The request sent after this one is answered. -/
def next : SyncRequest → Option SyncRequest
  | config => some devices
  | devices => some areas
  | areas => some refresh
  | refresh => none

/-- Whether a push is of the data the request asks for. -/
def concerns : SyncRequest → TydomRequest → Bool
  | devices, .putDevicesData .. => true
  | areas, .putAreasData .. => true
  | _, _ => false

end SyncRequest

/-- `on_devices_push` and `on_areas_push`. -/
def onPush : TydomRequest → Cache → Cache
  | .putDevicesData _ data, cache => cache.mergeDevices data
  | .putAreasData _ data, cache => cache.mergeAreas data

/-- What the routine does with an answer before its next `send`. -/
def onAnswer (now : DateTime) : ParsedResponse → Cache → Cache
  | .config _ config, cache => cache.applyConfig config
  | .devicesData _ data invalid, cache => cache.replaceDevices data invalid
  | .areasData _ data invalid, cache => (cache.replaceAreas data invalid).markSynced now
  | .ok _, cache | .raw _, cache => cache

/-- `BACKOFF`. -/
def backoff : List ℕ := [10, 20, 40, 80, 160, 300]

/-- The seconds slept after a failed bootstrap. -/
def backoffDelay (failures : ℕ) : ℕ :=
  backoff.getD (min failures (backoff.length - 1)) 0

/-- A message the read loop hands on: a push, or a response. -/
inductive Message where
  | push (request : TydomRequest)
  | response (response : Response)
  deriving DecidableEq

/-- The push of a message. -/
def Message.push? : Message → Option TydomRequest
  | push request => some request
  | response _ => none

/-- The pushes among messages. -/
def pushesOf (log : List Message) : List TydomRequest := log.filterMap Message.push?

/-- A response read, with its place among the messages of the
connection. -/
structure ReadResponse where
  place : ℕ
  response : Response
  deriving DecidableEq

/-- **Where the routine of a connection is.** -/
inductive Phase where
  /-- No connection was made yet. -/
  | idle
  /-- Its task is made and has not run. -/
  | starting
  /-- Suspended in the write of a `send`, with the response to it where one
  was read already. -/
  | writing (request : SyncRequest) (id : ℤ) (early : Option ReadResponse)
  /-- The write has returned, the routine is ready. -/
  | written (request : SyncRequest) (id : ℤ) (early : Option ReadResponse)
  /-- Suspended at the future of a `send`. -/
  | waiting (request : SyncRequest) (id : ℤ)
  /-- The future is completed, the routine is ready. -/
  | woken (request : SyncRequest) (id : ℤ) (response : ReadResponse)
  /-- The write raised or the wait timed out, the routine is ready. -/
  | raised (request : SyncRequest) (error : Exc)
  /-- Suspended in the sleep after a failed bootstrap. -/
  | sleeping (delay : ℕ)
  /-- The sleep is over, the routine is ready. -/
  | slept
  /-- Suspended until cancelled. -/
  | parked
  /-- Cancelled, the routine is ready. -/
  | cancelled
  | ended
  deriving DecidableEq

namespace Phase

/-- The routine is ready to run. -/
def isReady : Phase → Bool
  | starting | written .. | woken .. | raised .. | slept | cancelled => true
  | _ => false

/-- The request whose `send` the routine is in. -/
def request? : Phase → Option SyncRequest
  | writing g .. | written g .. | waiting g _ | woken g .. | raised g _ => some g
  | _ => none

/-- The transaction id of that `send` and the response read to it. -/
def response? : Phase → Option (ℤ × ReadResponse)
  | writing _ id (some r) | written _ id (some r) | woken _ id r => some (id, r)
  | _ => none

end Phase

/-- A callback that is ready to run. -/
inductive Ready where
  | handler (push : TydomRequest)
  | routine
  deriving DecidableEq

/-- The push a callback handles. -/
def Ready.push? : Ready → Option TydomRequest
  | handler push => some push
  | routine => none

/-- The pushes handled by ready callbacks. -/
def handlersOf (queue : List Ready) : List TydomRequest := queue.filterMap Ready.push?

/-- **What happened**, as an observer records it. -/
structure SyncHistory where
  /-- The messages read on the current connection. -/
  log : List Message
  /-- The pushes of it handled. -/
  handled : List TydomRequest
  /-- What the last bootstrap was answered: the transaction id of each of
  its requests, and the response. -/
  answered : SyncRequest → Option (ℤ × ReadResponse)
  /-- How many bootstraps completed. -/
  bootstraps : ℕ

/-- The answer to a request is recorded: the one to the last GET completes
the bootstrap. -/
def SyncHistory.record (history : SyncHistory) (request : SyncRequest) (id : ℤ)
    (response : ReadResponse) : SyncHistory :=
  { history with
    answered := Function.update history.answered request (some (id, response))
    bootstraps := if request = .areas then history.bootstraps + 1 else history.bootstraps }

/-- A cache with the routine and the handlers that keep it. -/
structure SyncState where
  cache : Cache
  phase : Phase
  /-- `failures`. -/
  failures : ℕ
  queue : List Ready
  /-- The tasks of a connection run and are not cancelled. -/
  live : Bool
  history : SyncHistory

/-- How a `send` starts: it raises before it suspends, its write suspends,
or its write returns at once. -/
inductive SendStart where
  | refused (error : Exc)
  | suspended (id : ℤ)
  | written (id : ℤ)

/-- What can happen next. -/
inductive SyncEvent where
  /-- A connection is made, once every task of the one before has ended. -/
  | connect
  /-- The read loop reads a push. -/
  | readPush (push : TydomRequest)
  /-- It reads a response. -/
  | readResponse (response : Response)
  | writeReturns
  | writeRaises (error : Exc)
  | timeout
  | sleepReturns
  /-- The connection ends: its tasks are cancelled. -/
  | cancel
  /-- The first ready callback runs, with how the `send` it may make starts
  and what its clock reads. -/
  | run (start : SendStart) (now : DateTime)

namespace SyncState

variable (s : SyncState)

/-- The routine made ready, last. -/
def wake (phase : Phase) : SyncState :=
  { s with phase, queue := s.queue ++ [.routine] }

/-- The `finally` of `routine`. -/
def finish : SyncState := { s with phase := .ended, cache := s.cache.markDisconnected }

/-- A `send` raises: `_bootstrap` and `_refresh` catch a
`CommunicationError`, and only the bootstrap is retried. -/
def fail (request : SyncRequest) (error : Exc) : SyncState :=
  if error.isCommunication then
    if request = .refresh then { s with phase := .parked }
    else { s with phase := .sleeping (backoffDelay s.failures) }
  else s.finish

/-- A `send` starts. -/
def send (request : SyncRequest) : SendStart → SyncState
  | .refused error => s.fail request error
  | .suspended id => { s with phase := .writing request id none }
  | .written id => { s with phase := .waiting request id }

/-- `_bootstrap` up to its first suspension. -/
def bootstrap (start : SendStart) : SyncState :=
  { s with
    cache := s.cache.markConnected
    history := { s.history with answered := fun _ => none } }.send .config start

/-- The routine goes on with the response to its request. -/
def consume (codec : Codec) (request : SyncRequest) (id : ℤ) (response : ReadResponse)
    (start : SendStart) (now : DateTime) : SyncState :=
  match (request.toRequest id).parseResponse codec response.response with
  | .error e => s.fail request e
  | .ok parsed =>
      let s' : SyncState :=
        { s with
          cache := onAnswer now parsed s.cache
          history := s.history.record request id response }
      match request.next with
      | some next => s'.send next start
      | none => { s' with phase := .parked }

/-- The step of the routine. -/
def runRoutine (codec : Codec) (start : SendStart) (now : DateTime) : SyncState :=
  match s.phase with
  | .starting => s.bootstrap start
  | .slept => { s with failures := s.failures + 1 }.bootstrap start
  | .written request id none => { s with phase := .waiting request id }
  | .written request id (some response) => s.consume codec request id response start now
  | .woken request id response => s.consume codec request id response start now
  | .raised request error => s.fail request error
  | .cancelled => s.finish
  | _ => s

/-- The step of a handler. -/
def runHandler (push : TydomRequest) : SyncState :=
  { s with
    cache := onPush push s.cache
    history := { s.history with handled := s.history.handled ++ [push] } }

/-- A message recorded. -/
def logged (message : Message) : SyncState :=
  { s with history := { s.history with log := s.history.log ++ [message] } }

/-- A response completes the future of the `send` the routine is in, where
it carries its transaction id and is the first that does. -/
def readResponse (response : Response) : SyncState :=
  let read : ReadResponse := ⟨s.history.log.length, response⟩
  let s' := s.logged (.response response)
  match s.phase with
  | .waiting request id =>
      if response.transacId = .ok (some id) then s'.wake (.woken request id read) else s'
  | .writing request id none =>
      if response.transacId = .ok (some id) then
        { s' with phase := .writing request id (some read) }
      else s'
  | .written request id none =>
      if response.transacId = .ok (some id) then
        { s' with phase := .written request id (some read) }
      else s'
  | _ => s'

/-- The tasks of the connection are cancelled: a handler that has not run
never does, and a routine that has not run ends without its `finally`. -/
def cancelTasks : SyncState :=
  match s.phase with
  | .idle | .ended => { s with live := false, queue := [] }
  | .starting => { s with phase := .ended, live := false, queue := [] }
  | _ => { s with phase := .cancelled, live := false, queue := [.routine] }

/-- A connection is made: its routine is ready. -/
def connect : SyncState :=
  { s with
    phase := .starting
    failures := 0
    queue := [.routine]
    live := true
    history := { s.history with log := [], handled := [], answered := fun _ => none } }

end SyncState

/-- **One step of the routine, the handlers and the client around them.** -/
def syncStep (codec : Codec) (s : SyncState) : SyncEvent → Option SyncState
  | .connect =>
      if s.live = false ∧ s.queue = [] ∧ (s.phase = .idle ∨ s.phase = .ended) then some s.connect
      else none
  | .readPush push =>
      if s.live then
        some { s.logged (.push push) with queue := s.queue ++ [.handler push] }
      else none
  | .readResponse response => if s.live then some (s.readResponse response) else none
  | .writeReturns =>
      match s.phase with
      | .writing request id early => some (s.wake (.written request id early))
      | _ => none
  | .writeRaises error =>
      match s.phase with
      | .writing request _ _ => some (s.wake (.raised request error))
      | _ => none
  | .timeout =>
      match s.phase with
      | .waiting request _ =>
          some (s.wake (.raised request (.communicationError "Request timeout")))
      | .woken request _ _ =>
          -- the cancellation of the wait overtakes its result
          some { s with phase := .raised request (.communicationError "Request timeout") }
      | _ => none
  | .sleepReturns =>
      match s.phase with
      | .sleeping _ => some (s.wake .slept)
      | _ => none
  | .cancel => if s.live then some s.cancelTasks else none
  | .run start now =>
      match s.queue with
      | [] => none
      | .handler push :: queue => some ({ s with queue }.runHandler push)
      | .routine :: queue => some ({ s with queue }.runRoutine codec start now)

/-- A new cache and no connection made. -/
def SyncState.init : SyncState :=
  ⟨.init, .idle, 0, [], false, ⟨[], [], fun _ => none, 0⟩⟩

/-- **A cache kept in sync** over successive connections. -/
def syncMachine (codec : Codec) : Machine SyncState SyncEvent := ⟨.init, syncStep codec⟩

/-! ## What the cache is to hold -/

/-- The data of the devices pushes. -/
def devicesPushes (pushes : List TydomRequest) : List DevicesData :=
  pushes.filterMap fun
    | .putDevicesData _ data => some data
    | .putAreasData .. => none

/-- The data of the areas pushes. -/
def areasPushes (pushes : List TydomRequest) : List AreasData :=
  pushes.filterMap fun
    | .putDevicesData .. => none
    | .putAreasData _ data => some data

/-- The last bootstrap's request was answered: what its response was parsed
into, and the pushes read after it. -/
def Answered (codec : Codec) (s : SyncState) (request : SyncRequest) (parsed : ParsedResponse)
    (later : List TydomRequest) : Prop :=
  ∃ id place response,
    s.history.answered request = some (id, ⟨place, response⟩) ∧
    s.history.log[place]? = some (.response response) ∧
    response.transacId = .ok (some id) ∧
    (request.toRequest id).parseResponse codec response = .ok parsed ∧
    later = pushesOf (s.history.log.drop (place + 1))

/-- **The cache is that of the last bootstrap and the pushes after it**: its
config, and each snapshot with the pushes read after its response merged in
the order read. -/
structure InSync (codec : Codec) (s : SyncState) (config : Config) : Prop where
  config_eq : ∃ response later, Answered codec s .config (.config response config) later ∧
    s.cache.config = some config
  endpoints_eq : ∃ response data invalid later,
    Answered codec s .devices (.devicesData response data invalid) later ∧
    s.cache.endpoints = (applyAll
      (.applyConfig config :: .replaceDevices data invalid ::
        (devicesPushes later).map .mergeDevices) .init).endpoints
  areas_eq : ∃ response data invalid later,
    Answered codec s .areas (.areasData response data invalid) later ∧
    s.cache.areas = (applyAll
      (.applyConfig config :: .replaceAreas data invalid ::
        (areasPushes later).map .mergeAreas) .init).areas

/-- **The step the order of the pushes rests on.** Where the routine finds
its response read before the step after its write, the pushes of the data
asked for that were handled are those read before the response. -/
def SyncState.inOrder (s : SyncState) : SyncEvent → Bool
  | .run _ _ =>
      match s.phase, s.queue with
      | .written request _ (some read), .routine :: _ =>
          s.history.handled.filter request.concerns =
            (pushesOf (s.history.log.take read.place)).filter request.concerns
      | _, _ => true
  | _ => true

/-- The steps that are in order. -/
abbrev InOrder : SyncState → SyncEvent → Prop := fun s event => s.inOrder event = true

end Mcp

end Tydomio
