import Tydomio.Common.Dict
import Tydomio.Common.Machine
import Tydomio.Capture.Model.Json
import Tydomio.Protocol.Model.Message

/-!
# Fetching the captured endpoints

`Fetcher` of `capture/fetch.py`, as a machine: one step from a connection,
or from the end of the request that is awaited, to the next request or to
the end of the pass. Each connection makes one pass, and the one before it
has ended by then. What a request ends with is the label, so responses,
timeouts, lost connections, other exceptions and cancellations come in any
order.
-/

namespace Tydomio

open Common

namespace Capture

/-- `Endpoint`: a captured endpoint. -/
structure Endpoint where
  url : String
  fileName : String
  deriving DecidableEq

/-- `ENDPOINTS`. -/
def endpoints : List Endpoint := [
  ⟨"/configs/file", "configs_file.json"⟩,
  ⟨"/devices/meta", "devices_meta.json"⟩,
  ⟨"/devices/cmeta", "devices_cmeta.json"⟩,
  ⟨"/devices/data", "devices_data.json"⟩,
  ⟨"/areas/meta", "areas_meta.json"⟩,
  ⟨"/areas/cmeta", "areas_cmeta.json"⟩,
  ⟨"/areas/data", "areas_data.json"⟩,
  ⟨"/groups/file", "groups_file.json"⟩,
  ⟨"/scenarios/file", "scenarios_file.json"⟩,
  ⟨"/moments/file", "moments_file.json"⟩,
  ⟨"/protocols", "protocols.json"⟩,
  ⟨"/info", "info.json"⟩]

/-- `Outcome`. -/
inductive Outcome where
  | ok
  | httpError
  | notJson
  | timeout
  | communicationError
  | notFetched
  deriving DecidableEq

/-- `EndpointResult`. The body is `null` where the source has none: both are
`None`. -/
structure EndpointResult where
  endpoint : Endpoint
  outcome : Outcome
  status : Option ℤ
  body : JsonValue
  bodyLength : Option ℕ

/-- How a request ends. -/
inductive SendEnd where
  | response (response : Protocol.Response)
  /-- An exception, a cancellation included, and whether its cause is a
  `TimeoutError`. -/
  | raised (e : Exc) (timeoutCause : Bool)

/-- `_fetch`, once its request has ended. -/
def fetch (parser : StrictParser) (endpoint : Endpoint) : SendEnd → Except Exc EndpointResult
  | .raised e timeoutCause =>
      if e.isCommunication then
        .ok ⟨endpoint, if timeoutCause then .timeout else .communicationError, none, .null, none⟩
      else .error e
  | .response response =>
      let content := response.content.getD []
      let result (outcome : Outcome) (body : JsonValue) : EndpointResult :=
        ⟨endpoint, if response.status ≠ 200 then .httpError else outcome, some response.status,
          body, some content.length⟩
      match parseJson parser content with
      | .ok body => .ok (result .ok body)
      | .error (.notJson _) => .ok (result .notJson .null)
      | .error (.raised e) => .error e

/-- `Fetcher`. -/
structure Fetcher where
  /-- `_results`. -/
  results : Dict String EndpointResult
  connected : Bool
  /-- `done.is_set()`. -/
  done : Bool

/-- `__init__`. -/
def Fetcher.init : Fetcher := ⟨∅, false, false⟩

/-- The test by which a pass skips an endpoint: its recorded outcome is not
a communication error. -/
def Fetcher.isFinal (fetcher : Fetcher) (endpoint : Endpoint) : Bool :=
  (fetcher.results.get? endpoint.url).any fun previous =>
    previous.outcome ≠ .communicationError

/-- The pass under way: the endpoint whose request is awaited, and those of
the table after it. -/
structure Pass where
  current : Endpoint
  rest : List Endpoint

/-- What a pass does that shows. -/
inductive FetchEvent where
  | requested (endpoint : Endpoint)
  | recorded (result : EndpointResult)
  | setDone

/-- The fetcher and its passes, each with what it has done. -/
structure FetchState where
  fetcher : Fetcher
  pass : Option Pass
  /-- The passes before the last one. -/
  past : List (List FetchEvent)
  /-- The last pass. -/
  events : List FetchEvent

/-- The rest of the loop of `__call__`: the next endpoint without a final
result is requested, or the pass sets `done`. -/
def FetchState.goOn (s : FetchState) (rest : List Endpoint) : FetchState :=
  match rest.dropWhile s.fetcher.isFinal with
  | [] =>
      { s with
        fetcher := { s.fetcher with done := true }
        pass := none
        events := s.events ++ [.setDone] }
  | endpoint :: rest =>
      { s with pass := some ⟨endpoint, rest⟩, events := s.events ++ [.requested endpoint] }

/-- A result recorded. -/
def FetchState.record (s : FetchState) (result : EndpointResult) : FetchState :=
  { s with
    fetcher := { s.fetcher with results := s.fetcher.results.set result.endpoint.url result }
    events := s.events ++ [.recorded result] }

/-- What can happen to a fetcher. -/
inductive FetchLabel where
  /-- A new connection calls it. -/
  | connect
  /-- The awaited request ends. -/
  | ends (sendEnd : SendEnd)

/-- One step. -/
def fetchStep (parser : StrictParser) (s : FetchState) : FetchLabel → Option FetchState
  | .connect =>
      match s.pass with
      | some _ => none
      | none =>
          some (FetchState.goOn
            ⟨{ s.fetcher with connected := true }, none, s.past ++ [s.events], []⟩ endpoints)
  | .ends sendEnd =>
      match s.pass with
      | none => none
      | some pass =>
          match fetch parser pass.current sendEnd with
          | .error _ => some { s with pass := none }
          | .ok result =>
              if result.outcome = .communicationError then
                some { s.record result with pass := none }
              else some ((s.record result).goOn pass.rest)

/-- **The fetcher over its connections.** -/
def fetching (parser : StrictParser) : Machine FetchState FetchLabel :=
  ⟨⟨.init, none, [], []⟩, fetchStep parser⟩

end Capture

end Tydomio
