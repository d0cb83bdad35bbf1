import Tydomio.Common.Machine
import Tydomio.Mcp.Model.Cache
import Tydomio.Protocol.Model.Write
import Mathlib.Data.Rat.Floor

/-!
# The write tools

`mcp_server/writes.py`: `set_shutter` and `set_heating`, checked, limited
to one send per `1 / rate` seconds, and sent once. The arguments are JSON;
the input models are as strict as pydantic makes them. Seconds are exact.

A call runs without suspending up to its send, and ends with it: `begin`
is that first step.
-/

namespace Tydomio

open Common Protocol

namespace Mcp

/-! ## Targets -/

/-- `[0-9]{1,15}`. -/
def isNumber (text : List Char) : Bool :=
  1 ≤ text.length && text.length ≤ 15 && text.all Char.isDigit

/-- `int` of such a text. -/
def numberOf (text : List Char) : ℤ := Nat.ofDigitChars 10 text 0

/-- **A target**: the kind and the ids of its text. -/
inductive Target where
  | endpoint (deviceId endpointId : ℤ)
  | group (groupId : ℤ)
  | area (areaId : ℤ)
  deriving DecidableEq

/-- The text of the patterns of a target, split at its colons and its ids
read. -/
def Target.parse (text : String) : Option Target :=
  match Text.split [':'] text.toList with
  | [['e'], m, n] =>
      if isNumber m && isNumber n then some (.endpoint (numberOf m) (numberOf n)) else none
  | [['g'], n] => if isNumber n then some (.group (numberOf n)) else none
  | [['a'], n] => if isNumber n then some (.area (numberOf n)) else none
  | _ => none

/-- `SetShutterInput`. A value that is not given is `none`. -/
structure SetShutterInput where
  target : String
  /-- `target.split(":")`. -/
  ids : Target
  command : Option JsonValue
  position : Option JsonValue

/-- `SetHeatingInput`. -/
structure SetHeatingInput where
  target : String
  ids : Target
  fields : Dict String JsonValue

/-- `SetShutterInput.model_validate`: `_TARGET_PATTERN` has no area. -/
def SetShutterInput.modelValidate (arguments : Dict String JsonValue) : Option SetShutterInput :=
  if arguments.keys.all (· ∈ ["target", "command", "position"]) then
    match arguments.get? "target" with
    | some (.str target) =>
        match Target.parse target with
        | none | some (.area _) => none
        | some ids => some ⟨target, ids, arguments.get? "command", arguments.get? "position"⟩
    | _ => none
  else none

/-- `SetHeatingInput.model_validate`: `_HEATING_INPUT_PATTERN` has them
all. -/
def SetHeatingInput.modelValidate (arguments : Dict String JsonValue) : Option SetHeatingInput :=
  if arguments.keys.all (· ∈ ["target", "fields"]) then
    match arguments.get? "target", arguments.get? "fields" with
    | some (.str target), some (.dict items) =>
        (Target.parse target).map fun ids => ⟨target, ids, Dict.ofList items⟩
    | _, _ => none
  else none

/-! ## Refusals -/

/-- `_Refused`. -/
structure Refused where
  reason : String
  note : String
  retryAfter : Option ℚ
  deriving DecidableEq

namespace Refused

def notSynced : Refused :=
  ⟨"not_synced", "Nothing was sent: the cache is not synced with the Tydom. " ++
    "See the cache block of get_state.", none⟩

def unknownTarget : Refused :=
  ⟨"unknown_target", "Nothing was sent: the target does not exist. " ++
    "Take its id from get_state.", none⟩

def wrongUsage (note : String) : Refused := ⟨"wrong_usage", note, none⟩

def invalidWrite (note : String) : Refused := ⟨"invalid_write", note, none⟩

def rateLimited (retryAfter : ℚ) : Refused :=
  ⟨"rate_limited", "Nothing was sent: too many writes. Retry after retry_after_s.",
    some retryAfter⟩

end Refused

/-- `_NOT_A_SHUTTER`. -/
def notAShutter : String := "Nothing was sent: the target is not a shutter or a shutter group."

/-- `_NOT_HEATING`. -/
def notHeating : String :=
  "Nothing was sent: the target is not a boiler or re2020ControlBoiler endpoint, " ++
    "nor a heating area."

/-- What ends a call before its send. -/
inductive Stop where
  | refused (refused : Refused)
  /-- An exception that leaves the tool. -/
  | raised (error : Exc)
  deriving DecidableEq

/-- A check of a call. -/
abbrev Checked (α : Type) : Type := Except Stop α

/-- A refusal. -/
def refuse {α : Type} (refused : Refused) : Checked α := .error (.refused refused)

/-- An exception is let through. -/
def letThrough {α : Type} : Except Exc α → Checked α := Except.mapError .raised

/-! ## The checks of a write -/

/-- `SHUTTER_USAGES`. -/
def shutterUsages : List UsageModel := [.shutter]

/-- `HEATING_USAGES`. -/
def heatingUsages : List UsageModel := [.boiler, .re2020ControlBoiler, .area]

/-- `HEATING_AREA_USAGES`. -/
def heatingAreaUsages : List String := ["re2020ControlBoiler"]

/-- `_HEATING_ENDPOINT_USAGES`. -/
def heatingEndpointUsages : List UsageModel := heatingUsages.filter (· ≠ .area)

/-- The usage of a target in a config: that of the last entry of its id. -/
def Target.usage? (config : Config) : Target → Option String
  | endpoint deviceId endpointId => config.endpointUsages.get? (deviceId, endpointId)
  | group groupId => config.groupUsages.get? groupId
  | area areaId => config.areaUsages.get? areaId

/-- `_usage`. -/
def usageOfTarget (config : Config) (target : Target) : Checked String :=
  match target.usage? config with
  | none => refuse .unknownTarget
  | some usage => .ok usage

/-- `_ref`. -/
def checkRef {R : Type} : Except Exc R → Checked R
  | .ok ref => .ok ref
  | .error (.invalidTarget _) => refuse .unknownTarget
  | .error e => .error (.raised e)

/-- `_validated`. -/
def validated (model : WriteModel) (fields : Dict String JsonValue) : Checked UsageWrite :=
  match modelValidate model false fields with
  | .ok write => .ok write
  | .error (.invalidWrite message) =>
      refuse (.invalidWrite ("Nothing was sent: " ++ message ++ "."))
  | .error e => .error (.raised e)

/-- `_Prepared`. -/
structure Prepared where
  request : WriteRequest
  write : UsageWrite

/-- The reference of a shutter endpoint or group; a target of `set_shutter`
is no area. -/
def shutterRef (installation : Installation) : Target → Checked (EndpointRef ⊕ GroupRef)
  | .endpoint deviceId endpointId =>
      checkRef ((installation.endpoint deviceId endpointId .shutter).map .inl)
  | .group id | .area id => checkRef ((installation.group id .shutter).map .inr)

/-- The fields of `set_shutter`: of a command or of a position. -/
def shutterFields (arguments : SetShutterInput) : Checked (Dict String JsonValue) :=
  match arguments.command, arguments.position with
  | some command, none => .ok (Dict.ofList [("positionCmd", command)])
  | none, some position => .ok (Dict.ofList [("position", position)])
  | _, _ => refuse (.invalidWrite "Nothing was sent: give exactly one of command or position.")

/-- `_shutter_write`. -/
def shutterWrite (installation : Installation) (config : Config) (arguments : SetShutterInput)
    (transactionId : ℤ) : Checked Prepared := do
  let usage ← usageOfTarget config arguments.ids
  if (usages.get? usage).any (· ∈ shutterUsages) then
    let ref ← shutterRef installation arguments.ids
    let fields ← shutterFields arguments
    let write ← validated .shutterWrite fields
    let request ← letThrough (match ref with
      | .inl ref => writeEndpoint ref write transactionId
      | .inr ref => writeGroup ref write transactionId)
    return ⟨request, write⟩
  else refuse (.wrongUsage notAShutter)

/-- `WRITES[model]`. -/
def writeModelOf (model : UsageModel) : Checked WriteModel :=
  match writes model with
  | some write => .ok write
  | none => .error (.raised (.other "KeyError"))

/-- `_heating_write`. -/
def heatingWrite (installation : Installation) (config : Config) (arguments : SetHeatingInput)
    (transactionId : ℤ) : Checked Prepared :=
  match arguments.ids with
  -- the library would write a group: one call stays one zone
  | .group _ => refuse (.wrongUsage notHeating)
  | .area areaId => do
      let usage ← usageOfTarget config (.area areaId)
      if usage ∈ heatingAreaUsages then
        let area ← checkRef (installation.area areaId)
        let write ← validated .areaWrite arguments.fields
        let request ← letThrough (writeArea area write transactionId)
        return ⟨request, write⟩
      else refuse (.wrongUsage notHeating)
  | .endpoint deviceId endpointId => do
      let usage ← usageOfTarget config (.endpoint deviceId endpointId)
      match usages.get? usage with
      | none => refuse (.wrongUsage notHeating)
      | some model =>
          if model ∈ heatingEndpointUsages then
            let endpoint ← checkRef (installation.endpoint deviceId endpointId model)
            let writeModel ← writeModelOf model
            let write ← validated writeModel arguments.fields
            let request ← letThrough (writeEndpoint endpoint write transactionId)
            return ⟨request, write⟩
          else refuse (.wrongUsage notHeating)

/-! ## A call -/

/-- The write tools. -/
inductive Tool where
  | setShutter
  | setHeating
  deriving DecidableEq

/-- `Writes`. -/
structure Writes where
  /-- `_cache`. -/
  cache : Cache
  /-- `_interval`. -/
  interval : ℚ
  /-- `_last_send`. -/
  lastSend : Option ℚ

/-- `_synced`. -/
def Cache.syncedConfig (cache : Cache) : Checked (Installation × Config) :=
  match cache.installation, cache.config with
  | some installation, some config =>
      if cache.fresh then .ok (installation, config) else refuse .notSynced
  | _, _ => refuse .notSynced

/-- The `retry_after_s` of a call: rounded up to the millisecond, never
above the interval. -/
def retryAfter (interval wait : ℚ) : ℚ := min ((⌈wait * 1000⌉ : ℚ) / 1000) interval

/-- `_count`: the time of the send it counts. -/
def count (interval : ℚ) (lastSend : Option ℚ) (now : ℚ) : Checked ℚ :=
  match lastSend with
  | none => .ok now
  | some last =>
      let wait := interval - (now - last)
      if 0 < wait then refuse (.rateLimited (retryAfter interval wait))
      else .ok now

/-- The arguments of a call, validated: the target, and the checks of its
write. -/
def Tool.parse (transactionId : ℤ) (arguments : Dict String JsonValue) :
    Tool → Option (String × (Installation → Config → Checked Prepared))
  | setShutter => (SetShutterInput.modelValidate arguments).map fun input =>
      (input.target, fun installation config =>
        shutterWrite installation config input transactionId)
  | setHeating => (SetHeatingInput.modelValidate arguments).map fun input =>
      (input.target, fun installation config =>
        heatingWrite installation config input transactionId)

/-- How the first step of a call ends. -/
inductive Begun where
  | invalidInput
  | notSent (target : String) (refused : Refused)
  | raised (error : Exc)
  /-- The request is handed to `send`. -/
  | sends (target : String) (prepared : Prepared)

/-- **`_write` up to its send.** -/
def Writes.begin (writes : Writes) (tool : Tool) (arguments : Dict String JsonValue)
    (transactionId : ℤ) (clock : ℚ) : Begun × Writes :=
  match tool.parse transactionId arguments with
  | none => (.invalidInput, writes)
  | some (target, prepare) =>
      -- nothing suspends from the freshness check to the send
      let checked : Checked (Prepared × ℚ) := do
        let (installation, config) ← writes.cache.syncedConfig
        let prepared ← prepare installation config
        let now ← count writes.interval writes.lastSend clock
        return (prepared, now)
      match checked with
      | .error (.refused refused) => (.notSent target refused, writes)
      | .error (.raised error) => (.raised error, writes)
      | .ok (prepared, now) => (.sends target prepared, { writes with lastSend := some now })

/-- What a call reports. -/
structure Report where
  target : String
  outcome : String
  reason : Option String
  retryAfter : Option ℚ
  fields : WriteBody
  sentAt : Option DateTime
  note : String
  isError : Bool
  deriving DecidableEq

/-- `_not_sent`. -/
def notSentReport (target : String) (refused : Refused) : Report :=
  ⟨target, "not_sent", some refused.reason, refused.retryAfter, [], none, refused.note, true⟩

/-- `_ACKNOWLEDGED_NOTE`. -/
def acknowledgedNote : String :=
  "The Tydom accepted the command; the device state is not observed yet. " ++
    "Call get_state later."

/-- `_UNKNOWN_NOTE`. -/
def unknownNote : String :=
  "The write may have been applied. It was not and will not be resent. " ++
    "Read the state with get_state before any retry."

/-- The report of a send that returns. -/
def acknowledgedReport (target : String) (write : UsageWrite) (sentAt : DateTime) : Report :=
  ⟨target, "acknowledged", none, none, write.body, some sentAt, acknowledgedNote, false⟩

/-- The report of a send that raises `CommunicationError`. -/
def unknownReport (target : String) (write : UsageWrite) (sentAt : DateTime) : Report :=
  { acknowledgedReport target write sentAt with
    outcome := "unknown", note := unknownNote, isError := true }

/-! ## Calls on one object -/

/-- Where a call of a write tool is. -/
inductive CallPhase where
  | idle
  /-- Suspended in its send. -/
  | sending (target : String) (write : UsageWrite) (sentAt : DateTime)
  /-- Ended with `INVALID_INPUT`. -/
  | invalidInput
  | reported (report : Report)
  /-- Ended with an exception. -/
  | raised (error : Exc)

/-- A request handed to `send`: the call, and its reading of the clock. -/
structure SentRequest where
  call : ℕ
  clock : ℚ
  request : WriteRequest

/-- How a send ends. A cancellation raises `CancelledError`. -/
inductive SendEnd where
  | returned
  | raised (error : Exc)
  deriving DecidableEq

/-- The calls on one `Writes`, in progress or ended. -/
structure CallsState where
  writes : Writes
  /-- What the clock last read. -/
  clock : ℚ
  calls : ℕ → CallPhase
  /-- The requests handed to `send`, as an observer records them. -/
  sends : List SentRequest
  /-- How the sends of calls ended, likewise. -/
  ends : List (ℕ × SendEnd)

/-- What can happen next. -/
inductive CallEvent where
  /-- The cache is written by its own tasks. -/
  | cacheChanges (cache : Cache)
  /-- A call runs up to its send. -/
  | start (call : ℕ) (tool : Tool) (arguments : Dict String JsonValue) (transactionId : ℤ)
      (clock : ℚ) (sentAt : DateTime)
  | sendReturns (call : ℕ)
  | sendRaises (call : ℕ) (error : Exc)

namespace CallsState

variable (s : CallsState)

/-- The state with a call moved. -/
def setCall (call : ℕ) (phase : CallPhase) : CallsState :=
  { s with calls := Function.update s.calls call phase }

/-- A call from its start to its send, or to its end. -/
def start (call : ℕ) (tool : Tool) (arguments : Dict String JsonValue) (transactionId : ℤ)
    (clock : ℚ) (sentAt : DateTime) : CallsState :=
  let begun := s.writes.begin tool arguments transactionId clock
  let s' := { s with writes := begun.2, clock }
  match begun.1 with
  | .invalidInput => s'.setCall call .invalidInput
  | .notSent target refused => s'.setCall call (.reported (notSentReport target refused))
  | .raised error => s'.setCall call (.raised error)
  | .sends target prepared =>
      { s'.setCall call (.sending target prepared.write sentAt) with
        sends := s.sends ++ [⟨call, clock, prepared.request⟩] }

/-- A send ends, and its call with it. -/
def finish (call : ℕ) (phase : CallPhase) (sendEnd : SendEnd) : CallsState :=
  { s.setCall call phase with ends := s.ends ++ [(call, sendEnd)] }

end CallsState

/-- **One step of the calls.** The clock does not go back. -/
def callsStep (s : CallsState) : CallEvent → Option CallsState
  | .cacheChanges cache => some { s with writes := { s.writes with cache } }
  | .start call tool arguments transactionId clock sentAt =>
      match s.calls call with
      | .idle =>
          if s.clock ≤ clock then some (s.start call tool arguments transactionId clock sentAt)
          else none
      | _ => none
  | .sendReturns call =>
      match s.calls call with
      | .sending target write sentAt =>
          some (s.finish call (.reported (acknowledgedReport target write sentAt)) .returned)
      | _ => none
  | .sendRaises call error =>
      match s.calls call with
      | .sending target write sentAt =>
          let phase :=
            if error.isCommunication then .reported (unknownReport target write sentAt)
            else .raised error
          some (s.finish call phase (.raised error))
      | _ => none

/-- A `Writes` of the given rate, on a cache, before any call. -/
def CallsState.init (cache : Cache) (rate clock : ℚ) : CallsState :=
  ⟨⟨cache, 1 / rate, none⟩, clock, fun _ => .idle, [], []⟩

/-- **The calls on one `Writes`**, in any interleaving. -/
def callsMachine (cache : Cache) (rate clock : ℚ) : Machine CallsState CallEvent :=
  ⟨.init cache rate clock, callsStep⟩

end Mcp

end Tydomio
