import Tydomio.Model.Installation
import Tydomio.Protocol.Model.Request

/-!
# Write requests

`_Write` of `requests.py` and its subclasses: the PUT of the fields of a
write model, for an endpoint, a group or an area.
-/

namespace Tydomio

open Common

namespace Protocol

/-- The text of a double that is a multiple of one half, as every setpoint
is. -/
def floatText (q : ℚ) : String :=
  toString q.floor ++ if q = q.floor then ".0" else ".5"

/-- The JSON text of a written value: an enum member is its ASCII name. -/
def valueText : WriteValue → String
  | .int n => toString n
  | .float q => floatText q
  | .enum member => "\"" ++ member ++ "\""

/-- `json.dumps(body).encode()`. -/
def dumps (body : WriteBody) : Bytes :=
  bytesOf ("[" ++ ", ".intercalate (body.map fun item =>
    "\x7b\"name\": \"" ++ item.1 ++ "\", \"value\": " ++ valueText item.2 ++ "\x7d") ++ "]")

/-- `_Write`. -/
structure WriteRequest where
  request : ClientRequest
  /-- `_usage_name`. -/
  usageName : String
  /-- `_body`. -/
  body : WriteBody

/-- `_Write.__init__`. -/
def WriteRequest.init (url : String) (usage : UsageModel) (write : UsageWrite)
    (transactionId : ℤ) : Except Exc WriteRequest :=
  if writes usage ≠ some write.model then
    .error (.invalidTarget
      (write.model.className ++ " does not write to a " ++ usage.className))
  else
    match modelValidate write.model true write.toDict with
    | .error e => .error e
    | .ok revalidated =>
        let body := revalidated.body
        .ok ⟨⟨⟨"PUT", url, jsonHeaders, some (dumps body), some transactionId⟩, .ok⟩,
          usage.className, body⟩

/-- The url of an endpoint's data. -/
def endpointUrl (deviceId endpointId : ℤ) : String :=
  "/devices/" ++ toString deviceId ++ "/endpoints/" ++ toString endpointId ++ "/data"

/-- The url of a group's data. -/
def groupUrl (groupId : ℤ) : String := "/groups/" ++ toString groupId ++ "/data"

/-- The url of an area's data. -/
def areaUrl (areaId : ℤ) : String := "/areas/" ++ toString areaId ++ "/data"

/-- `WriteEndpoint`. -/
def writeEndpoint (ref : EndpointRef) (write : UsageWrite) : ℤ → Except Exc WriteRequest :=
  WriteRequest.init (endpointUrl ref.deviceId ref.endpointId) ref.usage write

/-- `WriteGroup`. -/
def writeGroup (ref : GroupRef) (write : UsageWrite) : ℤ → Except Exc WriteRequest :=
  WriteRequest.init (groupUrl ref.groupId) ref.usage write

/-- `WriteArea`. -/
def writeArea (ref : AreaRef) (write : UsageWrite) : ℤ → Except Exc WriteRequest :=
  WriteRequest.init (areaUrl ref.areaId) .area write

end Protocol

end Tydomio
