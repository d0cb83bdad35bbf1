import Tydomio.Common.Text
import Tydomio.Model.Data
import Tydomio.Model.Error

/-!
# Messages

Requests and responses of `requests.py` and `response.py`, with what their
constructors check. What they use of code outside the repository is a
`Codec`: the JSON parser with the exceptions it documents, and the pydantic
validations, whose only exception is a `ValidationError` (`none`).
-/

namespace Tydomio

open Common

namespace Protocol

/-- What `json.loads` raises on a byte string it does not accept. -/
inductive LoadsError where
  /-- Bad syntax. -/
  | jsonDecodeError
  /-- Bytes that do not decode. -/
  | unicodeDecodeError
  /-- Too deep a nesting. -/
  | recursionError
  /-- An integer literal over the digit limit. -/
  | valueError
  deriving DecidableEq

/-- The exception itself. -/
def LoadsError.toExc : LoadsError → Exc
  | jsonDecodeError => .jsonDecodeError
  | unicodeDecodeError => .unicodeDecodeError
  | recursionError => .recursionError
  | valueError => .valueError

/-- `_Entity`: an endpoint or an area of which only the id is read, with
everything else it holds. -/
structure RawEntity where
  id : ℤ
  raw : JsonValue

/-- `_Device`. -/
structure RawDevice where
  id : ℤ
  endpoints : List RawEntity

/-- **The parsers and validators outside the repository.** -/
structure Codec where
  /-- `json.loads`. -/
  loads : Bytes → Except LoadsError JsonValue
  /-- `DevicesData.model_validate_json`. -/
  devicesData : Bytes → Option DevicesData
  /-- `AreasData.model_validate_json`. -/
  areasData : Bytes → Option AreasData
  /-- `Config.model_validate_json`. -/
  config : Bytes → Option Config
  /-- `_DataEnvelope[_Device].model_validate(from_json(content))`. -/
  devicesEnvelope : Bytes → Option (List RawDevice)
  /-- `_DataEnvelope[_Entity].model_validate(from_json(content))`. -/
  areasEnvelope : Bytes → Option (List RawEntity)
  /-- `Endpoint.model_validate(raw.model_dump())`. -/
  endpoint : RawEntity → Option DataEndpoint

/-- The headers of a message, by lower-case name. -/
abbrev Headers : Type := Dict String String

/-- `has_json_content`: whether the content type is JSON, whatever its case
and parameters. -/
def hasJsonContent (headers : Headers) : Bool :=
  let contentType := (headers.get? "content-type").getD ""
  let mediaType := contentType.toList.takeWhile (· ≠ ';')
  String.ofList (Text.lower (Text.strip Text.isSpace mediaType)) = "application/json"

/-! ## Requests -/

/-- `Request`. -/
structure Request where
  method : String
  url : String
  headers : Headers
  content : Option Bytes
  transactionId : Option ℤ
  deriving DecidableEq

/-- `JsonRequest`: a request with its parsed content. -/
structure JsonRequest where
  request : Request
  jsonContent : Option JsonValue

/-- A pushed request with its validated data: the two subclasses of
`TydomRequest`. -/
inductive TydomRequest where
  | putDevicesData (request : Request) (data : DevicesData)
  | putAreasData (request : Request) (data : AreasData)
  deriving DecidableEq

section Requests

variable (codec : Codec) (method url : String) (headers : Headers) (content : Option Bytes)

/-- The request the Tydom makes, which carries no transaction id. -/
def receivedRequest : Request := ⟨method, url, headers, content, none⟩

/-- `JsonRequest.__init__`. -/
def JsonRequest.init : Except Exc JsonRequest :=
  if !hasJsonContent headers then .error (.invalidRequest "Invalid content type")
  else
    match content with
    | none => .ok ⟨receivedRequest method url headers none, none⟩
    | some body =>
        match codec.loads body with
        | .ok value => .ok ⟨receivedRequest method url headers (some body), some value⟩
        | .error .jsonDecodeError => .error (.invalidRequest "Content is not JSON")
        | .error e => .error e.toExc

/-- `TydomRequest.__init__`, for a data model and its validator. -/
def tydomRequest {α : Type} (modelName : String) (validate : Bytes → Option α)
    (make : Request → α → TydomRequest) : Except Exc TydomRequest :=
  match content with
  | none => .error (.invalidRequest "No content in the request")
  | some body =>
      match validate body with
      | none => .error (.invalidRequest ("Invalid " ++ modelName))
      | some data => .ok (make (receivedRequest method url headers (some body)) data)

/-- `TydomPutDevicesDataRequest.__init__`. -/
def tydomPutDevicesDataRequest : Except Exc TydomRequest :=
  tydomRequest method url headers content "DevicesData" codec.devicesData .putDevicesData

/-- `TydomPutAreasDataRequest.__init__`. -/
def tydomPutAreasDataRequest : Except Exc TydomRequest :=
  tydomRequest method url headers content "AreasData" codec.areasData .putAreasData

end Requests

/-! ## Responses -/

/-- `Response`. -/
structure Response where
  status : ℤ
  headers : Headers
  content : Option Bytes
  deriving DecidableEq

/-- `Response.transac_id`: `int()` of the header raises on a text it does
not read. -/
def Response.transacId (response : Response) : Except Exc (Option ℤ) :=
  match response.headers.get? "transac-id" with
  | none => .ok none
  | some text =>
      match Text.readInt text with
      | none => .error .valueError
      | some id => .ok (some id)

/-- `_STATUS_CODE_OK`. -/
def statusCodeOk : ℤ := 200

/-- The refusal of a response by its status. -/
def unexpectedStatus (status : ℤ) : Exc :=
  .invalidResponse ("Unexpected response with status " ++ toString status)

/-- `JsonResponse`: a response with its parsed content. -/
structure JsonResponse where
  response : Response
  jsonContent : Option JsonValue

/-- `JsonResponse.__init__`. -/
def JsonResponse.init (codec : Codec) (response : Response)
    (validStatusCodes : List ℤ := [statusCodeOk]) : Except Exc JsonResponse :=
  if response.status ∉ validStatusCodes then .error (unexpectedStatus response.status)
  else if !hasJsonContent response.headers then
    .error (.invalidResponse "Content is not JSON")
  else
    match response.content with
    | none => .ok ⟨response, none⟩
    | some body =>
        match codec.loads body with
        | .ok value => .ok ⟨response, some value⟩
        | .error .jsonDecodeError => .error (.invalidResponse "Content is not JSON")
        | .error e => .error e.toExc

/-- `Ok.__init__`: a status 200 without content. -/
def okResponse (response : Response) : Except Exc Unit :=
  if response.status ≠ statusCodeOk ∨ response.content ≠ none then
    .error (unexpectedStatus response.status)
  else .ok ()

/-- The status, origin and presence checks shared by the data responses:
the content they go on with. -/
def originContent (url : String) (response : Response) : Except Exc Bytes :=
  if response.status ≠ statusCodeOk ∨ response.headers.get? "uri-origin" ≠ some url then
    .error (unexpectedStatus response.status)
  else
    match response.content with
    | none => .error (unexpectedStatus response.status)
    | some body => .ok body

/-- A validation of a content, its failure naming the url. -/
def validated {α : Type} (url : String) : Option α → Except Exc α
  | none => .error (.invalidResponse ("Invalid " ++ url ++ " content"))
  | some value => .ok value

/-- `ConfigResponse.__init__`: its `config`. -/
def configResponse (codec : Codec) (response : Response) : Except Exc Config := do
  let content ← originContent "/configs/file" response
  validated "/configs/file" (codec.config content)

/-- The endpoints of a device that validate, and the ids of those that do
not. -/
def splitEndpoints (codec : Codec) (device : RawDevice) :
    List DataEndpoint × List (ℤ × ℤ) :=
  (device.endpoints.filterMap codec.endpoint,
    (device.endpoints.filter fun raw => (codec.endpoint raw).isNone).map fun raw =>
      (device.id, raw.id))

/-- `DevicesDataResponse.__init__`: its `data` and `invalid`. -/
def devicesDataResponse (codec : Codec) (response : Response) :
    Except Exc (DevicesData × List (ℤ × ℤ)) := do
  let content ← originContent "/devices/data" response
  let devices ← validated "/devices/data" (codec.devicesEnvelope content)
  return (devices.map fun device => ⟨device.id, (splitEndpoints codec device).1⟩,
    devices.flatMap fun device => (splitEndpoints codec device).2)

/-- `AreasDataResponse.__init__`: its `data` and `invalid`. -/
def areasDataResponse (codec : Codec) (response : Response) :
    Except Exc (AreasData × List ℤ) := do
  let content ← originContent "/areas/data" response
  let areas ← validated "/areas/data" (codec.areasEnvelope content)
  return (areas.filterMap codec.endpoint,
    (areas.filter fun raw => (codec.endpoint raw).isNone).map RawEntity.id)

end Protocol

end Tydomio
