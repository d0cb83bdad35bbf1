import Tydomio.Protocol.Model.Message

/-!
# Client requests

`ClientRequest` of `requests.py`: a request the client sends, with the type
its response is parsed into, and the bytes that go on the wire.
-/

namespace Tydomio

open Common

namespace Protocol

/-! ## On the wire -/

/-- `_make_headers`: the given headers, then the length and the transaction
id where they are not given. -/
def Request.makeHeaders (request : Request) : Headers :=
  let givenHeaders := request.headers.keys.map fun name => Text.lower name.toList
  let hasContentLength := "content-length".toList ∈ givenHeaders ∨
    "transfer-encoding".toList ∈ givenHeaders
  let hasTransacId := "transac-id".toList ∈ givenHeaders
  let contentLength :=
    if ¬ hasContentLength ∧
        (request.content ≠ none ∨ request.method ∈ ["POST", "PUT", "PATCH"]) then
      [("content-length", toString (request.content.getD []).length)]
    else []
  let transacId :=
    if hasTransacId then []
    else [("transac-id", match request.transactionId with
      | some id => toString id
      | none => "None")]
  (contentLength ++ transacId).foldl (fun headers item => headers.set item.1 item.2)
    request.headers

/-- `str.encode("ascii")`. -/
def encodeAscii (text : List Char) : Except Exc Bytes :=
  if text.all fun c => c.toNat < 128 then .ok (text.map fun c => UInt8.ofNat c.toNat)
  else .error (.other "UnicodeEncodeError")

/-- `to_bytes`. -/
def Request.toBytes (request : Request) (cmdPrefix : Bytes) : Except Exc Bytes := do
  let headers := request.makeHeaders.entries.map fun item => item.1 ++ ": " ++ item.2
  let head := request.method ++ " " ++ request.url ++ " HTTP/1.1\r\n" ++
    "\r\n".intercalate headers ++ "\r\n\r\n"
  let encoded ← encodeAscii head.toList
  return cmdPrefix ++ encoded ++ request.content.getD []

/-! ## Parsed responses -/

/-- `ParsedResponse`: a response with what its type read in it. -/
inductive ParsedResponse where
  | ok (response : Response)
  | config (response : Response) (config : Config)
  | devicesData (response : Response) (data : DevicesData) (invalid : List (ℤ × ℤ))
  | areasData (response : Response) (data : AreasData) (invalid : List ℤ)
  /-- `_RawResponse` of the capture: as received. -/
  | raw (response : Response)
  deriving DecidableEq

/-- The response it was parsed from: status, headers and content. -/
def ParsedResponse.response : ParsedResponse → Response
  | ok response | config response _ | devicesData response _ _ | areasData response _ _
  | raw response => response

/-- The types a response is parsed into. -/
inductive ResponseType where
  | ok
  | config
  | devicesData
  | areasData
  | raw
  deriving DecidableEq

/-- `response_type(response)`. -/
def ResponseType.init (codec : Codec) (type : ResponseType) (response : Response) :
    Except Exc ParsedResponse :=
  match type with
  | ok => (okResponse response).map fun _ => .ok response
  | config => (configResponse codec response).map fun config => .config response config
  | devicesData => (devicesDataResponse codec response).map fun r =>
      .devicesData response r.1 r.2
  | areasData => (areasDataResponse codec response).map fun r => .areasData response r.1 r.2
  | raw => .ok (.raw response)

/-- Parsing keeps the response. -/
theorem ResponseType.response_init {codec : Codec} {type : ResponseType} {response : Response}
    {parsed : ParsedResponse} (h : type.init codec response = .ok parsed) :
    parsed.response = response := by
  cases type with
  | raw => exact Except.ok.inj h ▸ rfl
  | ok | config | devicesData | areasData =>
      obtain ⟨_, -, rfl⟩ := map_eq_ok_iff.1 h
      rfl

/-! ## Requests -/

/-- `ClientRequest`. -/
structure ClientRequest where
  request : Request
  /-- `response_type`. -/
  responseType : ResponseType
  deriving DecidableEq

/-- `parse_response`. -/
def ClientRequest.parseResponse (codec : Codec) (r : ClientRequest) (response : Response) :
    Except Exc ParsedResponse :=
  r.responseType.init codec response

/-- The headers of the requests for JSON. -/
def jsonHeaders : Headers := Dict.ofList [("Content-Type", "application/json; charset=UTF-8")]

/-- A GET of JSON. -/
def getJson (url : String) (type : ResponseType) (transactionId : ℤ) : ClientRequest :=
  ⟨⟨"GET", url, jsonHeaders, none, some transactionId⟩, type⟩

/-- `PingRequest`. -/
def pingRequest (transactionId : ℤ) : ClientRequest :=
  ⟨⟨"GET", "/ping", ∅, none, some transactionId⟩, .ok⟩

/-- `GetConfigFile`. -/
def getConfigFile : ℤ → ClientRequest := getJson "/configs/file" .config

/-- `GetDevicesData`. -/
def getDevicesData : ℤ → ClientRequest := getJson "/devices/data" .devicesData

/-- `GetAreasData`. -/
def getAreasData : ℤ → ClientRequest := getJson "/areas/data" .areasData

/-- `RefreshAll`. -/
def refreshAll (transactionId : ℤ) : ClientRequest :=
  ⟨⟨"POST", "/refresh/all", ∅, none, some transactionId⟩, .ok⟩

end Protocol

end Tydomio
