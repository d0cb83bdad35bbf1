import Tydomio.Protocol.Model.Message

/-!
# Parsing what the websocket gives

`protocol.py`: from the bytes of one websocket message to a response or a
request. The functions that serve both kinds take the error class to raise
as an argument, as the source does.
-/

namespace Tydomio

open Common

namespace Protocol

/-- The end of a line. -/
def crlf : Bytes := [13, 10]

/-- `_CHUNK_SIZE.fullmatch`. -/
def isChunkSize (size : Bytes) : Bool :=
  size ≠ [] && size.all fun b => (Text.hexDigit b).isSome

/-- The size announced by the chunk line from `position` to `lineEnd`,
its extensions dropped. -/
def chunkSizeText (body : Bytes) (position lineEnd : ℕ) : Bytes :=
  Text.strip Text.isAsciiSpace
    ((Text.slice body position lineEnd).takeWhile (· ≠ 59))

/-- The loop of `_decode_chunked` from a position, with the content joined
so far. -/
def decodeChunkedFrom (error : String → Exc) (body : Bytes) (position : ℕ) (content : Bytes) :
    Except Exc Bytes :=
  match _hfind : Text.find crlf body position with
  | none => .error (error "Invalid chunk size")
  | some lineEnd =>
      let size := chunkSizeText body position lineEnd
      if isChunkSize size then
        let start := lineEnd + 2
        let stop := start + Text.hexValue size
        if stop = start then
          if body.drop start = crlf then .ok content
          else .error (error "Invalid end of chunked content")
        else if _hend : Text.slice body stop (stop + 2) = crlf then
          decodeChunkedFrom error body (stop + 2) (content ++ Text.slice body start stop)
        else .error (error "Invalid chunk end")
      else .error (error "Invalid chunk size")
termination_by body.length - position
decreasing_by
  have hle := Text.le_of_find ‹_›
  have hlen : stop + 2 ≤ body.length :=
    Text.le_length_of_slice (show 0 < crlf.length by decide) _hend
  omega

/-- `_decode_chunked`. -/
def decodeChunked (body : Bytes) (error : String → Exc) : Except Exc Bytes :=
  decodeChunkedFrom error body 0 []

/-- `_decode_content`: by the transfer encoding. -/
def decodeContent (body : Bytes) (headers : Headers) (error : String → Exc) :
    Except Exc Bytes :=
  match headers.get? "transfer-encoding" with
  | none => .ok body
  | some transferEncoding =>
      if Text.lower transferEncoding.toList ≠ "chunked".toList then
        .error (error "Unsupported transfer encoding")
      else decodeChunked body error

/-- One header line written over the headers read so far. -/
def addHeader (error : String → Exc) (headers : Headers) (line : List Char) :
    Except Exc Headers :=
  match Text.partition [':'] line with
  | none => .error (error "Header line without colon")
  | some (name, value) =>
      .ok (headers.set (String.ofList (Text.lower (Text.strip Text.isSpace name)))
        (String.ofList (Text.strip Text.isSpace value)))

/-- The start line and the headers of a head. -/
def splitHead (head : List Char) (error : String → Exc) :
    Except Exc (List Char × Headers) :=
  match Text.split ['\r', '\n'] head with
  | [] => .ok ([], ∅)
  | startLine :: headerLines => do
      let headers ← headerLines.foldlM (addHeader error) ∅
      return (startLine, headers)

/-- An empty content reads as none. -/
def contentOrNone (content : Bytes) : Option Bytes := if content = [] then none else some content

/-- `_split_message`: start line, headers and content. -/
def splitMessage (message : Bytes) (error : String → Exc) :
    Except Exc (List Char × Headers × Option Bytes) :=
  match Text.partition (crlf ++ crlf) message with
  | none => .error (error "No end of headers")
  | some (head, body) =>
      match Text.decodeAscii head with
      | none => .error (error "Headers are not ASCII")
      | some text => do
          let (startLine, headers) ← splitHead text error
          let content ← decodeContent body headers error
          return (startLine, headers, contentOrNone content)

/-- What a message is parsed into. -/
inductive Incoming where
  | response (response : Response)
  /-- A request whose data the client hands to its subscriptions. -/
  | tydomRequest (request : TydomRequest)
  | jsonRequest (request : JsonRequest)

/-- The three digits of `_STATUS_LINE.fullmatch`: no line feed after
them. -/
def statusDigits (statusLine : List Char) : Option (List Char) :=
  let rest := statusLine.drop "HTTP/1.1 ".length
  let digits := rest.take 3
  let reason := rest.drop 3
  if "HTTP/1.1 ".toList <+: statusLine ∧ digits.length = 3 ∧ digits.all Char.isDigit ∧
      (reason = [] ∨ (reason.head? = some ' ' ∧ '\n' ∉ reason)) then some digits
  else none

/-- `parse_response`. -/
def parseResponse (message : Bytes) : Except Exc Response := do
  let (statusLine, headers, content) ← splitMessage message .invalidResponse
  match statusDigits statusLine with
  | none => .error (.invalidResponse "Invalid status line")
  | some digits => return ⟨Nat.ofDigitChars 10 digits 0, headers, content⟩

/-- The typed request of a `PUT`, `none` for a url that has none. -/
def typedPut (codec : Codec) (method url : String) (headers : Headers)
    (content : Option Bytes) : Option (Except Exc TydomRequest) :=
  if method = "PUT" then
    if url = "/devices/data" then
      some (tydomPutDevicesDataRequest codec method url headers content)
    else if url = "/areas/data" then
      some (tydomPutAreasDataRequest codec method url headers content)
    else none
  else none

/-- The request of a split message: the typed one where there is one, a
`JsonRequest` where there is none or it raises `InvalidRequest`. -/
def parseRequestParts (codec : Codec) (method url : String) (headers : Headers)
    (content : Option Bytes) : Except Exc Incoming :=
  match typedPut codec method url headers content with
  | some (.ok request) => .ok (.tydomRequest request)
  -- what the model rejects is read again, as a request of any JSON
  | some (.error (.invalidRequest _)) | none =>
      (JsonRequest.init codec method url headers content).map .jsonRequest
  | some (.error e) => .error e

/-- `parse_request`. -/
def parseRequest (codec : Codec) (message : Bytes) : Except Exc Incoming := do
  let (requestLine, headers, content) ← splitMessage message .invalidRequest
  match Text.split [' '] requestLine with
  | [method, url, version] =>
      if version ≠ "HTTP/1.1".toList then .error (.invalidRequest "Invalid request line")
      else parseRequestParts codec (String.ofList method) (String.ofList url) headers content
  | _ => .error (.invalidRequest "Invalid request line")

/-- `parse_message`. -/
def parseMessage (codec : Codec) (message cmdPrefix : Bytes) : Except Exc Incoming :=
  let message := Text.removePrefix cmdPrefix message
  if bytesOf "HTTP/1.1 " <+: message then (parseResponse message).map .response
  else parseRequest codec message

end Protocol

end Tydomio
