import Tydomio.Protocol.Model.Parse

/-!
# What parsing raises

The functions that split a message raise the error class they are given
and nothing else, whatever the bytes: `raisesOnly_splitMessage`. What is
left is the JSON parser, called on the content of a request without a
typed reading and on the content of a `JsonResponse`; the two callers turn
its syntax error into an error of their own and let its other exceptions
through. `parseMessage_raisesOnly_iff` and `jsonResponse_raisesOnly_iff`
say exactly when that shows.
-/

namespace Tydomio

open Common

namespace Protocol

variable {codec : Codec} {error : String → Exc} {classes : Exc → Bool}

section Split

variable (herror : ∀ text, classes (error text) = true)
include herror

/-! ## Splitting raises the error class it is given -/

/-- The induction follows the chunks: every exit of the loop but the last
is an error of the given class. -/
theorem raisesOnly_decodeChunkedFrom (body : Bytes) (position : ℕ) (content : Bytes) :
    RaisesOnly classes (decodeChunkedFrom error body position content) := by
  fun_induction decodeChunkedFrom error body position content with
  | case1 => exact raisesOnly_error.2 (herror _)
  | case2 => exact raisesOnly_ok _
  | case3 => exact raisesOnly_error.2 (herror _)
  | case4 _ _ _ _ _ _ _ _ _ _ ih => exact ih
  | case5 => exact raisesOnly_error.2 (herror _)
  | case6 => exact raisesOnly_error.2 (herror _)

theorem raisesOnly_decodeContent (body : Bytes) (headers : Headers) :
    RaisesOnly classes (decodeContent body headers error) := by
  rw [decodeContent]
  split
  · exact raisesOnly_ok _
  · split
    · exact raisesOnly_error.2 (herror _)
    · exact raisesOnly_decodeChunkedFrom herror body 0 []

theorem raisesOnly_addHeader (headers : Headers) (line : List Char) :
    RaisesOnly classes (addHeader error headers line) := by
  rw [addHeader]
  split
  · exact raisesOnly_error.2 (herror _)
  · exact raisesOnly_ok _

theorem raisesOnly_foldlM_addHeader (lines : List (List Char)) (headers : Headers) :
    RaisesOnly classes (lines.foldlM (addHeader error) headers) := by
  induction lines generalizing headers with
  | nil => exact raisesOnly_ok _
  | cons line lines ih =>
      rw [List.foldlM_cons]
      exact (raisesOnly_addHeader herror headers line).bind fun headers' _ => ih headers'

theorem raisesOnly_splitHead (head : List Char) :
    RaisesOnly classes (splitHead head error) := by
  rw [splitHead]
  split
  · exact raisesOnly_ok _
  · exact (raisesOnly_foldlM_addHeader herror _ _).bind fun _ _ => raisesOnly_ok _

/-- **Splitting a message raises only the error class it is given.** -/
theorem raisesOnly_splitMessage (message : Bytes) :
    RaisesOnly classes (splitMessage message error) := by
  rw [splitMessage]
  split
  · exact raisesOnly_error.2 (herror _)
  · split
    · exact raisesOnly_error.2 (herror _)
    · exact (raisesOnly_splitHead herror _).bind fun _ _ =>
        (raisesOnly_decodeContent herror _ _).bind fun _ _ => raisesOnly_ok _

end Split

/-- So a response raises `InvalidResponse` only. -/
theorem raisesOnly_parseResponse (message : Bytes) :
    RaisesOnly Exc.isInvalidResponse (parseResponse message) := by
  rw [parseResponse]
  refine (raisesOnly_splitMessage (fun _ => rfl) message).bind fun parts _ => ?_
  dsimp only
  split
  · exact raisesOnly_error.2 rfl
  · exact raisesOnly_ok _

/-! ## The JSON parser's other exceptions -/

/-- The JSON parser accepts a content or refuses it as bad syntax. -/
def SyntaxErrorsOnly (codec : Codec) (body : Bytes) : Prop :=
  ∀ e, codec.loads body = .error e → e = .jsonDecodeError

/-- **The content a request leaves to the JSON parser**: the request line
is well formed, the content type is JSON, and no typed reading of the
content succeeds. -/
def JsonFallback (codec : Codec) (message body : Bytes) : Prop :=
  ∃ requestLine headers method url,
    splitMessage message .invalidRequest = .ok (requestLine, headers, some body) ∧
    Text.split [' '] requestLine = [method, url, "HTTP/1.1".toList] ∧
    hasJsonContent headers = true ∧
    ∀ request, typedPut codec (String.ofList method) (String.ofList url) headers (some body) ≠
      some (.ok request)

/-- A typed reading raises `InvalidRequest` only. -/
theorem typedPut_error {method url : String} {headers : Headers} {content : Option Bytes} {e : Exc}
    (h : typedPut codec method url headers content = some (.error e)) :
    ∃ text, e = .invalidRequest text := by
  have key : ∀ {α : Type} {name : String} {validate : Bytes → Option α}
      {make : Request → α → TydomRequest},
      tydomRequest method url headers content name validate make = .error e →
      ∃ text, e = .invalidRequest text := by
    intro α name validate make h
    unfold tydomRequest at h
    split at h
    · exact ⟨_, (Except.error.inj h).symm⟩
    · split at h
      · exact ⟨_, (Except.error.inj h).symm⟩
      · cases h
  rw [typedPut] at h
  split at h
  · split at h
    · exact key (Option.some.inj h)
    · split at h
      · exact key (Option.some.inj h)
      · cases h
  · cases h

/-- What `JsonRequest` raises beyond its own class is what the JSON parser
raises beyond its syntax error. -/
theorem jsonRequest_raisesOnly_iff {method url : String} {headers : Headers}
    {content : Option Bytes} :
    RaisesOnly Exc.isInvalidMessage (JsonRequest.init codec method url headers content) ↔
      (hasJsonContent headers = true → ∀ body, content = some body →
        SyntaxErrorsOnly codec body) := by
  unfold JsonRequest.init
  cases hjson : hasJsonContent headers with
  | false => simp [raisesOnly_error, Exc.isInvalidMessage]
  | true =>
      cases content with
      | none => simp [raisesOnly_ok]
      | some body =>
          simp only [Bool.not_true, Bool.false_eq_true, if_false, forall_const,
            Option.some.injEq, forall_eq']
          rw [SyntaxErrorsOnly]
          cases codec.loads body with
          | ok value => simp [raisesOnly_ok]
          | error e =>
              cases e <;> simp [raisesOnly_error, Exc.isInvalidMessage, LoadsError.toExc]

/-- The same of a request whose message is split. -/
theorem parseRequestParts_raisesOnly_iff {method url : String} {headers : Headers}
    {content : Option Bytes} :
    RaisesOnly Exc.isInvalidMessage (parseRequestParts codec method url headers content) ↔
      ((∀ request, typedPut codec method url headers content ≠ some (.ok request)) →
        hasJsonContent headers = true → ∀ body, content = some body →
          SyntaxErrorsOnly codec body) := by
  rw [parseRequestParts]
  cases hput : typedPut codec method url headers content with
  | none => simp [raisesOnly_map, jsonRequest_raisesOnly_iff]
  | some result =>
      cases result with
      | ok request => simp [raisesOnly_ok]
      | error e =>
          obtain ⟨text, rfl⟩ := typedPut_error hput
          simp [raisesOnly_map, jsonRequest_raisesOnly_iff]

/-- And of a whole request. -/
theorem parseRequest_raisesOnly_iff {message : Bytes} :
    RaisesOnly Exc.isInvalidMessage (parseRequest codec message) ↔
      ∀ body, JsonFallback codec message body → SyntaxErrorsOnly codec body := by
  have hsplit : RaisesOnly Exc.isInvalidMessage (splitMessage message .invalidRequest) :=
    raisesOnly_splitMessage (fun _ => rfl) message
  simp only [parseRequest, JsonFallback]
  cases hparts : splitMessage message .invalidRequest with
  | error e =>
      rw [hparts] at hsplit
      simpa [Except.bind, bind] using raisesOnly_error.2 (hsplit e rfl)
  | ok parts =>
      obtain ⟨requestLine, headers, content⟩ := parts
      simp only [Except.bind, bind, Except.ok.injEq, Prod.mk.injEq]
      split
      · rename_i method url version hline
        by_cases hversion : version = "HTTP/1.1".toList
        · subst hversion
          simp only [ne_eq, not_true_eq_false, if_false, parseRequestParts_raisesOnly_iff]
          constructor
          · rintro h body ⟨_, _, m, u, ⟨rfl, rfl, rfl⟩, hmu, hjson, htyped⟩
            rw [hline] at hmu
            simp only [List.cons.injEq, and_true] at hmu
            obtain ⟨rfl, rfl⟩ := hmu
            exact h htyped hjson body rfl
          · rintro h htyped hjson body rfl
            exact h body ⟨_, _, method, url, ⟨rfl, rfl, rfl⟩, hline, hjson, htyped⟩
        · simp only [ne_eq, hversion, not_false_eq_true, if_true]
          refine iff_of_true (raisesOnly_error.2 rfl) ?_
          rintro body ⟨_, _, m, u, ⟨rfl, rfl, rfl⟩, hmu, -, -⟩
          rw [hline] at hmu
          simp only [List.cons.injEq, and_true] at hmu
          exact absurd hmu.2.2 hversion
      · rename_i hline
        refine iff_of_true (raisesOnly_error.2 rfl) ?_
        rintro body ⟨_, _, m, u, ⟨rfl, rfl, rfl⟩, hmu, -, -⟩
        exact absurd hmu (hline m u _)

/-- The content the JSON parser reads while a websocket message is parsed:
a response has none. -/
def ReadsJson (codec : Codec) (message cmdPrefix body : Bytes) : Prop :=
  ¬ bytesOf "HTTP/1.1 " <+: Text.removePrefix cmdPrefix message ∧
    JsonFallback codec (Text.removePrefix cmdPrefix message) body

/-- **A message raises only the two invalid-message classes exactly when
the content it leaves to the JSON parser, if any, is JSON or bad syntax.** -/
theorem parseMessage_raisesOnly_iff {message cmdPrefix : Bytes} :
    RaisesOnly Exc.isInvalidMessage (parseMessage codec message cmdPrefix) ↔
      ∀ body, ReadsJson codec message cmdPrefix body → SyntaxErrorsOnly codec body := by
  simp only [parseMessage, ReadsJson]
  split
  · rename_i hresponse
    refine iff_of_true (raisesOnly_map.2 fun e he => ?_) fun _ h => absurd hresponse h.1
    cases e with
    | invalidResponse => rfl
    | _ => exact absurd (raisesOnly_parseResponse _ _ he) Bool.false_ne_true
  · rename_i hrequest
    simp [parseRequest_raisesOnly_iff, hrequest]

/-- **The same of `JsonResponse`**, whose content reaches the JSON parser
when its status is valid and its content type is JSON. -/
theorem jsonResponse_raisesOnly_iff {response : Response} {codes : List ℤ} :
    RaisesOnly Exc.isInvalidResponse (JsonResponse.init codec response codes) ↔
      (response.status ∈ codes → hasJsonContent response.headers = true →
        ∀ body, response.content = some body → SyntaxErrorsOnly codec body) := by
  rw [JsonResponse.init]
  by_cases hstatus : response.status ∈ codes
  · cases hjson : hasJsonContent response.headers with
    | false => simp [hstatus, raisesOnly_error, Exc.isInvalidResponse]
    | true =>
        cases hcontent : response.content with
        | none => simp [hstatus, raisesOnly_ok]
        | some body =>
            simp only [hstatus, not_true_eq_false, if_false, Bool.not_true, Bool.false_eq_true,
              forall_const, Option.some.injEq, forall_eq']
            rw [SyntaxErrorsOnly]
            cases codec.loads body with
            | ok value => simp [raisesOnly_ok]
            | error e =>
                cases e <;> simp [raisesOnly_error, Exc.isInvalidResponse, LoadsError.toExc]
  · simp [hstatus, raisesOnly_error, unexpectedStatus, Exc.isInvalidResponse]

/-- **When parsing keeps to the exceptions the read loop skips.** A
message, and a response read as JSON, raise no other exactly when the
content left to the JSON parser is JSON or bad syntax. -/
theorem parse_raisesOnly_iff (codec : Codec) :
    (∀ message cmdPrefix,
      RaisesOnly Exc.isInvalidMessage (parseMessage codec message cmdPrefix) ↔
        ∀ body, ReadsJson codec message cmdPrefix body → SyntaxErrorsOnly codec body) ∧
    (∀ response codes,
      RaisesOnly Exc.isInvalidResponse (JsonResponse.init codec response codes) ↔
        (response.status ∈ codes → hasJsonContent response.headers = true →
          ∀ body, response.content = some body → SyntaxErrorsOnly codec body)) :=
  ⟨fun _ _ => parseMessage_raisesOnly_iff, fun _ _ => jsonResponse_raisesOnly_iff⟩

/-- A codec for contents that are no document: bytes that are not ASCII do
not decode, and no text is JSON. -/
def noDocument : Codec where
  loads body :=
    if body.all (· < 128) then .error .jsonDecodeError else .error .unicodeDecodeError
  devicesData _ := none
  areasData _ := none
  config _ := none
  devicesEnvelope _ := none
  areasEnvelope _ := none
  endpoint _ := none

/-- A pushed request whose content is the single byte `0xff`. -/
def undecodablePush : Bytes :=
  bytesOf "PUT /info HTTP/1.1\r\ncontent-type: application/json\r\n\r\n" ++ [0xff]

/-- A response with the same content. -/
def undecodableResponse : Response :=
  ⟨200, Dict.ofList [("content-type", "application/json")], some [0xff]⟩

/-- **A content that does not decode escapes both.** -/
theorem parse_raises_unicodeDecodeError :
    ¬ RaisesOnly Exc.isInvalidMessage (parseMessage noDocument undecodablePush []) ∧
    ¬ RaisesOnly Exc.isInvalidResponse (JsonResponse.init noDocument undecodableResponse) :=
  ⟨fun h => absurd (h .unicodeDecodeError rfl) Bool.false_ne_true,
    fun h => absurd (h .unicodeDecodeError rfl) Bool.false_ne_true⟩

end Protocol

end Tydomio
