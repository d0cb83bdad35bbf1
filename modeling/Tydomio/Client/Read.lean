import Tydomio.Client.Model.Read
import Tydomio.Client.Pending
import Tydomio.Protocol.Parse

/-!
# What one message read can do

The parser puts no constraint on a header's value; the dispatch reads one
of them, `transac-id`, as an integer, and `int()` raises where the text is
none. So the read loop goes on after a message the parser accepts exactly
when that text, if the message is a response that has it, is an integer:
`handleMessage_delivers_iff` for one message, `readMessages_iff` for the
loop over any number of them.
-/

namespace Tydomio

open Common Protocol

namespace Client

variable {codec : Codec} {cmdPrefix : Bytes} {subscriptions : List Subscription} {s : ReadState}

/-- A request, or a response with a readable transaction id. -/
def ReadableMessage : Incoming → Prop
  | .response response => ReadableTransacId response
  | _ => True

/-! ## One message -/

/-- A pushed request is started once for each subscription to its type. -/
structure Pushed (subscriptions : List Subscription) (request : TydomRequest)
    (s s' : ReadState) : Prop where
  pending : s'.pending = s.pending
  dropped : s'.dropped = s.dropped
  started : s'.tasks = s.tasks ++ startedBy subscriptions request
  matching : ∀ t, t ∈ startedBy subscriptions request ↔
    t.request = request ∧ ∃ sub ∈ subscriptions, sub.handler = t.handler ∧
      sub.requestType.isInstance request = true
  count : (startedBy subscriptions request).length =
    subscriptions.countP fun sub => sub.requestType.isInstance request

/-- A response completes the request waiting under its transaction id,
which is then no longer pending, and changes no other future. -/
structure Completed (response : Response) (s s' : ReadState) : Prop where
  tasks : s'.tasks = s.tasks
  dropped : s'.dropped = s.dropped
  completed : ∃ id f, response.transacId = .ok (some id) ∧ s.pending.futures.get? id = some f ∧
    s.pending.store f = .waiting ∧ s'.pending.store f = .result response ∧
    s'.pending.futures.get? id = none ∧ ∀ g ≠ f, s'.pending.store g = s.pending.store g

/-- No request waits under the response's transaction id, and it is
dropped: no future changes. -/
structure Dropped (response : Response) (s s' : ReadState) : Prop where
  tasks : s'.tasks = s.tasks
  dropped : s'.dropped = s.dropped ++ [response]
  unexpected : ∀ id f, response.transacId = .ok (some id) → s.pending.futures.get? id = some f →
    s.pending.store f ≠ .waiting
  store : s'.pending.store = s.pending.store

/-- **What a message read is for.** -/
def Delivered (subscriptions : List Subscription) (s s' : ReadState) : Incoming → Prop
  | .tydomRequest request => Pushed subscriptions request s s'
  | .jsonRequest _ => s' = s
  | .response response => Completed response s s' ∨ Dropped response s s'

theorem mem_startedBy {request : TydomRequest} {t : HandlerTask} :
    t ∈ startedBy subscriptions request ↔
      t.request = request ∧ ∃ sub ∈ subscriptions, sub.handler = t.handler ∧
        sub.requestType.isInstance request = true := by
  simp only [startedBy, List.mem_map, List.mem_filter]
  constructor
  · rintro ⟨sub, ⟨hsub, hmatch⟩, rfl⟩
    exact ⟨rfl, sub, hsub, rfl, hmatch⟩
  · rintro ⟨rfl, sub, hsub, hhandler, hmatch⟩
    exact ⟨sub, ⟨hsub, hmatch⟩, by rw [hhandler]⟩

theorem pushed_startedBy (request : TydomRequest) :
    Pushed subscriptions request s
      { s with tasks := s.tasks ++ startedBy subscriptions request } where
  pending := rfl
  dropped := rfl
  started := rfl
  matching _ := mem_startedBy
  count := by rw [startedBy, List.length_map, ← List.countP_eq_length_filter]

/-- A response with a readable transaction id is taken or dropped. -/
theorem response_delivered {response : Response} (hread : ReadableTransacId response) :
    ∃ s', handleMessage subscriptions s (.response response) = .ok s' ∧
      (Completed response s s' ∨ Dropped response s s') := by
  obtain ⟨⟨taken, pending⟩, hresolve⟩ :=
    (PendingRequests.resolve_ok_iff (p := s.pending)).2 hread
  simp only [handleMessage, hresolve]
  cases taken with
  | true =>
      obtain ⟨id, f, hid, hf, hwait, rfl⟩ := PendingRequests.resolve_true hresolve
      refine ⟨_, rfl, .inl ⟨rfl, rfl, id, f, hid, hf, hwait, ?_, ?_, ?_⟩⟩
      · exact Function.update_self ..
      · rw [Dict.get?_erase, if_pos rfl]
      · exact fun g hg => Function.update_of_ne hg ..
  | false =>
      obtain ⟨hstore, -, hunexpected, -⟩ := PendingRequests.resolve_false hresolve
      exact ⟨_, rfl, .inr ⟨rfl, rfl, hunexpected, hstore⟩⟩

/-- An unreadable one raises the `ValueError` of `int()`. -/
theorem handleMessage_unreadable {response : Response} (hread : ¬ ReadableTransacId response) :
    handleMessage subscriptions s (.response response) = .error .valueError := by
  cases hid : response.transacId with
  | ok id => exact absurd (transacId_eq_ok_iff.1 ⟨id, hid⟩) hread
  | error e =>
      simp only [handleMessage, PendingRequests.resolve, hid, eq_valueError_of_transacId hid]

/-- **The loop delivers a message, and raises nothing, exactly when the
message is readable.** -/
theorem handleMessage_delivers_iff {message : Incoming} :
    (∃ s', handleMessage subscriptions s message = .ok s' ∧
      Delivered subscriptions s s' message) ↔ ReadableMessage message := by
  cases message with
  | tydomRequest request => exact iff_of_true ⟨_, rfl, pushed_startedBy request⟩ trivial
  | jsonRequest request => exact iff_of_true ⟨s, rfl, rfl⟩ trivial
  | response response =>
      refine ⟨fun ⟨s', hs', _⟩ => ?_, response_delivered⟩
      by_contra hread
      rw [handleMessage_unreadable hread] at hs'
      cases hs'

/-- So a message handled is readable, and one that is not raises a
`ValueError`. -/
theorem handleMessage_cases (subscriptions : List Subscription) (s : ReadState)
    (message : Incoming) :
    (ReadableMessage message ∧ ∃ s', handleMessage subscriptions s message = .ok s') ∨
    (¬ ReadableMessage message ∧
      handleMessage subscriptions s message = .error .valueError) := by
  by_cases hread : ReadableMessage message
  · obtain ⟨s', hs', -⟩ := handleMessage_delivers_iff.2 hread
    exact .inl ⟨hread, s', hs'⟩
  · refine .inr ⟨hread, ?_⟩
    cases message with
    | response response => exact handleMessage_unreadable hread
    | _ => exact absurd trivial hread

/-! ## The loop -/

/-- The parser accepts a websocket message. -/
def Accepted (codec : Codec) (cmdPrefix : Bytes) (frame : Frame) (message : Incoming) : Prop :=
  ∃ content, frame = .binary content ∧ parseMessage codec content cmdPrefix = .ok message

theorem readFrame_of_accepted {frame : Frame} {message : Incoming}
    (h : Accepted codec cmdPrefix frame message) :
    readFrame codec cmdPrefix subscriptions s frame = handleMessage subscriptions s message := by
  obtain ⟨content, rfl, hparse⟩ := h
  simp only [readFrame, hparse]

/-- **Over messages the parser accepts, the loop reads on until the
connection closes exactly when all of them are readable**, whatever other
tasks do to the registry and the subscriptions in between. -/
theorem readMessages_iff {turns : List Turn} {messages : List Incoming}
    (h : List.Forall₂ (fun turn message => Accepted codec cmdPrefix turn.frame message)
      turns messages) :
    readMessages codec cmdPrefix s turns = .communicationError "Connection closed" ↔
      ∀ message ∈ messages, ReadableMessage message := by
  induction h generalizing s with
  | nil => simp [readMessages]
  | @cons turn message turns messages hacc _ ih =>
      rw [readMessages, readFrame_of_accepted hacc, List.forall_mem_cons]
      rcases handleMessage_cases turn.subscriptions
        { s with pending := turn.before s.pending } message with
        ⟨hread, s', hs'⟩ | ⟨hread, herror⟩
      · rw [hs']
        exact ih.trans ⟨fun hrest => ⟨hread, hrest⟩, And.right⟩
      · rw [herror]
        exact iff_of_false (by simp) fun hall => hread hall.1

/-- **When no accepted message ends the connection.** -/
theorem accepted_message_delivered_iff (codec : Codec) (cmdPrefix : Bytes) :
    (∀ content message, parseMessage codec content cmdPrefix = .ok message →
      ∀ subscriptions s,
        (∃ s', readFrame codec cmdPrefix subscriptions s (.binary content) = .ok s' ∧
          Delivered subscriptions s s' message) ↔ ReadableMessage message) ∧
    (∀ s turns messages,
      List.Forall₂ (fun turn message => Accepted codec cmdPrefix turn.frame message)
        turns messages →
      (readMessages codec cmdPrefix s turns = .communicationError "Connection closed" ↔
        ∀ message ∈ messages, ReadableMessage message)) := by
  refine ⟨fun content message h subscriptions s => ?_,
    fun s turns messages => readMessages_iff⟩
  rw [readFrame_of_accepted ⟨content, rfl, h⟩]
  exact handleMessage_delivers_iff

/-- A response whose transaction id is `text`. -/
def responseWithId (text : String) : Bytes :=
  bytesOf ("HTTP/1.1 200 OK\r\ntransac-id: " ++ text ++ "\r\n\r\n")

/-- The same, parsed. -/
def parsedWithId (text : String) : Response := ⟨200, Dict.ofList [("transac-id", text)], none⟩

theorem accepted_responseWithId : ∀ text ∈ ["7", "abc"],
    parseMessage noDocument (responseWithId text) [] = .ok (.response (parsedWithId text)) := by
  intro text h
  rcases List.mem_pair.1 h with rfl | rfl
  · rfl
  · rfl

/-- No request pending, nothing started. -/
def idle : ReadState := ⟨.init, [], []⟩

/-- A response numbered `7` goes through, once and in a loop of its own. -/
theorem numbered_response_delivered :
    (∃ s', readFrame noDocument [] [] idle (.binary (responseWithId "7")) = .ok s' ∧
      Delivered [] idle s' (.response (parsedWithId "7"))) ∧
    readMessages noDocument [] idle [⟨id, [], .binary (responseWithId "7")⟩] =
      .communicationError "Connection closed" := by
  have hread : ReadableMessage (.response (parsedWithId "7")) := by
    intro text h
    rw [← Option.some.inj h]
    rfl
  exact ⟨((accepted_message_delivered_iff noDocument []).1 _ _
      (accepted_responseWithId "7" (by simp)) [] idle).2 hread,
    ((accepted_message_delivered_iff noDocument []).2 idle _ _
      (.cons ⟨_, rfl, accepted_responseWithId "7" (by simp)⟩ .nil)).2
      (by simpa using hread)⟩

/-- **A transaction id that is a word ends the loop**, and the connection
with it, with a `ValueError`. -/
theorem word_transacId_ends_loop :
    parseMessage noDocument (responseWithId "abc") [] = .ok (.response (parsedWithId "abc")) ∧
    readFrame noDocument [] [] idle (.binary (responseWithId "abc")) = .error .valueError ∧
    ∀ turns, readMessages noDocument [] idle
      (⟨id, [], .binary (responseWithId "abc")⟩ :: turns) = .valueError :=
  ⟨accepted_responseWithId "abc" (by simp), rfl, fun _ => rfl⟩

end Client

end Tydomio
