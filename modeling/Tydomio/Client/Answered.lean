import Tydomio.Client.Calls

/-!
# A response decides the send that waits for it

A response with the transaction id of a send that waits completes its future,
and what the send ends with is decided then: no later message, loss of the
connection or other send changes it, only an interruption of the send itself.
-/

namespace Tydomio

open Common Protocol

namespace Client

variable {codec : Codec} {cmdPrefix : Bytes} {requests : ℕ → ClientRequest} {routines : ℕ}
variable {c f : ℕ} {id : ℤ} {response : Response}

section Send

variable {s s' : SendState}

/-- A send that waits for a future that waits is registered. -/
theorem get?_of_waiting (hs : SendInv requests s) (hid : idOf requests c = some id)
    (hcall : s.calls c = .waiting f) (hwait : s.pending.store f = .waiting) :
    s.pending.futures.get? id = some f := by
  have hfuture : (s.calls c).future? = some f := by rw [hcall]; rfl
  rcases hs.waits f (hs.made c f hfuture) hwait with ⟨id', hget⟩ | ⟨c', e, hcall'⟩
  · obtain ⟨c', hid', hactive⟩ := hs.entry id' f hget
    obtain rfl := hs.own c c' f hfuture (Call.future?_of_active? hactive)
    rwa [← Option.some.inj (hid'.symm.trans hid)]
  · obtain rfl := hs.own c c' f hfuture (by rw [hcall']; rfl)
    rw [hcall] at hcall'
    cases hcall'

/-- **A response read completes the future that waits for it.** -/
theorem store_readResponse (htransacId : response.transacId = .ok (some id))
    (hget : s.pending.futures.get? id = some f) (hwait : s.pending.store f = .waiting) :
    (s.readResponse response).pending.store f = .result response := by
  simp [SendState.readResponse, PendingRequests.resolve, htransacId, hget, hwait, Future.done]

theorem store_of_exec {events : List SendEvent} (hs : SendInv requests s)
    (hdone : s.pending.store f ≠ .waiting)
    (h : (sendMachine codec cmdPrefix requests).exec s events = some s') :
    s'.pending.store f = s.pending.store f := by
  induction events generalizing s with
  | nil =>
      cases h
      rfl
  | cons event events ih =>
      rw [Machine.exec, Option.bind_eq_some_iff] at h
      obtain ⟨m, hstep, hrest⟩ := h
      have hm := sendMove_of_step hstep
      have hkept := store_of_move hs hm hdone
      exact (ih (sendInv_of_move hs hm) (hkept ▸ hdone) hrest).trans hkept

end Send

variable (codec) in
/-- What the send of a request ends with, of the response to it. -/
def ClientRequest.outcomeOf (request : ClientRequest) (response : Response) : Outcome :=
  match request.parseResponse codec response with
  | .ok parsed => .returned parsed
  | .error e => .raised (waitError e)

variable (codec) in
/-- **What the send of a request ends with is decided**: its future holds a
response, and it waits for it or ended with what that is parsed into. -/
structure Decided (request : ClientRequest) (s : SendState) (c f : ℕ) (response : Response) :
    Prop where
  store : s.pending.store f = .result response
  call : s.calls c = .waiting f ∨
    s.calls c = .ended f (ClientRequest.outcomeOf codec request response)

variable {s s' : ClientState} {event : ClientEvent}

/-- A send that waits and whose future holds a response can resume. -/
theorem outcomeOf_of_result {t : SendState} (hcall : t.calls c = .waiting f)
    (hstore : t.pending.store f = .result response) :
    t.outcomeOf codec requests c =
      some (ClientRequest.outcomeOf codec (requests c) response) := by
  simp only [SendState.outcomeOf, ClientRequest.outcomeOf, hcall, hstore]
  cases (requests c).parseResponse codec response with
  | ok parsed => rfl
  | error e => rfl

/-- A send moves on from its wait by resuming, or is interrupted. -/
theorem calls_of_sendStep_of_waiting {t t' : SendState} {event : SendEvent}
    (h : sendStep codec cmdPrefix requests t event = some t')
    (hcall : t.calls c = .waiting f) (hstore : t.pending.store f = .result response)
    (hevent : event.call? = some c) (hcancel : event ≠ .cancel c)
    (htimeout : event ≠ .timeout c) :
    t'.calls c = .ended f (ClientRequest.outcomeOf codec (requests c) response) := by
  cases event with
  | start c₀ | written c₀ | writeRaises c₀ e =>
      obtain rfl := Option.some.inj hevent
      -- it has started and written already
      simp only [sendStep, hcall] at h
      cases h
  | resume c₀ =>
      obtain rfl := Option.some.inj hevent
      simp only [sendStep, hcall, Call.awaits?, outcomeOf_of_result hcall hstore] at h
      cases h
      simp
  | cancel c₀ =>
      obtain rfl := Option.some.inj hevent
      exact absurd rfl hcancel
  | timeout c₀ =>
      obtain rfl := Option.some.inj hevent
      exact absurd rfl htimeout
  | readResponse | flush | setWebsocket => cases hevent

/-- **No step changes what was decided**, but an interruption of the send. -/
theorem decided_of_step (hs : SendInv requests s.send)
    (h : clientStep codec cmdPrefix requests routines s event = some s')
    (hcancel : event ≠ .send (.cancel c)) (htimeout : event ≠ .send (.timeout c))
    (hd : Decided codec (requests c) s.send c f response) :
    Decided codec (requests c) s'.send c f response := by
  have hstore : s'.send.pending.store f = .result response := by
    obtain ⟨ks, hks⟩ := exec_of_step h
    rw [store_of_exec hs (by rw [hd.store]; simp) hks, hd.store]
  refine ⟨hstore, ?_⟩
  rcases hd.call with hcall | hended
  · by_cases hevent : event.call? = some c
    · cases event with
      | send event =>
          obtain ⟨t, ht, rfl⟩ := Option.map_eq_some_iff.1 h
          have hstep := (taskStep_eq_some.1 ht).2
          refine .inr (calls_of_sendStep_of_waiting hstep hcall hd.store hevent ?_ ?_)
          · exact fun heq => hcancel (congrArg ClientEvent.send heq)
          · exact fun heq => htimeout (congrArg ClientEvent.send heq)
      | _ => cases hevent
    · exact .inl ((calls_of_step_of_ne h hevent).trans hcall)
  · exact .inr ((calls_of_step_of_ended h (by rw [hended]; rfl)).trans hended)

end Client

end Tydomio
