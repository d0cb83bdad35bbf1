import Tydomio.Mcp.Server

/-!
# What the reports say

The client of a server runs on its own, and so do its calls: what holds of
each in every interleaving holds of them in a server. With the links between
them, a report tells what went on the wire and what the Tydom answered.
-/

namespace Tydomio

open Common Protocol Client

namespace Mcp

section Runs

variable {codec : Codec} {cmdPrefix : Bytes} {routines : ℕ} {first : ℤ}
variable {sameLetter : Char → Char → Bool} {secrets : Secrets} {mode : WritesMode}
variable {rate clock : ℚ} {s s' : ServerState} {k n : ℕ}

/-! ## The client of a server -/

theorem made_of_stepClient {event : ClientEvent}
    (h : s.stepClient codec cmdPrefix routines first event = some s') :
    s'.made = s.made ∧ s'.asked = s.asked := by
  obtain ⟨client, -, hcase⟩ := clientCase_of_stepClient h
  cases hcase with
  | alone | goesOn => exact ⟨rfl, rfl⟩

theorem maker?_of_stepClient {event : ClientEvent}
    (h : s.stepClient codec cmdPrefix routines first event = some s') :
    s'.maker? n = s.maker? n := by
  rw [ServerState.maker?, (made_of_stepClient h).1]
  rfl

theorem client_of_stepClient {event : ClientEvent}
    (h : s.stepClient codec cmdPrefix routines first event = some s') :
    clientStep codec cmdPrefix (s'.requests first) routines s.client event = some s'.client := by
  obtain ⟨client, hclient, hcase⟩ := clientCase_of_stepClient h
  cases hcase with
  | alone | goesOn => exact hclient

/-- A request made stays as it was made. -/
theorem made_of_move {event : ServerEvent} {m : Made}
    (hm : ServerMove codec cmdPrefix routines first s mode event s')
    (h : s.made[n]? = some m) : s'.made[n]? = some m := by
  cases hm with
  | cacheChanges | answers => exact h
  | makes request =>
      obtain ⟨hlt, -⟩ := List.getElem?_eq_some_iff.1 h
      exact (List.getElem?_append_left hlt).trans h
  | client event _ _ hstep => rwa [(made_of_stepClient hstep).1]
  | ends => exact made_beginCall_of_lt h
  | sends k name tool arguments clock sentAt text prepared calls _ _ _ _ _ _ _ hstep =>
      rw [(made_of_stepClient hstep).1]
      exact made_beginCall_of_lt h

variable (codec cmdPrefix routines first s) in
/-- **A step of the client in a step of the server**: a send that starts has
its request. -/
structure ClientStep (event : ServerEvent) (s' : ServerState) (event' : ClientEvent) : Prop where
  step : clientStep codec cmdPrefix (s'.requests first) routines s.client event' = some s'.client
  made : ∀ n, event' = .send (.start n) → n < s'.made.length
  label : event = .client event' ∨ ∃ n, event' = .send (.start n)

theorem client_of_move {event : ServerEvent}
    (hm : ServerMove codec cmdPrefix routines first s mode event s') :
    s'.client = s.client ∨
      ∃ event', ClientStep codec cmdPrefix routines first s event s' event' := by
  cases hm with
  | cacheChanges | makes | answers | ends => exact .inl rfl
  | client event _ hallows hstep =>
      refine .inr ⟨event, client_of_stepClient hstep, ?_, .inl rfl⟩
      rintro n rfl
      rw [(made_of_stepClient hstep).1]
      exact (maker?_of_allows hallows).1
  | sends k name tool arguments clock sentAt text prepared calls _ _ _ _ hbegun _ _ hstep =>
      have hclient := client_of_stepClient hstep
      refine .inr ⟨.send (.start s.made.length), hclient, ?_, .inr ⟨_, rfl⟩⟩
      rintro _ ⟨⟩
      rw [(made_of_stepClient hstep).1]
      simp [ServerState.beginCall, makes_of_begin hbegun]

variable {events : List ServerEvent}

/-- **The client of a server in a run is in a run of its own**, of any
requests that those made are among. -/
theorem clientRun_of_run {requests : ℕ → ClientRequest}
    (h : (serverMachine codec cmdPrefix routines first sameLetter secrets mode rate clock).Run
      Machine.Free events s)
    (hrequests : ∀ n m, s.made[n]? = some m → requests n = m.request) :
    ∃ ks, (clientMachine codec cmdPrefix requests routines).Run Machine.Free ks s.client := by
  induction h with
  | nil => exact ⟨[], .nil⟩
  | snoc hrun _ hstep ih =>
      have hmove := serverMove_of_step hstep
      obtain ⟨ks, hks⟩ := ih fun n m hm => hrequests n m (made_of_move hmove hm)
      rcases client_of_move hmove with heq | ⟨event', hclient⟩
      · exact ⟨ks, heq ▸ hks⟩
      · refine ⟨ks ++ [event'], hks.snoc trivial ?_⟩
        have hstarted := (serverInv_of_run (hrun.snoc trivial hstep)).started
        refine (clientStep_congr fun n hcall hstarts => ?_).trans hclient.step
        -- the request a step reads was made
        have hlt : n < _ := hstarts.elim
          (fun hne => hstarted n (started_of_step hclient.step hne)) (hclient.made n)
        have hmade := List.getElem?_eq_getElem hlt
        rw [requests_of_made hmade, hrequests n _ hmade]

theorem idOf_requests (hs : ServerInv first s) (n : ℕ) :
    idOf (s.requests first) n = some (first + n) := by
  cases hmade : s.made[n]? with
  | none => simp [idOf, ServerState.requests, hmade, pingRequest]
  | some m => rw [idOf, requests_of_made hmade, hs.ids n m hmade]

/-- Each request has an id of its own. -/
theorem idOf_requests_injective (hs : ServerInv first s) (n n' : ℕ)
    (h : idOf (s.requests first) n = idOf (s.requests first) n') : n = n' := by
  rw [idOf_requests hs, idOf_requests hs, Option.some.injEq] at h
  omega

/-- **What holds of `send` holds in a server.** -/
theorem sendInv_of_run
    (h : (serverMachine codec cmdPrefix routines first sameLetter secrets mode rate clock).Run
      Machine.Free events s) :
    SendInv (s.requests first) s.client.send ∧ AnswerInv codec (s.requests first) s.client.send ∧
      WireInv s.client.send ∧ ∀ n, (s.client.send.calls n).wrote = true →
        n ∈ s.client.send.history.wire.map Prod.fst := by
  obtain ⟨ks, hks⟩ := clientRun_of_run h fun n m hm => requests_of_made hm
  obtain ⟨ls, hls⟩ := sendRun_of_run hks
  obtain ⟨hs, ha, hw⟩ := inv_of_run hls
  exact ⟨hs, ha, hw, fun n hn => onWire_of_run hls hn⟩

/-! ## How the sends of calls fail -/

theorem errorInv_of_run
    (h : (serverMachine codec cmdPrefix routines first sameLetter secrets mode rate clock).Run
      Machine.Free events s) : ErrorInv s.client.send := by
  refine h.invariant (I := fun s => ErrorInv s.client.send) errorInv_init ?_
  intro s event s' hs _ hstep
  rcases client_of_move (serverMove_of_step hstep) with heq | ⟨event', hclient⟩
  · rw [heq]
    exact hs
  · exact errorInv_of_step hs hclient.step

/-- The response to a write fails with `InvalidResponse` or not at all. -/
theorem isCommunication_of_okResponse {response : Response} {e : Exc}
    (h : ResponseType.init codec .ok response = .error e) : e.isCommunication = true := by
  have hfails := error_of_map h
  unfold okResponse at hfails
  split at hfails
  · cases hfails
    rfl
  · cases hfails

/-- **How the send of a call fails**, in a run: with a communication error, a
cancellation, or what the write on the websocket raised. -/
theorem raised_of_run
    (h : (serverMachine codec cmdPrefix routines first sameLetter secrets mode rate clock).Run
      Machine.Free events s) {e : Exc} (hmaker : s.maker? n = some k)
    (hraised : (s.client.send.calls n).outcome? = some (.raised e)) :
    e.isCommunication = true ∨ e = .cancelledError ∨
      .client (.send (.writeRaises n e)) ∈ events := by
  induction h generalizing e with
  | nil => cases hraised
  | @snoc events s s' event hrun _ hstep ih =>
      have hmove := serverMove_of_step hstep
      have hs' := serverInv_of_run (hrun.snoc trivial hstep)
      -- a send that had failed before the step
      have hfailed : (s.client.send.calls n).outcome? = some (.raised e) →
          e.isCommunication = true ∨ e = .cancelledError ∨
            .client (.send (.writeRaises n e)) ∈ events ++ [event] := by
        intro hbefore
        have hlt : n < s.made.length := by
          refine (serverInv_of_run hrun).started n fun hidle => ?_
          rw [hidle] at hbefore
          cases hbefore
        have hmade := List.getElem?_eq_getElem hlt
        obtain ⟨request, hmade'⟩ := maker?_eq_some.1 hmaker
        rw [made_of_move hmove hmade] at hmade'
        have hold := ih (maker?_eq_some.2 ⟨request, hmade.trans hmade'⟩) hbefore
        exact hold.imp_right (Or.imp_right (List.mem_append_left _))
      rcases client_of_move hmove with heq | ⟨event', hclient⟩
      · exact hfailed (heq ▸ hraised)
      cases hbefore : (s.client.send.calls n).outcome? with
      | some outcome =>
          rw [calls_of_step_of_ended hclient.step (by rw [hbefore]; rfl), hbefore] at hraised
          exact hfailed (hbefore.trans hraised)
      | none =>
          obtain ⟨target, fields, hmade⟩ := hs'.writes n k hmaker
          have hrequest : s'.requests first n = ⟨putRequest target fields (first + n), .ok⟩ :=
            requests_of_made hmade
          obtain ⟨bytes, headers, hbytes, -⟩ :=
            split_putRequest target fields (first + n) cmdPrefix .invalidRequest
          obtain ⟨ks, hks⟩ := clientRun_of_run hrun fun n m hm =>
            @requests_of_made first s' n m (made_of_move hmove hm)
          obtain ⟨ls, hls⟩ := sendRun_of_run hks
          have hbytes' : (s'.requests first n).request.toBytes cmdPrefix = .ok bytes := by
            rw [hrequest]
            exact hbytes
          have hparse : ∀ r e, (s'.requests first n).parseResponse codec r = .error e →
              e.isCommunication = true := by
            intro r e he
            rw [hrequest] at he
            exact isCommunication_of_okResponse he
          rcases raised_of_step (inv_of_run hls).1 (idOf_requests_injective hs')
            (idOf_requests hs' n) hbytes' (errorInv_of_run hrun) hparse hclient.step hbefore hraised
            with hcommunication | hcancelled | rfl
          · exact .inl hcommunication
          · exact .inr (.inl hcancelled)
          · rcases hclient.label with rfl | ⟨n', hstart⟩
            · exact .inr (.inr (List.mem_append_right _ (List.mem_singleton_self _)))
            · cases hstart

/-! ## The reports -/

variable (s) in
/-- The requests put on the wire, in order. -/
def ServerState.onWire : List ℕ := s.client.send.history.wire.map Prod.fst

/-- **The Tydom answered a request**: its send returned a response that has
its transaction id, was read after the send registered, and completed no
other send. -/
def Responded (first : ℤ) (s : ServerState) (n : ℕ) (response : Response) : Prop :=
  ∃ f i, s.client.send.calls n = .ended f (.returned (.ok response)) ∧
    response.transacId = .ok (some (first + n)) ∧
    s.client.send.history.read[i]? = some response ∧ s.client.send.history.madeAt f ≤ i ∧
    s.client.send.history.takenAt f = some i ∧
    ∀ n' f', (s.client.send.calls n').future? = some f' →
      s.client.send.history.takenAt f' = some i → n' = n

/-- **What the calls of the write tools tell is so.** -/
structure ReportsTrue (first : ℤ) (events : List ServerEvent) (s : ServerState) : Prop where
  /-- `acknowledged`: the write of the fields told went on the wire to the
  target told, and was answered with a status 200 and no content. -/
  acknowledged : ∀ k report, s.calls.calls k = .reported report →
    report.outcome = "acknowledged" → ∃ n response, MadeAs first s k n report.target report.fields ∧
      n ∈ s.onWire ∧ Responded first s n response ∧ response.status = 200 ∧ response.content = none
  /-- `unknown`: the send of that write failed with a communication
  error. -/
  unknown : ∀ k report, s.calls.calls k = .reported report → report.outcome = "unknown" →
    ∃ n e, MadeAs first s k n report.target report.fields ∧
      (s.client.send.calls n).outcome? = some (.raised e) ∧ e.isCommunication = true
  /-- `not_sent` or invalid: nothing that the call made is on the wire. -/
  notSent : ∀ k, (s.calls.calls k).unsent = true → ∀ n ∈ s.onWire, s.maker? n ≠ some k
  /-- A call raises its cancellation, or what the write on the websocket
  raised. -/
  raised : ∀ k e, s.calls.calls k = .raised e → e = .cancelledError ∨
    ∃ n, s.maker? n = some k ∧ .client (.send (.writeRaises n e)) ∈ events
  /-- A call goes on as soon as its send has ended. -/
  sending : ∀ k target write sentAt, s.calls.calls k = .sending target write sentAt →
    ∃ n, MadeAs first s k n target write.body ∧ (s.client.send.calls n).outcome? = none
  /-- A call puts one request on the wire at most, once. -/
  once : s.onWire.Nodup ∧ ∀ k, ∀ n ∈ s.onWire, ∀ n' ∈ s.onWire, s.maker? n = some k →
    s.maker? n' = some k → n = n'

/-- What a call before its send made is not sent. -/
theorem Linked.of_unsent {phase : CallPhase} (h : Linked first s k phase)
    (hunsent : phase.unsent = true) (hn : s.maker? n = some k) :
    s.client.send.calls n = .idle := by
  cases h with
  | unsent _ _ hidle => exact hidle n hn
  | sending => cases hunsent
  | ended _ target write sentAt outcome =>
      rw [(phaseAfter_spec target write sentAt outcome).2.1] at hunsent
      cases hunsent

/-- A call that is not before or in its send went on with its outcome. -/
theorem Linked.of_ended {phase : CallPhase} (h : Linked first s k phase)
    (hunsent : phase.unsent = false)
    (hsending : ∀ target write sentAt, phase ≠ .sending target write sentAt) :
    ∃ n target write sentAt outcome, MadeAs first s k n target write.body ∧
      (s.client.send.calls n).outcome? = some outcome ∧
      phase = phaseAfter target write sentAt outcome := by
  cases h with
  | unsent _ hphase =>
      rw [hphase] at hunsent
      cases hunsent
  | sending n target write sentAt => exact absurd rfl (hsending target write sentAt)
  | ended n target write sentAt outcome hmade houtcome =>
      exact ⟨n, target, write, sentAt, outcome, hmade, houtcome, rfl⟩

theorem ended_of_returned {call : Call} {parsed : ParsedResponse}
    (h : call.outcome? = some (.returned parsed)) : ∃ f, call = .ended f (.returned parsed) := by
  cases call with
  | ended f outcome =>
      cases h
      exact ⟨f, rfl⟩
  | _ => cases h

/-- The send of a write that returned was answered. -/
theorem responded_of_returned
    (h : (serverMachine codec cmdPrefix routines first sameLetter secrets mode rate clock).Run
      Machine.Free events s) {target : Target} {fields : WriteBody} {parsed : ParsedResponse}
    (hmade : s.made[n]? = some ⟨⟨putRequest target fields (first + n), .ok⟩, some k⟩)
    (hreturned : (s.client.send.calls n).outcome? = some (.returned parsed)) :
    ∃ response, n ∈ s.onWire ∧ Responded first s n response ∧ response.status = 200 ∧
      response.content = none := by
  obtain ⟨hs, ha, hw, hwire⟩ := sendInv_of_run h
  obtain ⟨f, hcall⟩ := ended_of_returned hreturned
  obtain ⟨response, hstore, hparse⟩ := ha.returned n f parsed hcall
  obtain ⟨i, htaken, hread, hmadeAt, id, hid, hcalls⟩ := ha.answered f response hstore
  have hfuture : (s.client.send.calls n).future? = some f := by
    rw [hcall]
    rfl
  -- the response is for the id of the request whose future it completed
  obtain rfl : first + n = id := by
    have hown := hcalls n hfuture
    rwa [idOf_requests (serverInv_of_run h), Option.some.injEq] at hown
  rw [requests_of_made hmade] at hparse
  obtain ⟨_, hok, rfl⟩ := map_eq_ok_iff.1 hparse
  have hstatus : response.status = 200 ∧ response.content = none := by
    unfold okResponse at hok
    split at hok
    · cases hok
    · rename_i hnot
      rw [not_or, not_not, not_not] at hnot
      exact hnot
  refine ⟨response, hwire n (by rw [hcall]; rfl),
    ⟨f, i, hcall, hid, hread, hmadeAt, htaken, fun n' f' hf' hi' => ?_⟩, hstatus⟩
  obtain rfl := ha.taken f' f i hi' htaken
  exact hs.own n' n f' hf' hfuture

/-- **The reports are true** in every interleaving of calls, pushes,
responses, timeouts, cancellations and connection losses. -/
theorem reports_true
    (h : (serverMachine codec cmdPrefix routines first sameLetter secrets mode rate clock).Run
      Machine.Free events s) : ReportsTrue first events s := by
  have hinv := serverInv_of_run h
  obtain ⟨-, -, hw, -⟩ := sendInv_of_run h
  refine ⟨fun k report hphase houtcome => ?_, fun k report hphase houtcome => ?_,
    fun k hunsent n hn hmaker => ?_, fun k e hphase => ?_,
    fun k target write sentAt hphase => (hphase ▸ hinv.phases k).of_sending,
    hw.nodup, fun k n _ n' _ => hinv.one n n' k⟩
  · obtain ⟨n, target, write, sentAt, outcome, hmade, hended, heq⟩ :=
      (hphase ▸ hinv.phases k).of_ended (by simp [CallPhase.unsent, houtcome]) (by simp)
    cases outcome with
    | returned parsed =>
        cases heq
        obtain ⟨target', htarget, hmade'⟩ := hmade
        obtain ⟨response, hresponse⟩ := responded_of_returned h hmade' hended
        exact ⟨n, response, ⟨target', htarget, hmade'⟩, hresponse⟩
    | raised e =>
        simp only [phaseAfter] at heq
        split at heq <;> cases heq
        simp [unknownReport] at houtcome
  · obtain ⟨n, target, write, sentAt, outcome, hmade, hended, heq⟩ :=
      (hphase ▸ hinv.phases k).of_ended (by simp [CallPhase.unsent, houtcome]) (by simp)
    cases outcome with
    | returned parsed =>
        cases heq
        simp [acknowledgedReport] at houtcome
    | raised e =>
        simp only [phaseAfter] at heq
        split at heq <;> cases heq
        exact ⟨n, e, hmade, hended, ‹_›⟩
  · exact hw.idle n ((hinv.phases k).of_unsent hunsent hmaker) hn
  · obtain ⟨n, target, write, sentAt, outcome, hmade, hended, heq⟩ :=
      (hphase ▸ hinv.phases k).of_ended rfl (by simp)
    cases outcome with
    | returned parsed => cases heq
    | raised e' =>
        simp only [phaseAfter] at heq
        split at heq <;> cases heq
        rename_i hnot
        rcases raised_of_run h hmade.maker hended with hcommunication | hcancelled | hwrite
        · exact absurd hcommunication hnot
        · exact .inl hcancelled
        · exact .inr ⟨n, hmade.maker, hwrite⟩

/-- The outcome that a call reports. -/
def CallPhase.outcome? : CallPhase → Option String
  | .reported report => some report.outcome
  | _ => none

theorem CallPhase.outcome?_eq_some {phase : CallPhase} {outcome : String} :
    phase.outcome? = some outcome ↔
      ∃ report, phase = .reported report ∧ report.outcome = outcome := by
  cases phase <;> simp [CallPhase.outcome?]

/-- A server that lets shutters be written, and expects no document. -/
def shutterServer : Machine ServerState ServerEvent :=
  serverMachine noDocument [] 0 0 (fun a b => a = b) ⟨"secret12", none, "001122334455"⟩ .shutters
    1 0

/-- A shutter opened by half: the ping of the connection waits while the call
is answered. -/
def acknowledgedRun : List ServerEvent :=
  [.cacheChanges shutterCache, .client .authorized, .client (.opened 0), .makes .ping,
    .client (.send (.start 0)), .client (.send (.written 0)),
    .call 0 "set_shutter" (halfOpen "e:10:1") 0 0, .client (.send (.written 1)),
    .client (.send (.readResponse ⟨200, Dict.ofList [("transac-id", "1")], none⟩)),
    .client (.send (.resume 1))]

theorem reports_true_acknowledgedRun : ∃ s report,
    s.calls.calls 0 = .reported report ∧ report.outcome = "acknowledged" ∧
      ReportsTrue 0 acknowledgedRun s := by
  have hexec : (shutterServer.exec shutterServer.init acknowledgedRun).map
      (fun s => (s.calls.calls 0).outcome?) = some (some "acknowledged") := by decide +kernel
  obtain ⟨s, hs, houtcome⟩ := Option.map_eq_some_iff.1 hexec
  obtain ⟨report, hphase, hacknowledged⟩ := CallPhase.outcome?_eq_some.1 houtcome
  exact ⟨s, report, hphase, hacknowledged, reports_true (Machine.run_of_exec hs)⟩

end Runs

end Mcp

end Tydomio
