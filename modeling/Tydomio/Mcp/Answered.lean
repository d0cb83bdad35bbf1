import Tydomio.Client.Answered
import Tydomio.Mcp.Reports

/-!
# A response decides the report

What the response to a write decides for its send is decided for the call of
the write tool: no push, other call, message or loss of the connection between
the response and the report changes what is reported.
-/

namespace Tydomio

open Common Protocol Client

namespace Mcp

section Runs

variable {codec : Codec} {cmdPrefix : Bytes} {routines : ℕ} {first : ℤ}
variable {sameLetter : Char → Char → Bool} {secrets : Secrets} {mode : WritesMode}
variable {rate clock : ℚ} {s s' : ServerState} {k n f : ℕ} {response : Response}
variable {event : ServerEvent} {events later : List ServerEvent} {m : Made}

/-- An interruption of a send. -/
def Interrupts (n : ℕ) (event : ServerEvent) : Prop :=
  event = .client (.send (.cancel n)) ∨ event = .client (.send (.timeout n))

/-- **No step of the server changes what was decided.** -/
theorem decided_of_serverStep
    (h : (serverMachine codec cmdPrefix routines first sameLetter secrets mode rate clock).Run
      Machine.Free events s) (hmade : s.made[n]? = some m) (hnot : ¬Interrupts n event)
    (hstep : serverStep codec cmdPrefix routines first sameLetter secrets mode s event = some s')
    (hd : Decided codec m.request s.client.send n f response) :
    s'.made[n]? = some m ∧ Decided codec m.request s'.client.send n f response := by
  have hmove := serverMove_of_step hstep
  have hmade' := made_of_move hmove hmade
  refine ⟨hmade', ?_⟩
  rcases client_of_move hmove with heq | ⟨event', hclient⟩
  · rwa [heq]
  -- the requests after the step hold those made before it
  obtain ⟨ks, hks⟩ := clientRun_of_run h fun n m hm =>
    @requests_of_made first s' n m (made_of_move hmove hm)
  obtain ⟨ls, hls⟩ := sendRun_of_run hks
  have hlabel : ∀ e, event' = .send e → (∀ c, e ≠ .start c) → event = .client (.send e) := by
    rintro e rfl hstart
    rcases hclient.label with heq | ⟨c, hc⟩
    · exact heq
    · exact absurd (ClientEvent.send.inj hc) (hstart c)
  have hrequest : s'.requests first n = m.request := requests_of_made hmade'
  rw [← hrequest] at hd ⊢
  refine decided_of_step (inv_of_run hls).1 hclient.step (fun hcancel => hnot ?_)
    (fun htimeout => hnot ?_) hd
  · exact .inl (hlabel _ hcancel (by simp))
  · exact .inr (hlabel _ htimeout (by simp))

/-- What was decided stays decided, whatever happens later. -/
theorem decided_of_serverExec
    (h : (serverMachine codec cmdPrefix routines first sameLetter secrets mode rate clock).Run
      Machine.Free events s) (hmade : s.made[n]? = some m)
    (hnot : ∀ event ∈ later, ¬Interrupts n event)
    (hexec : (serverMachine codec cmdPrefix routines first sameLetter secrets mode rate
      clock).exec s later = some s') (hd : Decided codec m.request s.client.send n f response) :
    s'.made[n]? = some m ∧ Decided codec m.request s'.client.send n f response := by
  induction later generalizing s events with
  | nil =>
      cases hexec
      exact ⟨hmade, hd⟩
  | cons event later ih =>
      rw [Machine.exec, Option.bind_eq_some_iff] at hexec
      obtain ⟨t, hstep, hrest⟩ := hexec
      obtain ⟨hmade', hd'⟩ := decided_of_serverStep h hmade
        (hnot event List.mem_cons_self) hstep hd
      exact ih (h.snoc trivial hstep) hmade' (fun e he => hnot e (List.mem_cons_of_mem _ he))
        hrest hd'

/-! ## What a call reports -/

/-- The outcome that a call of a write tool reports, of the response to its
write. -/
def outcomeFor (response : Response) : String :=
  if response.status = 200 ∧ response.content = none then "acknowledged" else "unknown"

/-- A write returns of a status 200 with no content, and raises a
communication error of any other response. -/
theorem outcomeOf_put {target : Target} {fields : WriteBody} {transactionId : ℤ}
    {text : String} {write : UsageWrite} {sentAt : DateTime} :
    ∃ report, phaseAfter text write sentAt
        (ClientRequest.outcomeOf codec ⟨putRequest target fields transactionId, .ok⟩ response) =
      .reported report ∧ report.outcome = outcomeFor response := by
  unfold ClientRequest.outcomeOf ClientRequest.parseResponse outcomeFor
  by_cases hok : response.status = 200 ∧ response.content = none
  · have hparse : ResponseType.init codec .ok response = .ok (.ok response) := by
      simp [ResponseType.init, okResponse, hok.1, hok.2, statusCodeOk, Except.map]
    simp only [hparse, phaseAfter, if_pos hok]
    exact ⟨_, rfl, rfl⟩
  · have hfails : response.status ≠ statusCodeOk ∨ response.content ≠ none := by
      rw [not_and_or] at hok
      exact hok
    have hparse : ResponseType.init codec .ok response =
        .error (unexpectedStatus response.status) := by
      simp only [ResponseType.init, okResponse, if_pos hfails, Except.map]
    have hwait : (waitError (unexpectedStatus response.status)).isCommunication = true := by
      unfold waitError
      split
      · rfl
      · exact isCommunication_of_okResponse hparse
    simp only [hparse, phaseAfter, if_pos hwait, if_neg hok]
    exact ⟨_, rfl, rfl⟩

/-- A call reports by the response that its send ended with. -/
theorem reported_of_ended (hinv : ServerInv first s) (hmade : s.made[n]? = some m)
    (hmaker : m.maker = some k)
    (hended : s.client.send.calls n = .ended f (ClientRequest.outcomeOf codec m.request response)) :
    ∃ report, s.calls.calls k = .reported report ∧ report.outcome = outcomeFor response := by
  have hmaker' : s.maker? n = some k := by
    rw [ServerState.maker?, hmade]
    exact hmaker
  have houtcome : (s.client.send.calls n).outcome? =
      some (ClientRequest.outcomeOf codec m.request response) := by
    rw [hended]
    rfl
  generalize hphase : s.calls.calls k = phase
  -- the request of the call is the one whose send ended
  cases hphase ▸ hinv.phases k with
  | unsent _ _ hidle =>
      rw [hidle n hmaker'] at hended
      cases hended
  | sending n' target write sentAt hmade' hnone =>
      obtain rfl := hinv.one n' n k hmade'.maker hmaker'
      rw [hnone] at houtcome
      cases houtcome
  | ended n' text write sentAt outcome hmade' hended' =>
      obtain rfl := hinv.one n' n k hmade'.maker hmaker'
      obtain rfl := Option.some.inj (hended'.symm.trans houtcome)
      obtain ⟨target, -, hput⟩ := hmade'
      obtain rfl := Option.some.inj (hmade.symm.trans hput)
      exact outcomeOf_put

/-- A send that waits for a future that holds a response can go on, and ends
with what that is parsed into. -/
theorem exists_resume (hmade : s.made[n]? = some m)
    (hd : Decided codec m.request s.client.send n f response)
    (hcall : s.client.send.calls n = .waiting f) : ∃ s',
    serverStep codec cmdPrefix routines first sameLetter secrets mode s
      (.client (.send (.resume n))) = some s' ∧
    s'.client.send.calls n = .ended f (ClientRequest.outcomeOf codec m.request response) := by
  have houtcome : s.client.send.outcomeOf codec (s.requests first) n =
      some (ClientRequest.outcomeOf codec (s.requests first n) response) :=
    outcomeOf_of_result hcall hd.store
  have hstep : ∃ t, taskStep codec cmdPrefix (s.requests first) s.client.send (.resume n) =
      some t := by
    simp [taskStep, isTaskEvent, sendStep, hcall, Call.awaits?, houtcome]
  obtain ⟨t, ht⟩ := hstep
  have hclient : ∃ s', s.stepClient codec cmdPrefix routines first (.send (.resume n)) =
      some s' := by
    simp [ServerState.stepClient, clientStep, ht]
  obtain ⟨s', hs'⟩ := hclient
  refine ⟨s', hs', ?_⟩
  obtain ⟨u, hu, hsend⟩ := Option.map_eq_some_iff.1 (client_of_stepClient hs')
  have hmade' : s'.made[n]? = some m := by rwa [(made_of_stepClient hs').1]
  rw [← requests_of_made hmade', ← hsend]
  exact calls_of_sendStep_of_waiting (taskStep_eq_some.1 hu).2 hcall hd.store rfl (by simp)
    (by simp)

/-- A response read decides what the send that waits for it ends with. -/
theorem decided_of_readResponse
    (h : (serverMachine codec cmdPrefix routines first sameLetter secrets mode rate clock).Run
      Machine.Free events s) (hmade : s.made[n]? = some m)
    (hcall : s.client.send.calls n = .waiting f)
    (hwait : s.client.send.pending.store f = .waiting)
    (htransacId : response.transacId = .ok (some (first + n)))
    (hstep : serverStep codec cmdPrefix routines first sameLetter secrets mode s
      (.client (.send (.readResponse response))) = some s') :
    s'.made[n]? = some m ∧ Decided codec m.request s'.client.send n f response := by
  obtain ⟨hs, -⟩ := sendInv_of_run h
  have hget := get?_of_waiting hs (idOf_requests (serverInv_of_run h) n) hcall hwait
  have hstore := store_readResponse htransacId hget hwait
  have hstep' : s.stepClient codec cmdPrefix routines first
      (.send (.readResponse response)) = some s' := by
    simpa [serverStep, ServerState.allows] using hstep
  have hread : taskStep codec cmdPrefix (s'.requests first) s.client.send
      (.readResponse response) = some (s.client.send.readResponse response) := rfl
  have hclient := client_of_stepClient hstep'
  rw [clientStep, hread] at hclient
  have hsend : s'.client.send = s.client.send.readResponse response := by
    rw [← Option.some.inj hclient]
  refine ⟨by rwa [(made_of_stepClient hstep').1], ?_, .inl ?_⟩
  · rw [hsend]
    exact hstore
  · rw [hsend, SendState.readResponse_calls]
    exact hcall

/-- **A response decides the report.** Once the response to the write of a
call is read while its send waits for it, whatever the server, the Tydom and
the other calls do next, unless the send is interrupted: the call has reported
by that response, or its send resumes and it does. -/
theorem response_decides
    (h : (serverMachine codec cmdPrefix routines first sameLetter secrets mode rate clock).Run
      Machine.Free events s) (hmaker : s.maker? n = some k)
    (hcall : s.client.send.calls n = .waiting f)
    (hwait : s.client.send.pending.store f = .waiting)
    (htransacId : response.transacId = .ok (some (first + n)))
    (hexec : (serverMachine codec cmdPrefix routines first sameLetter secrets mode rate clock).exec
      s (.client (.send (.readResponse response)) :: later) = some s')
    (hnot : ∀ event ∈ later, ¬Interrupts n event) :
    (∃ report, s'.calls.calls k = .reported report ∧ report.outcome = outcomeFor response) ∨
      ∃ t report, serverStep codec cmdPrefix routines first sameLetter secrets mode s'
        (.client (.send (.resume n))) = some t ∧
        t.calls.calls k = .reported report ∧ report.outcome = outcomeFor response := by
  obtain ⟨request, hmade⟩ := maker?_eq_some.1 hmaker
  have hrun' := h.exec hexec
  rw [Machine.exec, Option.bind_eq_some_iff] at hexec
  obtain ⟨t, hread, hlater⟩ := hexec
  obtain ⟨hmadeT, hdT⟩ := decided_of_readResponse h hmade hcall hwait htransacId hread
  obtain ⟨hmade', hd⟩ :=
    decided_of_serverExec (h.snoc trivial hread) hmadeT hnot hlater hdT
  rcases hd.call with hwaits | hended
  · obtain ⟨u, hresume, hended⟩ := exists_resume hmade' hd hwaits
    have hmove := serverMove_of_step hresume
    have hinv := serverInv_of_move (serverInv_of_run hrun') hmove
    obtain ⟨report, hreport⟩ := reported_of_ended hinv (made_of_move hmove hmade') rfl hended
    exact .inr ⟨u, report, hresume, hreport⟩
  · exact .inl (reported_of_ended (serverInv_of_run hrun') hmade' rfl hended)

/-- A shutter opened by half, up to the wait for the response: the send of the
call is the second. -/
def waitingRun : List ServerEvent := acknowledgedRun.take 8

/-- The response of the Tydom to the second request. -/
def secondResponse (status : ℕ) : Response := ⟨status, Dict.ofList [("transac-id", "1")], none⟩

/-- A second response that refuses the write comes too late. -/
theorem response_decides_tooLate : ∃ s s',
    shutterServer.Run Machine.Free waitingRun s ∧
    shutterServer.exec s [.client (.send (.readResponse (secondResponse 200))),
      .client (.send (.readResponse (secondResponse 400)))] = some s' ∧
    ((∃ report, s'.calls.calls 0 = .reported report ∧ report.outcome = "acknowledged") ∨
      ∃ t report, shutterServer.step s' (.client (.send (.resume 1))) = some t ∧
        t.calls.calls 0 = .reported report ∧ report.outcome = "acknowledged") := by
  let late : List ServerEvent := [.client (.send (.readResponse (secondResponse 400)))]
  have hexec : (shutterServer.exec shutterServer.init waitingRun).bind (fun s =>
      (shutterServer.exec s (.client (.send (.readResponse (secondResponse 200))) :: late)).map
        fun _ => (s.maker? 1, s.client.send.calls 1, s.client.send.pending.store 1)) =
      some (some 0, .waiting 1, .waiting) := by decide +kernel
  obtain ⟨s, hs, hrest⟩ := Option.bind_eq_some_iff.1 hexec
  obtain ⟨s', hs', hwaits⟩ := Option.map_eq_some_iff.1 hrest
  simp only [Prod.mk.injEq] at hwaits
  obtain ⟨hmaker, hcall, hwait⟩ := hwaits
  refine ⟨s, s', Machine.run_of_exec hs, hs', ?_⟩
  have htransacId : (secondResponse 200).transacId = .ok (some (0 + ((1 : ℕ) : ℤ))) := by decide
  have hdecides := response_decides (Machine.run_of_exec hs) hmaker hcall hwait htransacId hs'
    (by simp [late, Interrupts])
  have houtcome : outcomeFor (secondResponse 200) = "acknowledged" := by decide
  rwa [houtcome] at hdecides

end Runs

end Mcp

end Tydomio
