import Tydomio.Client.Lifecycle

/-!
# What a step of the client leaves of the calls

A step moves one call of `send` at most, and reads the request of that call
only: a call that has not started is free to be given its request later. A
call that ended stays as it ended, and one that waits is on the wire.
-/

namespace Tydomio

open Common Protocol

namespace Client

variable {codec : Codec} {cmdPrefix : Bytes} {requests requests' : ℕ → ClientRequest}
variable {routines : ℕ} {c c' f : ℕ}

/-! ## The requests a step reads -/

section Requests

variable {s : SendState}

theorem start_congr (h : requests c = requests' c) :
    s.start cmdPrefix requests c = s.start cmdPrefix requests' c := by
  simp only [SendState.start, SendState.abandon, idOf, h]

theorem abandon_congr (h : requests c = requests' c) :
    s.abandon requests c f = s.abandon requests' c f := by
  simp only [SendState.abandon, idOf, h]

/-- **A step reads the request of the call it moves**, which has started or
starts. -/
theorem sendStep_congr {event : SendEvent}
    (h : ∀ c, event.call? = some c → (s.calls c ≠ .idle ∨ event = .start c) →
      requests c = requests' c) :
    sendStep codec cmdPrefix requests s event = sendStep codec cmdPrefix requests' s event := by
  cases event with
  | start c =>
      have hc := h c rfl (.inr rfl)
      simp only [sendStep, start_congr hc]
  | written c | cancel c | timeout c | readResponse r | flush e | setWebsocket w => rfl
  | writeRaises c e =>
      cases hcall : s.calls c with
      | writing f =>
          have hc := h c rfl (.inl (by simp [hcall]))
          simp only [sendStep, hcall, abandon_congr hc]
      | _ => simp only [sendStep, hcall]
  | resume c =>
      by_cases hidle : s.calls c = .idle
      · simp only [sendStep, hidle, Call.awaits?]
      · have hc := h c rfl (.inl hidle)
        simp only [sendStep, SendState.outcomeOf, abandon_congr hc, hc]

theorem taskStep_congr {event : SendEvent}
    (h : ∀ c, event.call? = some c → (s.calls c ≠ .idle ∨ event = .start c) →
      requests c = requests' c) :
    taskStep codec cmdPrefix requests s event = taskStep codec cmdPrefix requests' s event := by
  unfold taskStep
  rw [sendStep_congr h]

theorem clientStep_congr {s : ClientState} {event : ClientEvent}
    (h : ∀ c, event.call? = some c → (s.send.calls c ≠ .idle ∨ event = .send (.start c)) →
      requests c = requests' c) :
    clientStep codec cmdPrefix requests routines s event =
      clientStep codec cmdPrefix requests' routines s event := by
  cases event with
  | send event =>
      have htask : taskStep codec cmdPrefix requests s.send event =
          taskStep codec cmdPrefix requests' s.send event := by
        refine taskStep_congr fun c hcall hstarts => h c hcall ?_
        exact hstarts.imp id (congrArg ClientEvent.send)
      simp only [clientStep, htask]
  | _ => rfl

end Requests

/-! ## The calls a step moves -/

section Moves

variable {s s' : SendState}

theorem calls_of_sendStep_of_ne {event : SendEvent}
    (h : sendStep codec cmdPrefix requests s event = some s') (hne : event.call? ≠ some c) :
    s'.calls c = s.calls c := by
  have hother : ∀ {c₀ : ℕ}, some c₀ ≠ some c → c ≠ c₀ := fun h hc => h (congrArg some hc.symm)
  cases event with
  | start c₀ =>
      simp only [sendStep] at h
      split at h <;> cases h
      generalize hstart : s.start cmdPrefix requests c₀ = t
      cases (hstart ▸ startCase_start : StartCase requests s c₀ t) with
      | refuse | unwritable | write => simp [hother hne]
  | written c₀ =>
      simp only [sendStep] at h
      split at h <;> cases h
      simp [hother hne]
  | writeRaises c₀ e =>
      simp only [sendStep] at h
      split at h <;> cases h
      simp [hother hne]
  | resume c₀ =>
      simp only [sendStep] at h
      split at h <;> cases h
      simp [hother hne]
  | cancel c₀ =>
      simp only [sendStep] at h
      split at h <;> cases h <;> simp [hother hne]
  | timeout c₀ =>
      simp only [sendStep] at h
      split at h <;> cases h
      simp [hother hne]
  | readResponse response =>
      cases h
      rw [SendState.readResponse_calls]
  | flush | setWebsocket =>
      cases h
      rfl

/-- Only its start moves a call that is idle. -/
theorem sendStep_of_idle {event : SendEvent} (hidle : s.calls c = .idle)
    (hcall : event.call? = some c) (hne : event ≠ .start c) :
    sendStep codec cmdPrefix requests s event = none := by
  cases event with
  | start c₀ =>
      obtain rfl := Option.some.inj hcall
      exact absurd rfl hne
  | written c₀ | writeRaises c₀ e | resume c₀ | cancel c₀ | timeout c₀ =>
      obtain rfl := Option.some.inj hcall
      simp only [sendStep, hidle, Call.awaits?]
  | readResponse | flush | setWebsocket => cases hcall

end Moves

section Client

variable {s s' : ClientState} {event : ClientEvent}

theorem calls_leave (t : ClientState) (errors : List Exc) (retry : Bool) :
    (t.leave errors retry).send.calls = t.send.calls := by
  unfold ClientState.leave
  dsimp only
  split <;> rfl

/-- **A step leaves the other calls as they are.** -/
theorem calls_of_step_of_ne
    (h : clientStep codec cmdPrefix requests routines s event = some s')
    (hne : event.call? ≠ some c) : s'.send.calls c = s.send.calls c := by
  cases clientMove_of_step h with
  | between | connected | opened | routinesRaise | closeReturns | closeRaises => rfl
  | openFails => rw [calls_leave]; rfl
  | openRaises errors => rw [calls_leave]
  | exits errors => rw [calls_leave]
  | routinesEnd errors exiting retry =>
      unfold ClientState.close
      split <;> rfl
  | send event t ht => exact calls_of_sendStep_of_ne (taskStep_eq_some.1 ht).2 hne

/-- A call that is idle stays so unless it starts. -/
theorem idle_of_step (h : clientStep codec cmdPrefix requests routines s event = some s')
    (hidle : s.send.calls c = .idle) (hne : event ≠ .send (.start c)) :
    s'.send.calls c = .idle := by
  by_cases hcall : event.call? = some c
  · cases event with
    | send event =>
        have hstart : event ≠ .start c := fun heq => hne (congrArg ClientEvent.send heq)
        obtain ⟨t, ht, -⟩ := Option.map_eq_some_iff.1 h
        have hstep := (taskStep_eq_some.1 ht).2
        rw [sendStep_of_idle hidle hcall hstart] at hstep
        cases hstep
    | _ => cases hcall
  · exact (calls_of_step_of_ne h hcall).trans hidle

theorem calls_of_exec_of_ended {s s' : SendState} {events : List SendEvent}
    (h : (sendMachine codec cmdPrefix requests).exec s events = some s')
    (hended : (s.calls c).outcome?.isSome = true) : s'.calls c = s.calls c := by
  induction events generalizing s with
  | nil =>
      cases h
      rfl
  | cons event events ih =>
      rw [Machine.exec, Option.bind_eq_some_iff] at h
      obtain ⟨m, hstep, hrest⟩ := h
      have hkept := call_of_move_of_ended (sendMove_of_step hstep) hended
      exact (ih hrest (hkept.symm ▸ hended)).trans hkept

/-- **A call that ended stays as it ended.** -/
theorem calls_of_step_of_ended
    (h : clientStep codec cmdPrefix requests routines s event = some s')
    (hended : (s.send.calls c).outcome?.isSome = true) : s'.send.calls c = s.send.calls c := by
  obtain ⟨ks, hks⟩ := exec_of_step h
  exact calls_of_exec_of_ended hks hended

theorem idle_of_exec {s s' : SendState} {events : List SendEvent}
    (h : (sendMachine codec cmdPrefix requests).exec s events = some s')
    (hidle : s'.calls c = .idle) : s.calls c = .idle := by
  induction events generalizing s with
  | nil =>
      cases h
      exact hidle
  | cons event events ih =>
      rw [Machine.exec, Option.bind_eq_some_iff] at h
      obtain ⟨m, hstep, hrest⟩ := h
      exact idle_of_move (sendMove_of_step hstep) (ih hrest)

/-- A call that has started stays so. -/
theorem started_of_step (h : clientStep codec cmdPrefix requests routines s event = some s')
    (hstarted : s.send.calls c ≠ .idle) : s'.send.calls c ≠ .idle := by
  obtain ⟨ks, hks⟩ := exec_of_step h
  exact fun hidle => hstarted (idle_of_exec hks hidle)

end Client

/-! ## Ids of their own -/

/-- Where each request has an id of its own, that of a call that has not
started is not pending. -/
theorem contains_eq_false {s : SendState} {id : ℤ} (hs : SendInv requests s)
    (hids : ∀ c c', idOf requests c = idOf requests c' → c = c') (hidle : s.calls c = .idle)
    (hid : idOf requests c = some id) : s.pending.contains id = false := by
  cases hget : s.pending.futures.get? id with
  | none => simp [PendingRequests.contains, Dict.contains, hget]
  | some f =>
      obtain ⟨c', hne, hid', -⟩ := hs.entry_ne_of_idle hget hidle
      exact absurd (hids c' c (hid'.trans hid.symm)) hne

/-! ## What is on the wire -/

/-- The call was in its write and did not end there. -/
def Call.wrote : Call → Bool
  | writing _ | waiting _ | interrupted _ _ | ended _ _ => true
  | _ => false

theorem Call.wrote_of_awaits? {call : Call} (h : call.awaits? = some f) : call.wrote = true := by
  cases call <;> simp_all [awaits?, wrote]

/-- **A call that goes on from its write is on the wire.** -/
theorem onWire_of_move {s s' : SendState}
    (hw : ∀ c, (s.calls c).wrote = true → c ∈ s.history.wire.map Prod.fst)
    (hm : SendMove codec requests s s') (hc : (s'.calls c).wrote = true) :
    c ∈ s'.history.wire.map Prod.fst := by
  cases hm with
  | refuse c₀ e hidle =>
      rw [SendState.refuse_calls] at hc
      split at hc
      · cases hc
      · exact hw c hc
  | unwritable c₀ id e hidle =>
      simp only [SendState.abandon_calls, SendState.setCall_calls, SendState.register_calls] at hc
      split at hc
      · cases hc
      · simpa [SendState.register] using hw c hc
  | write c₀ w id hidle =>
      simp only [SendState.putOnWire_calls, SendState.setCall_calls, SendState.register_calls] at hc
      simp only [SendState.putOnWire, SendState.setCall_history, SendState.register,
        List.map_append, List.mem_append, List.map_singleton, List.mem_singleton]
      split at hc
      · exact .inr ‹_›
      · exact .inl (hw c hc)
  | written c₀ g hwriting =>
      rw [SendState.setCall_calls] at hc
      split at hc
      · rename_i heq
        exact hw c (by rw [heq, hwriting]; rfl)
      · exact hw c hc
  | writeRaises c₀ g e hwriting =>
      simp only [SendState.abandon_calls, SendState.setCall_calls] at hc
      rw [SendState.abandon_history]
      split at hc
      · cases hc
      · exact hw c hc
  | finish c₀ g outcome hawaits =>
      simp only [SendState.abandon_calls, SendState.setCall_calls] at hc
      rw [SendState.abandon_history]
      split at hc
      · rename_i heq
        exact hw c (heq ▸ Call.wrote_of_awaits? hawaits)
      · exact hw c hc
  | interrupt c₀ g e hawaits =>
      rw [SendState.interrupt_calls] at hc
      split at hc
      · rename_i heq
        exact hw c (heq ▸ Call.wrote_of_awaits? hawaits)
      · exact hw c hc
  | readResponse response =>
      rw [SendState.readResponse_calls] at hc
      rw [SendState.readResponse_wire]
      exact hw c hc
  | flush | setWebsocket => exact hw c hc

theorem onWire_of_run {events : List SendEvent} {s : SendState}
    (h : (sendMachine codec cmdPrefix requests).Run Machine.Free events s)
    (hc : (s.calls c).wrote = true) : c ∈ s.history.wire.map Prod.fst := by
  refine h.invariant (I := fun s => ∀ c, (s.calls c).wrote = true →
    c ∈ s.history.wire.map Prod.fst) nofun ?_ c hc
  intro s event s' hs _ hstep c hc
  exact onWire_of_move hs (sendMove_of_step hstep) hc

/-! ## How a send fails -/

/-- **The errors on their way**: a future is failed by a lost connection, and
a wait is ended by a cancellation or a timeout. -/
structure ErrorInv (s : SendState) : Prop where
  exception : ∀ f e, s.pending.store f = .exception e → e.isCommunication = true
  interrupted : ∀ c f e, s.calls c = .interrupted f e → e = .cancelledError ∨ e = .timeoutError

theorem errorInv_init : ErrorInv .init := ⟨nofun, nofun⟩

section Errors

variable {s s' : SendState}

/-- A call that moves otherwise than by an interruption. -/
theorem ErrorInv.moved (hs : ErrorInv s) (hstore : ∀ f e, s'.pending.store f = .exception e →
      s.pending.store f = .exception e)
    (hcalls : ∀ c f e, s'.calls c = .interrupted f e → s.calls c = .interrupted f e) :
    ErrorInv s' :=
  ⟨fun f e h => hs.exception f e (hstore f e h),
    fun c f e h => hs.interrupted c f e (hcalls c f e h)⟩

theorem ErrorInv.interrupt (hs : ErrorInv s) {e : Exc}
    (he : e = .cancelledError ∨ e = .timeoutError) : ErrorInv (s.interrupt c f e) where
  exception g e' h := by
    rw [SendState.interrupt_pending, PendingRequests.cancel_store] at h
    split at h
    · cases h
    · exact hs.exception g e' h
  interrupted c' g e' h := by
    rw [SendState.interrupt_calls] at h
    split at h
    · cases h
      exact he
    · exact hs.interrupted c' g e' h

/-- A registered future waits. -/
theorem exception_of_register {id : ℤ} {e : Exc}
    (h : (s.pending.register id).store f = .exception e) : s.pending.store f = .exception e := by
  by_cases hf : f = s.pending.next
  · rw [hf, PendingRequests.register_store_self] at h
    cases h
  · rwa [PendingRequests.register_store_of_ne hf] at h

theorem errorInv_start (hs : ErrorInv s) : ErrorInv (s.start cmdPrefix requests c) := by
  generalize hstart : s.start cmdPrefix requests c = t
  cases (hstart ▸ startCase_start : StartCase requests s c t) with
  | refuse e =>
      refine hs.moved (fun f e h => h) fun c' f e h => ?_
      rw [SendState.refuse_calls] at h
      split at h
      · cases h
      · exact h
  | unwritable id w e =>
      refine hs.moved (fun f e h => exception_of_register (by simpa using h)) fun c' f e h => ?_
      simp only [SendState.abandon_calls, SendState.setCall_calls, SendState.register_calls] at h
      split at h
      · cases h
      · exact h
  | write id w =>
      refine hs.moved (fun f e h => exception_of_register (by simpa using h)) fun c' f e h => ?_
      simp only [SendState.putOnWire_calls, SendState.setCall_calls, SendState.register_calls] at h
      split at h
      · cases h
      · exact h

theorem ErrorInv.flush (hs : ErrorInv s) {e : Exc} (he : e.isCommunication = true) :
    ErrorInv { s with pending := s.pending.flush e } where
  exception f e' h := by
    rw [PendingRequests.flush_store] at h
    split at h
    · cases h
      exact he
    · exact hs.exception f e' h
  interrupted := hs.interrupted

theorem errorInv_of_sendStep {event : SendEvent} (hs : ErrorInv s)
    (htask : isTaskEvent event = true)
    (h : sendStep codec cmdPrefix requests s event = some s') : ErrorInv s' := by
  cases event with
  | flush | setWebsocket => cases htask
  | start c =>
      simp only [sendStep] at h
      split at h <;> cases h
      exact errorInv_start hs
  | written c =>
      simp only [sendStep] at h
      split at h <;> cases h
      refine hs.moved (fun f e h => h) fun c' f e h => ?_
      rw [SendState.setCall_calls] at h
      split at h
      · cases h
      · exact h
  | writeRaises c e =>
      simp only [sendStep] at h
      split at h <;> cases h
      refine hs.moved (fun f e h => by simpa using h) fun c' f e h => ?_
      simp only [SendState.abandon_calls, SendState.setCall_calls] at h
      split at h
      · cases h
      · exact h
  | resume c =>
      simp only [sendStep] at h
      split at h <;> cases h
      refine hs.moved (fun f e h => by simpa using h) fun c' f e h => ?_
      simp only [SendState.abandon_calls, SendState.setCall_calls] at h
      split at h
      · cases h
      · exact h
  | cancel c =>
      simp only [sendStep] at h
      split at h <;> cases h <;> exact hs.interrupt (.inl rfl)
  | timeout c =>
      simp only [sendStep] at h
      split at h <;> cases h
      exact hs.interrupt (.inr rfl)
  | readResponse response =>
      cases h
      refine hs.moved (fun f e h => ?_) fun c f e h => by rwa [SendState.readResponse_calls] at h
      rcases SendState.readResponse_cases s response with ⟨id, g, ht⟩ | hd
      · rw [ht.store, Function.update_apply] at h
        split at h
        · cases h
        · exact h
      · rwa [hd.store] at h

end Errors

section Fails

variable {s s' : ClientState} {event : ClientEvent}

theorem errorInv_leave {t : ClientState} {errors : List Exc} {retry : Bool}
    (ht : ErrorInv t.send) : ErrorInv (t.leave errors retry).send := by
  unfold ClientState.leave
  dsimp only
  split
  · exact ht.flush rfl
  · exact ht

/-- The client fails the futures of a connection it lost, and no others. -/
theorem errorInv_of_step (hs : ErrorInv s.send)
    (h : clientStep codec cmdPrefix requests routines s event = some s') : ErrorInv s'.send := by
  cases clientMove_of_step h with
  | between | connected | opened | routinesRaise | closeReturns | closeRaises =>
      exact ⟨hs.exception, hs.interrupted⟩
  | openFails => exact errorInv_leave ⟨hs.exception, hs.interrupted⟩
  | openRaises errors => exact errorInv_leave hs
  | exits errors => exact errorInv_leave hs
  | routinesEnd errors exiting retry =>
      unfold ClientState.close
      split <;> exact hs
  | send event t ht =>
      obtain ⟨htask, hstep⟩ := taskStep_eq_some.1 ht
      exact errorInv_of_sendStep hs htask hstep

/-- What a send that resumes at its future raises. -/
theorem raised_of_outcomeOf {t : SendState} {e : Exc} (ht : ErrorInv t)
    (hparse : ∀ r e, (requests c).parseResponse codec r = .error e → e.isCommunication = true)
    (h : t.outcomeOf codec requests c = some (.raised e)) :
    e.isCommunication = true ∨ e = .cancelledError := by
  have hwait : ∀ e : Exc, e.isCommunication = true → (waitError e).isCommunication = true := by
    intro e he
    unfold waitError
    split
    · rfl
    · exact he
  unfold SendState.outcomeOf at h
  split at h
  · split at h
    · cases h
    · split at h
      · cases h
      · rename_i e' herror
        cases h
        exact .inl (hwait e' (hparse _ e' herror))
    · rename_i e' hexception
      cases h
      exact .inl (hwait e' (ht.exception _ e' hexception))
    · cases h
      exact .inr rfl
  · rename_i f e' hcall
    cases h
    rcases ht.interrupted c f e' hcall with rfl | rfl
    · exact .inr rfl
    · exact .inl rfl
  · cases h

variable (hs : SendInv requests s.send)
  (hids : ∀ c c', idOf requests c = idOf requests c' → c = c')
  {id : ℤ} (hid : idOf requests c = some id) {bytes : Bytes}
  (hbytes : (requests c).request.toBytes cmdPrefix = .ok bytes)
include hs hids hid hbytes

/-- A call that starts is refused where there is no connection, and goes on
the wire otherwise. -/
theorem start_of_idle (hidle : s.send.calls c = .idle) :
    s.send.start cmdPrefix requests c = s.send.refuse c (.communicationError "Not connected") ∨
    ∃ w, s.send.websocket = some w ∧ s.send.start cmdPrefix requests c =
      ((s.send.register id).setCall c (.writing s.send.pending.next)).putOnWire c w := by
  unfold SendState.start
  rw [hid]
  dsimp only
  rw [if_neg (by rw [contains_eq_false hs hids hidle hid]; exact Bool.false_ne_true)]
  cases hw : s.send.websocket with
  | none => exact .inl rfl
  | some w =>
      refine .inr ⟨w, rfl, ?_⟩
      dsimp only
      rw [hbytes]

/-- A call that starts and ends in the same step was refused. -/
theorem raised_of_start {t : SendState} {e : Exc}
    (h : sendStep codec cmdPrefix requests s.send (.start c) = some t)
    (hafter : (t.calls c).outcome? = some (.raised e)) : e.isCommunication = true := by
  obtain ⟨hidle, rfl⟩ := idle_of_start h
  rcases start_of_idle hs hids hid hbytes hidle with heq | ⟨w, -, heq⟩
  · rw [heq] at hafter
    simp only [SendState.refuse_calls, if_pos, Call.outcome?, Option.some.injEq,
      Outcome.raised.injEq] at hafter
    exact hafter ▸ rfl
  · rw [heq] at hafter
    simp [Call.outcome?] at hafter

/-- **How a send fails**, where its request has an id of its own and bytes:
with a communication error, a cancellation, or what the write on the
websocket raised. -/
theorem raised_of_step {e : Exc} (he : ErrorInv s.send)
    (hparse : ∀ r e, (requests c).parseResponse codec r = .error e → e.isCommunication = true)
    (h : clientStep codec cmdPrefix requests routines s event = some s')
    (hbefore : (s.send.calls c).outcome? = none)
    (hafter : (s'.send.calls c).outcome? = some (.raised e)) :
    e.isCommunication = true ∨ e = .cancelledError ∨ event = .send (.writeRaises c e) := by
  by_cases hcall : event.call? = some c
  · cases event with
    | send event =>
        obtain ⟨t, ht, rfl⟩ := Option.map_eq_some_iff.1 h
        have hstep := (taskStep_eq_some.1 ht).2
        cases event with
        | start c₀ =>
            obtain rfl := Option.some.inj hcall
            exact .inl (raised_of_start hs hids hid hbytes hstep hafter)
        | writeRaises c₀ e₀ =>
            obtain rfl := Option.some.inj hcall
            simp only [sendStep] at hstep
            split at hstep <;> cases hstep
            simp only [SendState.abandon_calls, SendState.setCall_calls, if_pos, Call.outcome?,
              Option.some.injEq, Outcome.raised.injEq] at hafter
            unfold writeError at hafter
            split at hafter
            · exact .inl (hafter ▸ rfl)
            · exact .inr (.inr (by rw [hafter]))
        | resume c₀ =>
            obtain rfl := Option.some.inj hcall
            simp only [sendStep] at hstep
            split at hstep
            · rename_i f outcome hawaits hout
              cases hstep
              simp only [SendState.abandon_calls, SendState.setCall_calls, if_pos, Call.outcome?,
                Option.some.injEq] at hafter
              rw [hafter] at hout
              exact (raised_of_outcomeOf he hparse hout).imp_right .inl
            · cases hstep
        | written c₀ | cancel c₀ | timeout c₀ =>
            obtain rfl := Option.some.inj hcall
            simp only [sendStep] at hstep
            split at hstep <;> cases hstep <;>
              simp [Call.outcome?, SendState.interrupt_calls] at hafter
        | readResponse | flush | setWebsocket => cases hcall
    | _ => cases hcall
  · rw [calls_of_step_of_ne h hcall, hbefore] at hafter
    cases hafter

end Fails

end Client

end Tydomio
