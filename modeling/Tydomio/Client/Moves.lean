import Tydomio.Client.Model.Send
import Tydomio.Client.Pending

/-!
# What a step of `send` can do

One lemma for each field an operation of `send` changes, then the step
itself: `SendMove` says once what it does to the state, `CallMove` what it
does to a call. The invariants are proved of these.
-/

namespace Tydomio

open Common Protocol

namespace Client

variable {codec : Codec} {cmdPrefix : Bytes} {requests : ℕ → ClientRequest}
variable {s s' : SendState} {c c' f f' : ℕ}

/-- The future a call still uses is the one it registered. -/
theorem Call.future?_of_active? {call : Call} (h : call.active? = some f) :
    call.future? = some f := by
  cases call <;> simp_all [active?, future?]

/-- A call is suspended at the future it uses. -/
theorem Call.active?_of_awaits? {call : Call} (h : call.awaits? = some f) :
    call.active? = some f := by
  cases call <;> simp_all [active?, awaits?]

/-- A call that is suspended has not ended. -/
theorem Call.outcome?_of_awaits? {call : Call} (h : call.awaits? = some f) :
    call.outcome? = none := by
  cases call <;> simp_all [outcome?, awaits?]

/-! ## What the operations change -/

namespace SendState

variable {call : Call} {id id' : ℤ} {w : ℕ} {e : Exc}

/-! Setting a call moves that call alone; a future made or a request put on
the wire moves no call. -/

@[simp] theorem setCall_calls :
    (s.setCall c call).calls c' = if c' = c then call else s.calls c' :=
  Function.update_apply ..

@[simp] theorem setCall_pending : (s.setCall c call).pending = s.pending := rfl

@[simp] theorem setCall_history : (s.setCall c call).history = s.history := rfl

@[simp] theorem refuse_calls :
    (s.refuse c e).calls c' = if c' = c then .refused e else s.calls c' :=
  setCall_calls

@[simp] theorem refuse_pending : (s.refuse c e).pending = s.pending := rfl

@[simp] theorem refuse_history : (s.refuse c e).history = s.history := rfl

@[simp] theorem register_calls : (s.register id).calls = s.calls := rfl

@[simp] theorem register_pending : (s.register id).pending = s.pending.register id := rfl

@[simp] theorem putOnWire_calls : (s.putOnWire c w).calls = s.calls := rfl

@[simp] theorem putOnWire_pending : (s.putOnWire c w).pending = s.pending := rfl

/-! Abandoning a future touches its entry only: the futures themselves stay
as they are. -/

@[simp] theorem abandon_calls : (s.abandon requests c f).calls = s.calls := by
  unfold abandon; split <;> rfl

@[simp] theorem abandon_history : (s.abandon requests c f).history = s.history := by
  unfold abandon; split <;> rfl

@[simp] theorem abandon_store : (s.abandon requests c f).pending.store = s.pending.store := by
  unfold abandon; split <;> simp

@[simp] theorem abandon_next : (s.abandon requests c f).pending.next = s.pending.next := by
  unfold abandon; split <;> simp

/-- A call ends: its own entry goes, if it is still there. -/
theorem abandon_get? :
    (s.abandon requests c f).pending.futures.get? id =
      if idOf requests c = some id ∧ s.pending.futures.get? id = some f then none
      else s.pending.futures.get? id := by
  unfold abandon
  split
  · rename_i hid
    simp [hid]
  · rename_i id' hid
    rw [hid, PendingRequests.abandon_get?]
    by_cases h : id = id'
    · rw [h]; simp
    · rw [if_neg fun hc => h hc.1, if_neg fun hc => h (Option.some.inj hc.1).symm]

/-- The entries left are all the others. -/
theorem abandon_get?_eq_some {g : ℕ} :
    (s.abandon requests c f).pending.futures.get? id = some g ↔
      s.pending.futures.get? id = some g ∧ ¬ (idOf requests c = some id ∧ g = f) := by
  rw [abandon_get?]
  by_cases hown : idOf requests c = some id ∧ s.pending.futures.get? id = some f
  · rw [if_pos hown]
    refine iff_of_false nofun fun ⟨hg, hne⟩ => hne ⟨hown.1, ?_⟩
    exact Option.some.inj (hg.symm.trans hown.2)
  · rw [if_neg hown]
    exact ⟨fun h => ⟨h, fun hg => hown ⟨hg.1, hg.2 ▸ h⟩⟩, And.left⟩

/-- An interrupted call cancels its future, as `wait_for` does. -/
@[simp] theorem interrupt_calls :
    (s.interrupt c f e).calls c' = if c' = c then .interrupted f e else s.calls c' :=
  setCall_calls

@[simp] theorem interrupt_pending : (s.interrupt c f e).pending = s.pending.cancel f := rfl

@[simp] theorem interrupt_history : (s.interrupt c f e).history = s.history := rfl

variable {response : Response}

/-- A response that is read moves no call: what waits for it resumes later. -/
@[simp] theorem readResponse_calls : (s.readResponse response).calls = s.calls := by
  unfold readResponse; split <;> rfl

/-- Each response is recorded as it is read. -/
@[simp] theorem readResponse_read :
    (s.readResponse response).history.read = s.history.read ++ [response] := by
  unfold readResponse; split <;> rfl

@[simp] theorem readResponse_madeAt :
    (s.readResponse response).history.madeAt = s.history.madeAt := by
  unfold readResponse; split <;> rfl

@[simp] theorem readResponse_wire :
    (s.readResponse response).history.wire = s.history.wire := by
  unfold readResponse; split <;> rfl

variable (s response) in
/-- The response completes the future waiting under its transaction id. -/
structure Takes (s' : SendState) (id : ℤ) (f : ℕ) : Prop where
  transacId : response.transacId = .ok (some id)
  registered : s.pending.futures.get? id = some f
  waited : s.pending.store f = .waiting
  futures : s'.pending.futures = s.pending.futures.erase id
  store : s'.pending.store = Function.update s.pending.store f (.result response)
  next : s'.pending.next = s.pending.next
  takenAt : s'.history.takenAt = Function.update s.history.takenAt f (some s.history.read.length)

variable (s) in
/-- The response completes nothing; an entry that waits stays. -/
structure Drops (s' : SendState) : Prop where
  entry : ∀ id f, s'.pending.futures.get? id = some f → s.pending.futures.get? id = some f
  kept : ∀ id f, s.pending.futures.get? id = some f → s.pending.store f = .waiting →
    s'.pending.futures.get? id = some f
  store : s'.pending.store = s.pending.store
  next : s'.pending.next = s.pending.next
  takenAt : s'.history.takenAt = s.history.takenAt

variable (s response) in
/-- **A response completes one future or none.** -/
theorem readResponse_cases :
    (∃ id f, s.Takes response (s.readResponse response) id f) ∨
      s.Drops (s.readResponse response) := by
  unfold readResponse
  split
  · exact .inr ⟨fun _ _ h => h, fun _ _ h _ => h, rfl, rfl, rfl⟩
  · rename_i taken pending hresolve
    cases taken with
    | true =>
        obtain ⟨id, f, hid, hget, hwait, rfl⟩ := PendingRequests.resolve_true hresolve
        refine .inl ⟨id, f, hid, hget, hwait, rfl, rfl, rfl, funext fun g => ?_⟩
        by_cases hg : g = f
        · simp [hg, hwait]
        · simp [Function.update_of_ne hg]
    | false =>
        obtain ⟨hstore, hnext, hdone, hfutures⟩ := PendingRequests.resolve_false hresolve
        refine .inr ⟨fun id f hget => ?_, fun id f hget hwait => ?_, hstore, hnext,
          funext fun g => if_pos (by rw [hstore])⟩
        · rcases hfutures with heq | ⟨id', -, heq⟩
          · exact heq ▸ hget
          · simp only [heq, Dict.get?_erase] at hget
            split at hget
            · cases hget
            · exact hget
        · rcases hfutures with heq | ⟨id', hid', heq⟩
          · exact heq ▸ hget
          · simp only [heq, Dict.get?_erase]
            rw [if_neg fun h => hdone id' f hid' (by rw [← h]; exact hget) hwait]
            exact hget

end SendState

/-! ## What a step can do -/

variable (codec requests) in
/-- **What one step does.** -/
inductive SendMove (s : SendState) : SendState → Prop
  /-- A call refused. -/
  | refuse (c : ℕ) (e : Exc) : s.calls c = .idle → SendMove s (s.refuse c e)
  /-- A call that cannot write its request. -/
  | unwritable (c : ℕ) (id : ℤ) (e : Exc) : s.calls c = .idle → idOf requests c = some id →
      s.pending.futures.get? id = none →
      SendMove s (((s.register id).setCall c (.unwritten s.pending.next e)).abandon
        requests c s.pending.next)
  /-- A call that goes on the wire. -/
  | write (c w : ℕ) (id : ℤ) : s.calls c = .idle → idOf requests c = some id →
      s.pending.futures.get? id = none →
      SendMove s (((s.register id).setCall c (.writing s.pending.next)).putOnWire c w)
  /-- A write that returned. -/
  | written (c f : ℕ) : s.calls c = .writing f → SendMove s (s.setCall c (.waiting f))
  /-- A write that raised. -/
  | writeRaises (c f : ℕ) (e : Exc) : s.calls c = .writing f →
      SendMove s ((s.setCall c (.unwritten f e)).abandon requests c f)
  /-- A call that ends at its future. -/
  | finish (c f : ℕ) (outcome : Outcome) : (s.calls c).awaits? = some f →
      s.outcomeOf codec requests c = some outcome →
      SendMove s ((s.setCall c (.ended f outcome)).abandon requests c f)
  /-- A call cancelled, or out of time. -/
  | interrupt (c f : ℕ) (e : Exc) : (s.calls c).awaits? = some f →
      SendMove s (s.interrupt c f e)
  /-- A response read. -/
  | readResponse (response : Response) : SendMove s (s.readResponse response)
  /-- A connection lost. -/
  | flush (e : Exc) : SendMove s { s with pending := s.pending.flush e }
  /-- A connection made or forgotten. -/
  | setWebsocket (w : Option ℕ) : SendMove s { s with websocket := w }

/-- **What a call that starts does**: it is refused, it cannot write its
request, or it goes on the wire. -/
inductive StartCase (requests : ℕ → ClientRequest) (s : SendState) (c : ℕ) : SendState → Prop
  | refuse (e : Exc) : StartCase requests s c (s.refuse c e)
  | unwritable (id : ℤ) (w : ℕ) (e : Exc) : idOf requests c = some id →
      s.pending.futures.get? id = none → s.websocket = some w →
      StartCase requests s c (((s.register id).setCall c (.unwritten s.pending.next e)).abandon
        requests c s.pending.next)
  | write (id : ℤ) (w : ℕ) : idOf requests c = some id →
      s.pending.futures.get? id = none → s.websocket = some w →
      StartCase requests s c (((s.register id).setCall c (.writing s.pending.next)).putOnWire c w)

/-- Starting a call does one of these. -/
theorem startCase_start : StartCase requests s c (s.start cmdPrefix requests c) := by
  unfold SendState.start
  split
  · exact .refuse _
  · rename_i id hid
    split
    · exact .refuse _
    · rename_i hfree
      have hget : s.pending.futures.get? id = none := by
        rw [Dict.get?_eq_none_iff, ← Dict.contains_iff]
        exact hfree
      split
      · exact .refuse _
      · rename_i w hw
        dsimp only
        split
        · exact .unwritable id w _ hid hget hw
        · exact .write id w hid hget hw

/-- A call that starts makes a move. -/
theorem sendMove_start (h : s.calls c = .idle) :
    SendMove codec requests s (s.start cmdPrefix requests c) := by
  generalize hstart : s.start cmdPrefix requests c = t
  cases (hstart ▸ startCase_start : StartCase requests s c t) with
  | refuse e => exact .refuse c e h
  | unwritable id w e hid hget _ => exact .unwritable c id e h hid hget
  | write id w hid hget _ => exact .write c w id h hid hget

/-- **Each step is a move.** -/
theorem sendMove_of_step {event : SendEvent}
    (h : sendStep codec cmdPrefix requests s event = some s') :
    SendMove codec requests s s' := by
  cases event with
  | start c =>
      simp only [sendStep] at h
      split at h
      · rename_i hidle
        cases h
        exact sendMove_start hidle
      · cases h
  | written c =>
      simp only [sendStep] at h
      split at h
      · rename_i f hwriting
        cases h
        exact .written c f hwriting
      · cases h
  | writeRaises c e =>
      simp only [sendStep] at h
      split at h
      · rename_i f hwriting
        cases h
        exact .writeRaises c f _ hwriting
      · cases h
  | resume c =>
      simp only [sendStep] at h
      split at h
      · rename_i f outcome hawaits hout
        cases h
        exact .finish c f outcome hawaits hout
      · cases h
  | cancel c =>
      simp only [sendStep] at h
      split at h
      · rename_i f hwait
        cases h
        exact .interrupt c f _ (by rw [hwait]; rfl)
      · rename_i f e hint
        cases h
        exact .interrupt c f _ (by rw [hint]; rfl)
      · cases h
  | timeout c =>
      simp only [sendStep] at h
      split at h
      · rename_i f hwait
        cases h
        exact .interrupt c f _ (by rw [hwait]; rfl)
      · cases h
  | readResponse response => cases h; exact .readResponse response
  | flush e => cases h; exact .flush e
  | setWebsocket w => cases h; exact .setWebsocket w

variable (codec requests s) in
/-- **What one step does to a call.** -/
inductive CallMove (s' : SendState) (c : ℕ) : Call → Prop
  | refused (e : Exc) : s.calls c = .idle → CallMove s' c (.refused e)
  | unwritable (e : Exc) : s.calls c = .idle → CallMove s' c (.unwritten s.pending.next e)
  | writing : s.calls c = .idle → CallMove s' c (.writing s.pending.next)
  | written (f : ℕ) : s.calls c = .writing f → CallMove s' c (.waiting f)
  | unwritten (f : ℕ) (e : Exc) : s.calls c = .writing f → CallMove s' c (.unwritten f e)
  | ended (f : ℕ) (outcome : Outcome) : (s.calls c).awaits? = some f →
      s.outcomeOf codec requests c = some outcome → CallMove s' c (.ended f outcome)
  /-- The future is cancelled with the call, if it was not done. -/
  | interrupted (f : ℕ) (e : Exc) : (s.calls c).awaits? = some f →
      s'.pending.store f ≠ .waiting → CallMove s' c (.interrupted f e)

/-- **A move leaves a call as it is, or does one thing to it.** -/
theorem call_of_move (hm : SendMove codec requests s s') (c : ℕ) :
    s'.calls c = s.calls c ∨ CallMove codec requests s s' c (s'.calls c) := by
  -- a step moves one call, `c₀`
  have hother : ∀ {c₀ call}, s'.calls = Function.update s.calls c₀ call →
      CallMove codec requests s s' c₀ call →
      s'.calls c = s.calls c ∨ CallMove codec requests s s' c (s'.calls c) := by
    intro c₀ call hcalls hmove
    rw [hcalls]
    by_cases hc : c = c₀
    · rw [hc, Function.update_self]
      exact .inr hmove
    · exact .inl (Function.update_of_ne hc ..)
  cases hm with
  | refuse c₀ e hidle => exact hother rfl (.refused e hidle)
  | unwritable c₀ id e hidle => exact hother (by simp; rfl) (.unwritable e hidle)
  | write c₀ w id hidle => exact hother rfl (.writing hidle)
  | written c₀ f hwriting => exact hother rfl (.written f hwriting)
  | writeRaises c₀ f e hwriting => exact hother (by simp; rfl) (.unwritten f e hwriting)
  | finish c₀ f outcome hawaits hout =>
      exact hother (by simp; rfl) (.ended f outcome hawaits hout)
  | interrupt c₀ f e hawaits =>
      refine hother rfl (.interrupted f e hawaits ?_)
      rw [SendState.interrupt_pending, PendingRequests.cancel_store]
      by_cases hwait : s.pending.store f = .waiting <;> simp [hwait]
  | readResponse response => exact .inl (by rw [SendState.readResponse_calls])
  | flush | setWebsocket => exact .inl rfl

/-- A call that ended stays as it ended. -/
theorem call_of_move_of_ended (hm : SendMove codec requests s s')
    (h : (s.calls c).outcome?.isSome = true) : s'.calls c = s.calls c := by
  have hidle : s.calls c ≠ .idle := fun hc => by rw [hc] at h; cases h
  have hwriting : ∀ f, s.calls c ≠ .writing f := fun f hc => by rw [hc] at h; cases h
  have hawaits : ∀ f, (s.calls c).awaits? ≠ some f := fun f hc => by
    rw [Call.outcome?_of_awaits? hc] at h
    cases h
  rcases call_of_move hm c with heq | hmove
  · exact heq
  · generalize s'.calls c = call at hmove
    cases hmove with
    | refused _ hc | unwritable _ hc | writing hc => exact absurd hc hidle
    | written f hc | unwritten f _ hc => exact absurd hc (hwriting f)
    | ended f _ hc | interrupted f _ hc => exact absurd hc (hawaits f)

/-- A call that is idle was idle before. -/
theorem idle_of_move (hm : SendMove codec requests s s') (h : s'.calls c = .idle) :
    s.calls c = .idle := by
  rcases call_of_move hm c with heq | hmove
  · exact heq ▸ h
  · rw [h] at hmove
    cases hmove

end Client

end Tydomio
