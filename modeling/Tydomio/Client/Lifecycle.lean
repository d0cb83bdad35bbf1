import Tydomio.Client.Model.Lifecycle
import Tydomio.Client.Send

/-!
# What a connection leaves behind

`_disconnect` is ordinary code after the `try` statement of
`run_websocket`: what no `except*` clause catches goes past it, and what
it raises itself stops it halfway. It flushes before it closes: a send
that starts in between, on a websocket that is not closed, is registered
after the flush. `CleanExit` is the condition on a step under which none of
this happens, `connInv_of_run` that a run of such steps leaves nothing
behind at any connection's end, and `unclean_of_step` that any other step
can.

On a websocket that the connection's context closed, a send fails at once.
That is the library's doing: `RaisesWhenClosed`.
-/

namespace Tydomio

open Common Protocol

namespace Client

variable {codec : Codec} {cmdPrefix : Bytes} {requests : ℕ → ClientRequest} {routines : ℕ}
variable {s s' : ClientState}

/-! ## Steps of the tasks -/

section Tasks

variable {t t' : SendState}

theorem websocket_of_taskEvent {event : SendEvent} (hevent : isTaskEvent event = true)
    (h : sendStep codec cmdPrefix requests t event = some t') : t'.websocket = t.websocket := by
  have habandon : ∀ (u : SendState) c f, (u.abandon requests c f).websocket = u.websocket := by
    intro u c f
    unfold SendState.abandon
    split <;> rfl
  cases event with
  | flush | setWebsocket => cases hevent
  | start c =>
      simp only [sendStep] at h
      split at h <;> cases h
      generalize hstart : t.start cmdPrefix requests c = u
      cases (hstart ▸ startCase_start : StartCase requests t c u) with
      | refuse e => rfl
      | unwritable id w e => exact habandon _ _ _
      | write id w => rfl
  | written c =>
      simp only [sendStep] at h
      split at h <;> cases h
      rfl
  | writeRaises c e =>
      simp only [sendStep] at h
      split at h <;> cases h
      exact habandon _ _ _
  | resume c =>
      simp only [sendStep] at h
      split at h <;> cases h
      exact habandon _ _ _
  | cancel c =>
      simp only [sendStep] at h
      split at h <;> cases h <;> rfl
  | timeout c =>
      simp only [sendStep] at h
      split at h <;> cases h
      rfl
  | readResponse response =>
      cases h
      unfold SendState.readResponse
      split <;> rfl

/-- Only a call that starts adds an entry. -/
theorem get?_of_step_of_ne_start {event : SendEvent} {id : ℤ} {f : ℕ}
    (hevent : ∀ c, event ≠ .start c)
    (h : sendStep codec cmdPrefix requests t event = some t')
    (hget : t'.pending.futures.get? id = some f) : t.pending.futures.get? id = some f := by
  cases event with
  | start c => exact absurd rfl (hevent c)
  | written c =>
      simp only [sendStep] at h
      split at h <;> cases h
      exact hget
  | writeRaises c e =>
      simp only [sendStep] at h
      split at h <;> cases h
      exact (SendState.abandon_get?_eq_some.1 hget).1
  | resume c =>
      simp only [sendStep] at h
      split at h <;> cases h
      exact (SendState.abandon_get?_eq_some.1 hget).1
  | cancel c =>
      simp only [sendStep] at h
      split at h <;> cases h <;> simpa using hget
  | timeout c =>
      simp only [sendStep] at h
      split at h <;> cases h
      simpa using hget
  | readResponse response =>
      cases h
      rcases SendState.readResponse_cases t response with ⟨_, g, ht⟩ | hd
      · rw [ht.futures, Dict.get?_erase] at hget
        split at hget
        · cases hget
        · exact hget
      · exact hd.entry id f hget
  | flush => cases h; cases hget
  | setWebsocket => cases h; exact hget

/-- A future registered and abandoned in the same step leaves no entry. -/
theorem get?_of_register_abandon {u : SendState} {c : ℕ} {id id₀ : ℤ} {f : ℕ}
    (hu : u.pending = t.pending.register id₀) (hid : idOf requests c = some id₀)
    (hget : (u.abandon requests c t.pending.next).pending.futures.get? id = some f) :
    t.pending.futures.get? id = some f := by
  obtain ⟨hget, hother⟩ := SendState.abandon_get?_eq_some.1 hget
  rw [hu, PendingRequests.register_get?] at hget
  split at hget
  · rename_i heq
    cases hget
    exact absurd ⟨heq ▸ hid, rfl⟩ hother
  · exact hget

variable (cmdPrefix requests t) in
/-- A send that starts hands its request to the websocket. -/
def SendState.writes (c : ℕ) : Bool :=
  (idOf requests c).any (fun id => !t.pending.contains id) && t.websocket.isSome &&
    ((requests c).request.toBytes cmdPrefix).isOk

/-- A send that starts and hands its request over is registered, and
suspended in its write. -/
theorem start_of_writes {c : ℕ} (h : t.writes cmdPrefix requests c = true) :
    ∃ id w, idOf requests c = some id ∧ t.websocket = some w ∧ t.start cmdPrefix requests c =
      ((t.register id).setCall c (.writing t.pending.next)).putOnWire c w := by
  simp only [SendState.writes, Bool.and_eq_true, Option.any_eq_true, Option.isSome_iff_exists] at h
  obtain ⟨⟨⟨id, hid, hfree⟩, w, hw⟩, hbytes⟩ := h
  refine ⟨id, w, hid, hw, ?_⟩
  unfold SendState.start
  rw [hid]
  dsimp only
  rw [if_neg (by simpa using hfree), hw]
  dsimp only
  cases hto : (requests c).request.toBytes cmdPrefix with
  | ok bytes => rfl
  | error e =>
      rw [hto] at hbytes
      cases hbytes

/-- Otherwise it adds no entry. -/
theorem get?_start_of_not_writes {c : ℕ} {id : ℤ} {f : ℕ}
    (h : t.writes cmdPrefix requests c = false)
    (hget : (t.start cmdPrefix requests c).pending.futures.get? id = some f) :
    t.pending.futures.get? id = some f := by
  unfold SendState.start at hget
  split at hget
  · exact hget
  · rename_i id₀ hid
    split at hget
    · exact hget
    · rename_i hfree
      split at hget
      · exact hget
      · rename_i w hw
        dsimp only at hget
        split at hget
        · exact get?_of_register_abandon rfl hid hget
        · rename_i hbytes
          -- with an id, a websocket and bytes it would write
          simp [SendState.writes, hid, hfree, hw, hbytes, Except.isOk, Except.toBool] at h

theorem taskStep_eq_some {event : SendEvent} :
    taskStep codec cmdPrefix requests t event = some t' ↔
      isTaskEvent event = true ∧ sendStep codec cmdPrefix requests t event = some t' := by
  unfold taskStep
  split <;> simp [*]

theorem idle_of_start {c : ℕ} (h : sendStep codec cmdPrefix requests t (.start c) = some t') :
    t.calls c = .idle ∧ t' = t.start cmdPrefix requests c := by
  simp only [sendStep] at h
  split at h <;> cases h
  exact ⟨‹_›, rfl⟩

/-- **Without a websocket no step of a task adds an entry.** -/
theorem get?_of_taskStep {event : SendEvent} {id : ℤ} {f : ℕ} (hnone : t.websocket = none)
    (h : taskStep codec cmdPrefix requests t event = some t')
    (hget : t'.pending.futures.get? id = some f) : t.pending.futures.get? id = some f := by
  obtain ⟨-, hstep⟩ := taskStep_eq_some.1 h
  by_cases hevent : ∀ c, event ≠ .start c
  · exact get?_of_step_of_ne_start hevent hstep hget
  · simp only [ne_eq, not_forall, not_not] at hevent
    obtain ⟨c, rfl⟩ := hevent
    obtain ⟨-, rfl⟩ := idle_of_start hstep
    exact get?_start_of_not_writes (by simp [SendState.writes, hnone]) hget

/-- The tasks leave the websocket as it is. -/
theorem websocket_of_taskStep {event : SendEvent}
    (h : taskStep codec cmdPrefix requests t event = some t') :
    t'.websocket = t.websocket := by
  obtain ⟨htask, hstep⟩ := taskStep_eq_some.1 h
  exact websocket_of_taskEvent htask hstep

theorem next_le_of_taskStep {event : SendEvent}
    (h : taskStep codec cmdPrefix requests t event = some t') :
    t.pending.next ≤ t'.pending.next := by
  rcases future?_of_move (sendMove_of_step (taskStep_eq_some.1 h).2) with
    ⟨hnext, -⟩ | ⟨_, hnext, -⟩ <;> omega

end Tasks

/-! ## What is left at the end of a connection -/

/-- **Nothing is left of a connection.** -/
structure Clean (s : ClientState) : Prop where
  /-- No request is pending. -/
  pending : s.send.pending.futures = ∅
  /-- `_connected` is clear. -/
  connected : s.connected = false
  /-- `_websocket` is `None`. -/
  websocket : s.send.websocket = none

/-- `run_websocket` is between two connections, or has ended. -/
def Control.isBoundary : Control → Bool
  | authorizing | pausing | opening | returned | raised _ => true
  | _ => false

/-- `run_websocket` is in the connection's context. -/
def Control.isConnected : Control → Bool
  | connected .. | leaving _ => true
  | _ => false

/-- What the task group of the connection that ends raised. -/
def Control.groupErrors : Control → List Exc
  | leaving errors => errors
  | _ => []

/-- `run_websocket` is in `_disconnect`. -/
def Control.isCleanup : Control → Bool
  | disconnecting .. | closing .. => true
  | _ => false

/-- **What the websocket library does**: on a websocket that the connection's
context closed, a write that starts raises `ConnectionClosed` before anything
else happens. -/
def RaisesWhenClosed (s : ClientState) (event : ClientEvent) : Prop :=
  ∀ m c f, s.closedAt = some m → s.send.calls c = .writing f → m ≤ f →
    event = .send (.writeRaises c .connectionClosed)

variable (cmdPrefix requests) in
/-- **The condition under which a step leaves nothing behind**: every
exception the connection ends with is a cancellation or a communication
error; once there was a websocket, the disconnection routines raise runtime
errors only and the websocket closes; and no send hands its request to a
websocket that is not closed while `_disconnect` runs. -/
def CleanExit (s : ClientState) : ClientEvent → Prop
  | .exitReturns => ∀ e ∈ s.control.groupErrors, isHandled e = true
  | .exitRaises errors => ∀ e ∈ errors, isHandled e = true
  | .routinesEnd errors => s.send.websocket = none ∨ ∀ e ∈ errors, e.isRuntime = true
  | .closeRaises _ => False
  | .send (.start c) => s.control.isCleanup = true → s.closedAt = none →
      s.send.writes cmdPrefix requests c = false
  | _ => True

/-! ## What holds at each point -/

variable (requests) in
/-- **What is registered once the flush has run**: sends in their write, that
started on the closed websocket. -/
structure Flushed (s : ClientState) : Prop where
  le : ∀ m, s.closedAt = some m → m ≤ s.send.pending.next
  entries : ∀ id f, s.send.pending.futures.get? id = some f →
    ∃ m c, s.closedAt = some m ∧ m ≤ f ∧ idOf requests c = some id ∧ s.send.calls c = .writing f

variable (requests) in
/-- **What holds at each point of `run_websocket`.** -/
def ConnInv (s : ClientState) : Prop :=
  match s.control with
  | .connected .. | .leaving _ => s.send.websocket ≠ none ∧ s.closedAt = none
  | .disconnecting _ _ => s.connected = false ∧
      (s.send.websocket = none ∧ s.send.pending.futures = ∅ ∨
        s.send.websocket ≠ none ∧ Flushed requests s)
  | .closing _ _ => s.connected = false ∧ s.send.websocket ≠ none ∧ Flushed requests s
  | _ => Clean s

instance (s : ClientState) : ∀ event, Decidable (CleanExit cmdPrefix requests s event)
  | .exitReturns =>
      inferInstanceAs (Decidable (∀ e ∈ s.control.groupErrors, isHandled e = true))
  | .exitRaises errors => inferInstanceAs (Decidable (∀ e ∈ errors, isHandled e = true))
  | .routinesEnd errors =>
      inferInstanceAs (Decidable (s.send.websocket = none ∨ ∀ e ∈ errors, e.isRuntime = true))
  | .closeRaises _ => .isFalse id
  | .send (.start c) =>
      inferInstanceAs (Decidable (s.control.isCleanup = true → s.closedAt = none →
        s.send.writes cmdPrefix requests c = false))
  | .send (.written _) | .send (.writeRaises _ _) | .send (.resume _) | .send (.cancel _)
  | .send (.timeout _) | .send (.readResponse _) | .send (.flush _) | .send (.setWebsocket _)
  | .authorized | .unauthorized | .authorizationRaises _ | .pauseEnds | .pauseRaises _
  | .opened _ | .openFails | .openRaises _ | .taskStarts | .taskEnds _ | .cancelRun | .groupEnds
  | .closeReturns => .isTrue trivial

theorem connInv_of_isBoundary (h : s.control.isBoundary = true) :
    ConnInv requests s ↔ Clean s := by
  unfold ConnInv
  cases hcontrol : s.control with
  | connected | leaving | disconnecting | closing => rw [hcontrol] at h; cases h
  | _ => rfl

theorem connInv_of_isConnected (h : s.control.isConnected = true) :
    ConnInv requests s ↔ s.send.websocket ≠ none ∧ s.closedAt = none := by
  unfold ConnInv
  cases hcontrol : s.control with
  | connected | leaving => rfl
  | _ => rw [hcontrol] at h; cases h

theorem filter_not_eq_nil_iff {errors : List Exc} {p : Exc → Bool} :
    (errors.filter fun e => !p e) = [] ↔ ∀ e ∈ errors, p e = true := by
  simp [List.filter_eq_nil_iff]

/-- The flush leaves no entry. -/
theorem connInv_disconnect {exiting retry : Bool}
    (hle : s.send.websocket ≠ none → ∀ m, s.closedAt = some m → m ≤ s.send.pending.next) :
    ConnInv requests (s.disconnect exiting retry) := by
  refine ⟨rfl, ?_⟩
  by_cases hnone : s.send.websocket = none
  · exact .inl ⟨hnone, rfl⟩
  · exact .inr ⟨hnone, hle hnone, nofun⟩

/-- What the `try` statement leaves: `_disconnect` is called where all is
handled. -/
theorem connInv_leave {errors : List Exc} {retry : Bool}
    (hle : s.send.websocket ≠ none → ∀ m, s.closedAt = some m → m ≤ s.send.pending.next)
    (hraise : (∀ e ∈ errors, isHandled e = true) ∨ Clean s) :
    ConnInv requests (s.leave errors retry) := by
  unfold ClientState.leave
  by_cases hall : ∀ e ∈ errors, isHandled e = true
  · rw [if_pos (filter_not_eq_nil_iff.2 hall)]
    exact connInv_disconnect hle
  · rw [if_neg fun hnil => hall (filter_not_eq_nil_iff.1 hnil)]
    obtain ⟨hpending, hconnected, hwebsocket⟩ := hraise.resolve_left hall
    exact ⟨hpending, hconnected, hwebsocket⟩

theorem isBoundary_nextControl {exiting retry : Bool} :
    (nextControl exiting retry).isBoundary = true := by
  cases exiting <;> cases retry <;> rfl

theorem connInv_close {exiting retry : Bool} (hconnected : s.connected = false)
    (h : s.send.websocket = none ∧ s.send.pending.futures = ∅ ∨
      s.send.websocket ≠ none ∧ Flushed requests s) : ConnInv requests (s.close exiting retry) := by
  unfold ClientState.close
  cases hwebsocket : s.send.websocket with
  | some w =>
      rcases h with ⟨hnone, -⟩ | ⟨hsome, hflushed⟩
      · rw [hwebsocket] at hnone
        cases hnone
      · exact ⟨hconnected, hsome, hflushed.le, hflushed.entries⟩
  | none =>
      rcases h with ⟨-, hempty⟩ | ⟨hsome, -⟩
      · exact (connInv_of_isBoundary isBoundary_nextControl).2 ⟨hempty, hconnected, hwebsocket⟩
      · exact absurd hwebsocket hsome

/-! ## Steps of the tasks in the cleanup -/

/-- Where nothing else may happen than the errors of the writes on the closed
websocket, another step finds no entry. -/
theorem Flushed.futures_eq_empty {event : ClientEvent} (hs : Flushed requests s)
    (hraises : RaisesWhenClosed s event)
    (hevent : ∀ c, event ≠ .send (.writeRaises c .connectionClosed)) :
    s.send.pending.futures = ∅ := by
  rw [Dict.eq_empty_iff]
  intro id f hget
  obtain ⟨m, c, hm, hle, -, hcall⟩ := hs.entries id f hget
  exact hevent c (hraises m c f hm hcall hle)

/-- The error of a write on the closed websocket takes its entry away. -/
theorem Flushed.writeRaises {t : SendState} {c : ℕ} {e : Exc} (hs : Flushed requests s)
    (hraises : RaisesWhenClosed s (.send (.writeRaises c e)))
    (h : sendStep codec cmdPrefix requests s.send (.writeRaises c e) = some t) :
    t.pending.futures = ∅ := by
  rw [Dict.eq_empty_iff]
  intro id f hget
  simp only [sendStep] at h
  split at h <;> cases h
  rename_i g hwriting
  obtain ⟨hold, hother⟩ := SendState.abandon_get?_eq_some.1 hget
  obtain ⟨m, c', hm, hle, hid, hcall⟩ := hs.entries id f hold
  -- the only write there is
  cases hraises m c' f hm hcall hle
  rw [hwriting] at hcall
  cases hcall
  exact hother ⟨hid, rfl⟩

/-- **A step of a task keeps the cleanup**, where a send that starts does so
on the closed websocket. -/
theorem flushed_of_taskStep {t : SendState} {event : SendEvent} (hs : Flushed requests s)
    (hraises : RaisesWhenClosed s (.send event))
    (hstart : ∀ c, event = .start c → s.closedAt = none →
      s.send.writes cmdPrefix requests c = false)
    (h : taskStep codec cmdPrefix requests s.send event = some t) :
    Flushed requests { s with send := t } := by
  refine ⟨fun m hm => (hs.le m hm).trans (next_le_of_taskStep h), fun id f hget => ?_⟩
  obtain ⟨-, hstep⟩ := taskStep_eq_some.1 h
  by_cases hevent : ∀ c, event ≠ .start c
  · -- no entry is added, and none was left but that of a write that raises
    exfalso
    by_cases hwrite : ∃ c e, event = .writeRaises c e
    · obtain ⟨c, e, rfl⟩ := hwrite
      exact Dict.eq_empty_iff.1 (hs.writeRaises hraises hstep) id f hget
    · have hempty := hs.futures_eq_empty hraises fun c heq =>
        hwrite ⟨c, _, ClientEvent.send.inj heq⟩
      exact Dict.eq_empty_iff.1 hempty id f (get?_of_step_of_ne_start hevent hstep hget)
  · simp only [ne_eq, not_forall, not_not] at hevent
    obtain ⟨c, rfl⟩ := hevent
    have hempty := hs.futures_eq_empty hraises (by simp)
    obtain ⟨-, rfl⟩ := idle_of_start hstep
    cases hwrites : s.send.writes cmdPrefix requests c with
    | false =>
        exact absurd (get?_start_of_not_writes hwrites hget) (Dict.eq_empty_iff.1 hempty id f)
    | true =>
        obtain ⟨id₀, w, hid, -, heq⟩ := start_of_writes hwrites
        cases hclosed : s.closedAt with
        | none => rw [hstart c rfl hclosed] at hwrites; cases hwrites
        | some m =>
            have hle := hs.le m hclosed
            dsimp only at hget ⊢
            rw [heq] at hget ⊢
            have hnew : (s.send.pending.register id₀).futures.get? id = some f := hget
            rw [PendingRequests.register_get?] at hnew
            split at hnew
            · rename_i hid'
              cases hnew
              exact ⟨m, c, rfl, hle, hid' ▸ hid, by simp⟩
            · exact absurd hnew (Dict.eq_empty_iff.1 hempty id f)

theorem connInv_send {t : SendState} {event : SendEvent} (hs : ConnInv requests s)
    (hraises : RaisesWhenClosed s (.send event))
    (hok : CleanExit cmdPrefix requests s (.send event))
    (h : taskStep codec cmdPrefix requests s.send event = some t) :
    ConnInv requests { s with send := t } := by
  have hwebsocket : t.websocket = s.send.websocket := websocket_of_taskStep h
  have hempty : s.send.websocket = none → s.send.pending.futures = ∅ →
      t.pending.futures = ∅ := by
    intro hnone hempty
    rw [Dict.eq_empty_iff] at hempty ⊢
    exact fun id f hget => hempty id f (get?_of_taskStep hnone h hget)
  have hflushed : s.control.isCleanup = true → Flushed requests s →
      Flushed requests { s with send := t } := by
    intro hcleanup hflushed
    refine flushed_of_taskStep hflushed hraises ?_ h
    rintro c rfl
    exact hok hcleanup
  by_cases hboundary : s.control.isBoundary = true
  · have hclean := (connInv_of_isBoundary hboundary).1 hs
    exact (connInv_of_isBoundary (s := { s with send := t }) hboundary).2
      ⟨hempty hclean.websocket hclean.pending, hclean.connected,
        hwebsocket.trans hclean.websocket⟩
  · unfold ConnInv at hs ⊢
    cases hcontrol : s.control with
    | connected | leaving =>
        simp only [hcontrol] at hs ⊢
        exact hwebsocket ▸ hs
    | disconnecting =>
        simp only [hcontrol] at hs ⊢
        obtain ⟨hconnected, ⟨hnone, hfutures⟩ | ⟨hsome, hs⟩⟩ := hs
        · exact ⟨hconnected, .inl ⟨hwebsocket.trans hnone, hempty hnone hfutures⟩⟩
        · have hkept := hflushed (by rw [hcontrol]; rfl) hs
          exact ⟨hconnected, .inr ⟨hwebsocket ▸ hsome, hkept.le, hkept.entries⟩⟩
    | closing =>
        simp only [hcontrol] at hs ⊢
        obtain ⟨hconnected, hsome, hs⟩ := hs
        have hkept := hflushed (by rw [hcontrol]; rfl) hs
        exact ⟨hconnected, hwebsocket ▸ hsome, hkept.le, hkept.entries⟩
    | _ => exact absurd (by rw [hcontrol]; rfl) hboundary

/-! ## What a step can do -/

variable (codec cmdPrefix requests s) in
/-- **What one step of the client does.** -/
inductive ClientMove : ClientEvent → ClientState → Prop
  /-- A step between two connections. -/
  | between {event : ClientEvent} (control : Control) : CleanExit cmdPrefix requests s event →
      s.control.isBoundary = true → control.isBoundary = true →
      ClientMove event { s with control }
  | opened (w tasks : ℕ) :
      ClientMove (.opened w) { s.setWebsocket (some w) with
        control := .connected tasks [] false
        connected := true
        closedAt := none }
  | openFails : ClientMove .openFails ((s.setWebsocket none).leave [] true)
  | openRaises (errors : List Exc) : s.control = .opening →
      ClientMove (.openRaises errors) (s.leave errors false)
  /-- A step of the task group, or its end. -/
  | connected {event : ClientEvent} (control : Control) : CleanExit cmdPrefix requests s event →
      s.control.isConnected = true → control.isConnected = true →
      ClientMove event { s with control }
  /-- The connection's context is left, with what it raised; it has closed the
  websocket, or may not have. -/
  | exits {event : ClientEvent} (errors : List Exc) (closedAt : Option ℕ) :
      s.control.isConnected = true →
      (closedAt = some s.send.pending.next ∨ closedAt = s.closedAt) →
      (CleanExit cmdPrefix requests s event ↔ ∀ e ∈ errors, isHandled e = true) →
      ClientMove event ({ s with closedAt }.leave errors false)
  | routinesEnd (errors : List Exc) (exiting retry : Bool) :
      s.control = .disconnecting exiting retry → (∀ e ∈ errors, e.isRuntime = true) →
      ClientMove (.routinesEnd errors) (s.close exiting retry)
  | routinesRaise (errors rest : List Exc) (exiting retry : Bool) :
      s.control = .disconnecting exiting retry → (¬ ∀ e ∈ errors, e.isRuntime = true) →
      ClientMove (.routinesEnd errors) { s with control := .raised rest }
  | closeReturns (exiting retry : Bool) : s.control = .closing exiting retry →
      ClientMove .closeReturns
        { s.setWebsocket none with control := nextControl exiting retry }
  | closeRaises (errors : List Exc) (exiting retry : Bool) :
      s.control = .closing exiting retry →
      ClientMove (.closeRaises errors) { s with control := .raised errors }
  | send (event : SendEvent) (t : SendState) :
      taskStep codec cmdPrefix requests s.send event = some t →
      ClientMove (.send event) { s with send := t }

theorem clientMove_of_step {event : ClientEvent}
    (h : clientStep codec cmdPrefix requests routines s event = some s') :
    ClientMove codec cmdPrefix requests s event s' := by
  cases event with
  | send event =>
      obtain ⟨t, ht, rfl⟩ := Option.map_eq_some_iff.1 h
      exact .send event t ht
  | authorized | unauthorized | pauseEnds =>
      simp only [clientStep] at h
      split at h <;> cases h
      rename_i hcontrol
      exact .between _ trivial (by rw [hcontrol]; rfl) rfl
  | authorizationRaises errors | pauseRaises errors =>
      simp only [clientStep] at h
      split at h
      · rename_i hcontrol
        split at h <;> cases h
        exact .between _ trivial (by rw [hcontrol]; rfl) rfl
      · cases h
  | opened w =>
      simp only [clientStep] at h
      split at h <;> cases h
      exact .opened w _
  | openFails =>
      simp only [clientStep] at h
      split at h <;> cases h
      exact .openFails
  | openRaises errors =>
      simp only [clientStep] at h
      split at h
      · rename_i hcontrol
        split at h <;> cases h
        exact .openRaises errors hcontrol
      · cases h
  | taskStarts | cancelRun | groupEnds =>
      simp only [clientStep] at h
      split at h <;> cases h
      rename_i hcontrol
      exact .connected _ trivial (by rw [hcontrol]; rfl) rfl
  | taskEnds result =>
      simp only [clientStep] at h
      split at h
      · rename_i hcontrol
        split at h <;> cases h
        exact .connected _ trivial (by rw [hcontrol]; rfl) rfl
      · rename_i hcontrol _
        cases h
        exact .connected _ trivial (by rw [hcontrol]; rfl) rfl
      · cases h
  | exitReturns =>
      simp only [clientStep] at h
      split at h <;> cases h
      rename_i errors hcontrol
      exact .exits errors _ (by rw [hcontrol]; rfl) (.inl rfl) (by rw [CleanExit, hcontrol]; rfl)
  | exitRaises errors =>
      simp only [clientStep] at h
      split at h
      · rename_i hcontrol
        split at h <;> cases h
        exact .exits errors s.closedAt (by rw [hcontrol]; rfl) (.inr rfl) Iff.rfl
      · cases h
  | routinesEnd errors =>
      simp only [clientStep] at h
      split at h
      · rename_i exiting retry hcontrol
        split at h <;> cases h
        · rename_i hrest
          exact .routinesEnd errors exiting retry hcontrol (filter_not_eq_nil_iff.1 hrest)
        · rename_i hrest
          exact .routinesRaise errors _ exiting retry hcontrol fun hall =>
            hrest (filter_not_eq_nil_iff.2 hall)
      · cases h
  | closeReturns =>
      simp only [clientStep] at h
      split at h <;> cases h
      rename_i exiting retry hcontrol
      exact .closeReturns exiting retry hcontrol
  | closeRaises errors =>
      simp only [clientStep] at h
      split at h
      · rename_i exiting retry hcontrol
        split at h <;> cases h
        exact .closeRaises errors exiting retry hcontrol
      · cases h

/-- What is left once the disconnection routines run. -/
theorem ConnInv.of_disconnecting {exiting retry : Bool} (hs : ConnInv requests s)
    (hcontrol : s.control = .disconnecting exiting retry) :
    s.connected = false ∧ (s.send.websocket = none ∧ s.send.pending.futures = ∅ ∨
      s.send.websocket ≠ none ∧ Flushed requests s) := by
  unfold ConnInv at hs
  simpa only [hcontrol] using hs

/-- What is left once the websocket is being closed. -/
theorem ConnInv.of_closing {exiting retry : Bool} (hs : ConnInv requests s)
    (hcontrol : s.control = .closing exiting retry) :
    s.connected = false ∧ s.send.websocket ≠ none ∧ Flushed requests s := by
  unfold ConnInv at hs
  simpa only [hcontrol] using hs

/-- **A clean step keeps the invariant.** -/
theorem connInv_of_step {event : ClientEvent} (hs : ConnInv requests s)
    (hraises : RaisesWhenClosed s event) (hok : CleanExit cmdPrefix requests s event)
    (h : clientStep codec cmdPrefix requests routines s event = some s') :
    ConnInv requests s' := by
  cases clientMove_of_step h with
  | between control _ hboundary hboundary' =>
      have hclean := (connInv_of_isBoundary hboundary).1 hs
      exact (connInv_of_isBoundary (s := { s with control }) hboundary').2
        ⟨hclean.pending, hclean.connected, hclean.websocket⟩
  | opened w tasks => exact ⟨Option.some_ne_none w, rfl⟩
  | openFails => exact connInv_leave (fun hne => absurd rfl hne) (.inl (by simp))
  | openRaises errors hcontrol =>
      -- nothing was opened, so nothing is left whatever is raised
      have hclean := (connInv_of_isBoundary (by rw [hcontrol]; rfl)).1 hs
      exact connInv_leave (fun hne => absurd hclean.websocket hne) (.inr hclean)
  | connected control _ hconnected hconnected' =>
      exact (connInv_of_isConnected (s := { s with control }) hconnected').2
        ((connInv_of_isConnected hconnected).1 hs)
  | exits errors closedAt hconnected hclosedAt hclean =>
      refine connInv_leave (fun _ m hm => ?_) (.inl (hclean.1 hok))
      obtain ⟨-, hopen⟩ := (connInv_of_isConnected hconnected).1 hs
      rcases hclosedAt with rfl | rfl
      · cases hm
        exact le_rfl
      · rw [hopen] at hm
        cases hm
  | routinesEnd errors exiting retry hcontrol _ =>
      obtain ⟨hconnected, hleft⟩ := hs.of_disconnecting hcontrol
      exact connInv_close hconnected hleft
  | routinesRaise errors rest exiting retry hcontrol hnot =>
      obtain ⟨hconnected, hleft⟩ := hs.of_disconnecting hcontrol
      have hnone : s.send.websocket = none := hok.resolve_right hnot
      have hempty := (hleft.resolve_right fun hsome => hsome.1 hnone).2
      exact ⟨hempty, hconnected, hnone⟩
  | closeReturns exiting retry hcontrol =>
      obtain ⟨hconnected, -, hflushed⟩ := hs.of_closing hcontrol
      -- the writes on the closed websocket have raised by now
      have hempty := hflushed.futures_eq_empty hraises (by simp)
      exact (connInv_of_isBoundary isBoundary_nextControl).2 ⟨hempty, hconnected, rfl⟩
  | closeRaises => exact hok.elim
  | send event t ht => exact connInv_send hs hraises hok ht

/-! ## Steps that are not clean -/

variable {events : List ClientEvent}

theorem raisesWhenClosed_of_none {event : ClientEvent} (h : s.closedAt = none) :
    RaisesWhenClosed s event := by
  intro m c f hm
  rw [h] at hm
  cases hm

/-- What is pending while `_disconnect` runs stays so, where the routines end
and the websocket closes next. -/
theorem exists_run_of_isCleanup {w : ℕ}
    (h : (clientMachine codec cmdPrefix requests routines).Run RaisesWhenClosed events s)
    (hcleanup : s.control.isCleanup = true) (hwebsocket : s.send.websocket = some w)
    (hopen : s.closedAt = none) : ∃ later s',
    (clientMachine codec cmdPrefix requests routines).Run RaisesWhenClosed (events ++ later) s' ∧
      s'.control.isBoundary = true ∧ s'.send.pending = s.send.pending := by
  let left (exiting retry : Bool) : ClientState :=
    { s.setWebsocket none with control := nextControl exiting retry }
  have hnone : ∀ event, RaisesWhenClosed s event := fun _ => raisesWhenClosed_of_none hopen
  cases hcontrol : s.control with
  | disconnecting exiting retry =>
      have hroutines : clientStep codec cmdPrefix requests routines s (.routinesEnd []) =
          some { s with control := .closing exiting retry } := by
        simp [clientStep, hcontrol, ClientState.close, hwebsocket]
      refine ⟨[.routinesEnd []] ++ [.closeReturns], left exiting retry, ?_,
        isBoundary_nextControl, rfl⟩
      have hclosing := h.snoc (hnone (.routinesEnd [])) hroutines
      rw [← List.append_assoc]
      exact hclosing.snoc (raisesWhenClosed_of_none hopen) rfl
  | closing exiting retry =>
      have hclose : clientStep codec cmdPrefix requests routines s .closeReturns =
          some (left exiting retry) := by
        simp only [clientStep, hcontrol, left]
      exact ⟨[.closeReturns], left exiting retry, h.snoc (hnone .closeReturns) hclose,
        isBoundary_nextControl, rfl⟩
  | _ => rw [hcontrol] at hcleanup; cases hcleanup

/-- **A step that is not clean can leave something behind**: it ends
`run_websocket` with the websocket there, or registers a request that no
flush reaches. -/
theorem unclean_of_step {event : ClientEvent}
    (h : (clientMachine codec cmdPrefix requests routines).Run RaisesWhenClosed events s)
    (hs : ConnInv requests s) (hraises : RaisesWhenClosed s event)
    (hok : ¬ CleanExit cmdPrefix requests s event)
    (hstep : clientStep codec cmdPrefix requests routines s event = some s') :
    ∃ later s'', (clientMachine codec cmdPrefix requests routines).Run RaisesWhenClosed
        (events ++ event :: later) s'' ∧ s''.control.isBoundary = true ∧ ¬ Clean s'' := by
  have hrun := h.snoc hraises hstep
  -- where `run_websocket` raises with the websocket there, nothing more has to happen
  have hraised : ∀ errors, s'.control = .raised errors → s'.send.websocket ≠ none →
      ∃ later s'', (clientMachine codec cmdPrefix requests routines).Run RaisesWhenClosed
        (events ++ event :: later) s'' ∧ s''.control.isBoundary = true ∧ ¬ Clean s'' :=
    fun errors hcontrol hsome => ⟨[], s', hrun, by rw [hcontrol]; rfl, fun hclean =>
      hsome hclean.websocket⟩
  cases clientMove_of_step hstep with
  | between _ hclean | connected _ hclean => exact absurd hclean hok
  | opened | openFails | openRaises | closeReturns => exact absurd trivial hok
  | exits errors closedAt hconnected _ hclean =>
      obtain ⟨hwebsocket, -⟩ := (connInv_of_isConnected hconnected).1 hs
      have hnot : ¬ ∀ e ∈ errors, isHandled e = true := fun hall => hok (hclean.2 hall)
      have hleave : ({ s with closedAt }.leave errors false) =
          { s with closedAt, control := .raised (errors.filter fun e => !isHandled e) } := by
        unfold ClientState.leave
        rw [if_neg fun hnil => hnot (filter_not_eq_nil_iff.1 hnil)]
      refine hraised (errors.filter fun e => !isHandled e) ?_ ?_
      · rw [hleave]
      · rw [hleave]
        exact hwebsocket
  | routinesEnd errors exiting retry hcontrol hall => exact absurd (.inr hall) hok
  | routinesRaise errors rest exiting retry hcontrol hnot =>
      exact hraised rest rfl fun hnone => hok (.inl hnone)
  | closeRaises errors exiting retry hcontrol =>
      obtain ⟨-, hwebsocket, -⟩ := hs.of_closing hcontrol
      exact hraised errors rfl hwebsocket
  | send event t ht =>
      cases event with
      | start c =>
          simp only [CleanExit, not_forall, Bool.not_eq_false] at hok
          obtain ⟨hcleanup, hopen, hwrites⟩ := hok
          obtain ⟨id, w, hid, hwebsocket, hstart⟩ := start_of_writes hwrites
          obtain ⟨-, rfl⟩ := idle_of_start (taskStep_eq_some.1 ht).2
          have hwebsocket' := (websocket_of_taskStep ht).trans hwebsocket
          obtain ⟨later, s'', hlater, hboundary, hpending⟩ :=
            exists_run_of_isCleanup hrun hcleanup hwebsocket' hopen
          refine ⟨later, s'', by rwa [List.append_cons], hboundary, fun hclean => ?_⟩
          have hget : s''.send.pending.futures.get? id = some s.send.pending.next := by
            rw [hpending]
            dsimp only
            rw [hstart]
            exact PendingRequests.register_get?.trans (if_pos rfl)
          exact Dict.eq_empty_iff.1 hclean.pending id _ hget
      | _ => exact absurd trivial hok

/-! ## Whole runs -/

/-- A step of a task is a step of a call of `send`. -/
theorem exec_of_taskStep {t t' : SendState} {event : SendEvent}
    (h : taskStep codec cmdPrefix requests t event = some t') :
    (sendMachine codec cmdPrefix requests).exec t [event] = some t' := by
  rw [Machine.exec, Option.bind_eq_some_iff]
  exact ⟨t', (taskStep_eq_some.1 h).2, rfl⟩

theorem exec_leave (t : ClientState) (errors : List Exc) (retry : Bool) :
    ∃ ks, (sendMachine codec cmdPrefix requests).exec t.send ks =
      some (t.leave errors retry).send := by
  unfold ClientState.leave
  dsimp only
  split
  · exact ⟨[.flush (.communicationError "Connection lost")], rfl⟩
  · exact ⟨[], rfl⟩

/-- **A step of the client is a run of calls of `send`**, so what holds of
`send` in every interleaving holds of it here. -/
theorem exec_of_step {event : ClientEvent}
    (h : clientStep codec cmdPrefix requests routines s event = some s') :
    ∃ ks, (sendMachine codec cmdPrefix requests).exec s.send ks = some s'.send := by
  cases clientMove_of_step h with
  | between | connected | routinesRaise | closeRaises => exact ⟨[], rfl⟩
  | opened w tasks => exact ⟨[.setWebsocket (some w)], rfl⟩
  | openFails =>
      exact ⟨[.setWebsocket none, .flush (.communicationError "Connection lost")], rfl⟩
  | openRaises errors => exact exec_leave s errors false
  | exits errors closedAt => exact exec_leave { s with closedAt } errors false
  | routinesEnd errors exiting retry =>
      refine ⟨[], ?_⟩
      unfold ClientState.close
      split <;> rfl
  | closeReturns => exact ⟨[.setWebsocket none], rfl⟩
  | send event t ht => exact ⟨[event], exec_of_taskStep ht⟩

variable {ok : ClientState → ClientEvent → Prop}

/-- The calls of `send` in a run of the client are a run of their own. -/
theorem sendRun_of_run
    (h : (clientMachine codec cmdPrefix requests routines).Run ok events s) :
    ∃ ks, (sendMachine codec cmdPrefix requests).Run Machine.Free ks s.send :=
  h.simulate ClientState.send rfl fun _ _ _ _ hstep => exec_of_step hstep

/-- **Where no request is pending, no send is left waiting**: a future is
done, or its send ended in its write. -/
theorem done_or_unwritten
    (h : (clientMachine codec cmdPrefix requests routines).Run ok events s)
    (hempty : s.send.pending.futures = ∅) {f : ℕ} (hf : f < s.send.pending.next) :
    (s.send.pending.store f).done = true ∨ ∃ c e, s.send.calls c = .unwritten f e := by
  obtain ⟨ks, hks⟩ := sendRun_of_run h
  cases hdone : (s.send.pending.store f).done with
  | true => exact .inl rfl
  | false =>
      rcases (inv_of_run hks).1.waits f hf (Future.done_eq_false.1 hdone) with ⟨id, hget⟩ | hcall
      · exact absurd hget (Dict.eq_empty_iff.1 hempty id f)
      · exact .inr hcall

theorem connInv_of_run
    (h : (clientMachine codec cmdPrefix requests routines).Run
      (fun s event => RaisesWhenClosed s event ∧ CleanExit cmdPrefix requests s event) events s) :
    ConnInv requests s := by
  refine h.invariant (I := fun s => ConnInv requests s) ?_ ?_
  · exact (show Clean .init from ⟨rfl, rfl, rfl⟩)
  · intro s event s' hs hok hstep
    exact connInv_of_step hs hok.1 hok.2 hstep

/-- **What a connection leaves behind**, with a library that raises on a
closed websocket. After steps that are all clean, nothing, whenever
`run_websocket` reconnects, returns or raises: no request is pending, and
every future is done but those of sends that ended in their write. From any
step that is not clean it can reconnect, return or raise with something
left. -/
theorem run_leaves_nothing
    (h : (clientMachine codec cmdPrefix requests routines).Run
      (fun s event => RaisesWhenClosed s event ∧ CleanExit cmdPrefix requests s event) events s) :
    (s.control.isBoundary = true → Clean s ∧ ∀ f < s.send.pending.next,
      (∀ c e, s.send.calls c ≠ .unwritten f e) → (s.send.pending.store f).done = true) ∧
    ∀ event s', RaisesWhenClosed s event →
      clientStep codec cmdPrefix requests routines s event = some s' →
      ¬ CleanExit cmdPrefix requests s event → ∃ later s'',
        (clientMachine codec cmdPrefix requests routines).Run RaisesWhenClosed
          (events ++ event :: later) s'' ∧ s''.control.isBoundary = true ∧ ¬ Clean s'' := by
  have hs := connInv_of_run h
  refine ⟨fun hboundary => ?_, fun event s' hraises hstep hok => ?_⟩
  · have hclean := (connInv_of_isBoundary hboundary).1 hs
    refine ⟨hclean, fun f hf hwritten => ?_⟩
    exact (done_or_unwritten h hclean.pending hf).resolve_right fun ⟨c, e, hcall⟩ =>
      hwritten c e hcall
  · exact unclean_of_step (h.mono fun _ _ _ _ hok => hok.1) hs hraises hok hstep

/-- Connection `0` opens, with a ping and a connection routine; a send of
another task waits for its response. -/
def connectedRun : List ClientEvent :=
  [.authorized, .opened 0, .send (.start 0), .send (.written 0), .send (.start 1),
    .send (.written 1)]

/-- The ping is cancelled with the other tasks of the connection, and the
connection's context closes. -/
def endOfTasks : List ClientEvent :=
  [.taskEnds .cancelled, .send (.cancel 0), .send (.resume 0), .taskEnds .cancelled, .groupEnds,
    .exitReturns]

/-- The requests are pings, numbered by their call. -/
def pings (c : ℕ) : ClientRequest := pingRequest c

/-- No send has made a future since the context closed the websocket. -/
def ClientState.isQuiet (s : ClientState) : Bool := s.closedAt.all fun m => s.send.pending.next ≤ m

theorem raisesWhenClosed_of_isQuiet {event : ClientEvent} (hs : SendInv requests s.send)
    (hquiet : s.isQuiet = true) : RaisesWhenClosed s event := by
  intro m c f hm hcall hle
  have hmade := hs.made c f (by rw [hcall]; rfl)
  simp only [ClientState.isQuiet, hm, Option.all_some, decide_eq_true_eq] at hquiet
  omega

/-- The Tydom closes the connection, and the client disconnects. -/
def closedByTydom : List ClientEvent :=
  connectedRun ++ [.taskEnds (.raised [.communicationError "Connection closed"])] ++ endOfTasks ++
    [.routinesEnd [], .closeReturns]

/-- A connection that the Tydom closes is left clean: the waiting send
fails, and `run_websocket` reconnects. -/
theorem run_leaves_nothing_closedByTydom :
    ∃ s, (clientMachine noDocument [] pings 1).Run Machine.Free closedByTydom s ∧
      s.control = .authorizing ∧ Clean s ∧
      s.send.pending.store 1 = .exception (.communicationError "Connection lost") := by
  have hexec : ∃ s, ((clientMachine noDocument [] pings 1).restrict
      (fun s event => s.isQuiet = true ∧ CleanExit [] pings s event)).exec .init
      closedByTydom = some s ∧ s.control = .authorizing ∧
      s.send.pending.store 1 = .exception (.communicationError "Connection lost") :=
    ⟨_, rfl, rfl, rfl⟩
  obtain ⟨s, hs, hcontrol, hstore⟩ := hexec
  have hquiet := Machine.run_of_restrict (Machine.run_of_exec hs)
  have hrun : (clientMachine noDocument [] pings 1).Run
      (fun s event => RaisesWhenClosed s event ∧ CleanExit [] pings s event) closedByTydom s := by
    refine hquiet.mono fun _ s event hrun hok => ?_
    obtain ⟨ks, hks⟩ := sendRun_of_run hrun
    exact ⟨raisesWhenClosed_of_isQuiet (inv_of_run hks).1 hok.1, hok.2⟩
  exact ⟨s, hrun.mono fun _ _ _ _ _ => trivial, hcontrol,
    ((run_leaves_nothing hrun).1 (by rw [hcontrol]; rfl)).1, hstore⟩

/-- **A connection routine that raises `OSError` leaves the connection
behind**: `run_websocket` raises, connected, and a send still waits. -/
theorem osError_leaves_connection :
    ∃ events s, (clientMachine noDocument [] pings 1).Run Machine.Free events s ∧
      s.control = .raised [.other "OSError"] ∧ s.connected = true ∧
      s.send.websocket = some 0 ∧ s.send.pending.futures.get? 1 = some 1 ∧
      s.send.pending.store 1 = .waiting := by
  have hexec : ∃ s, (clientMachine noDocument [] pings 1).exec .init
      (connectedRun ++ [.taskEnds (.raised [.other "OSError"])] ++ endOfTasks) = some s ∧
      s.control = .raised [.other "OSError"] ∧ s.connected = true ∧
      s.send.websocket = some 0 ∧ s.send.pending.futures.get? 1 = some 1 ∧
      s.send.pending.store 1 = .waiting :=
    ⟨_, rfl, rfl, rfl, rfl, rfl, rfl⟩
  obtain ⟨s, hs, hrest⟩ := hexec
  exact ⟨_, s, Machine.run_of_exec hs, hrest⟩

end Client

end Tydomio
