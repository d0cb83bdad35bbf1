import Tydomio.Client.Calls

/-!
# What goes on the wire of a connection

A request goes on the wire when its send starts, and on the connection that
the client has. While its task group runs, the client keeps the connection.
-/

namespace Tydomio

open Common Protocol

namespace Client

variable {codec : Codec} {cmdPrefix : Bytes} {requests : ℕ → ClientRequest} {routines : ℕ}

/-! ## The task group -/

/-- `run_websocket` is in the task group of a connection. -/
def Control.inGroup : Control → Bool
  | connected .. => true
  | _ => false

/-- Leaving a connection leaves its task group. -/
theorem inGroup_leave (s : ClientState) (errors : List Exc) (retry : Bool) :
    (s.leave errors retry).control.inGroup = false := by
  unfold ClientState.leave
  dsimp only
  split <;> rfl

/-- No task group runs between two connections. -/
theorem inGroup_nextControl (exiting retry : Bool) :
    (nextControl exiting retry).inGroup = false := by
  cases exiting <;> cases retry <;> rfl

/-- Nor while a websocket closes. -/
theorem inGroup_close (s : ClientState) (exiting retry : Bool) :
    (s.close exiting retry).control.inGroup = false := by
  unfold ClientState.close
  split
  · rfl
  · exact inGroup_nextControl exiting retry

section Client

variable {s s' : ClientState} {event : ClientEvent}

/-- **Only its opening and its end move a task group**, and the connection
stays while it runs. -/
theorem group_of_step (h : clientStep codec cmdPrefix requests routines s event = some s')
    (hopened : ∀ w, event ≠ .opened w) (hends : event ≠ .groupEnds) :
    s'.control.inGroup = s.control.inGroup ∧
      (s.control.inGroup = true → s'.send.websocket = s.send.websocket) := by
  -- outside a task group there is nothing to keep
  have houtside : s.control.inGroup = false → s'.control.inGroup = false →
      s'.control.inGroup = s.control.inGroup ∧
        (s.control.inGroup = true → s'.send.websocket = s.send.websocket) := fun hs hs' =>
    ⟨hs'.trans hs.symm, fun hgroup => absurd (hs.symm.trans hgroup) Bool.false_ne_true⟩
  cases event with
  | opened w => exact absurd rfl (hopened w)
  | groupEnds => exact absurd rfl hends
  | send event =>
      obtain ⟨t, ht, rfl⟩ := Option.map_eq_some_iff.1 h
      exact ⟨rfl, fun _ => websocket_of_taskStep ht⟩
  | authorized | unauthorized | pauseEnds =>
      simp only [clientStep] at h
      split at h <;> cases h
      rename_i hcontrol
      exact houtside (by rw [hcontrol]; rfl) rfl
  | authorizationRaises errors | pauseRaises errors =>
      simp only [clientStep] at h
      split at h
      · rename_i hcontrol
        split at h <;> cases h
        exact houtside (by rw [hcontrol]; rfl) rfl
      · cases h
  | openFails =>
      simp only [clientStep] at h
      split at h <;> cases h
      rename_i hcontrol
      exact houtside (by rw [hcontrol]; rfl) (inGroup_leave _ _ _)
  | openRaises errors =>
      simp only [clientStep] at h
      split at h
      · rename_i hcontrol
        split at h <;> cases h
        exact houtside (by rw [hcontrol]; rfl) (inGroup_leave _ _ _)
      · cases h
  | taskStarts | cancelRun =>
      simp only [clientStep] at h
      split at h <;> cases h
      rename_i hcontrol
      exact ⟨by rw [hcontrol]; rfl, fun _ => rfl⟩
  | taskEnds result =>
      simp only [clientStep] at h
      split at h
      · rename_i hcontrol
        split at h <;> cases h
        exact ⟨by rw [hcontrol]; rfl, fun _ => rfl⟩
      · rename_i hcontrol _
        cases h
        exact ⟨by rw [hcontrol]; rfl, fun _ => rfl⟩
      · cases h
  | exitReturns =>
      simp only [clientStep] at h
      split at h <;> cases h
      rename_i hcontrol
      exact houtside (by rw [hcontrol]; rfl) (inGroup_leave _ _ _)
  | exitRaises errors =>
      simp only [clientStep] at h
      split at h
      · rename_i hcontrol
        split at h <;> cases h
        exact houtside (by rw [hcontrol]; rfl) (inGroup_leave _ _ _)
      · cases h
  | routinesEnd errors =>
      simp only [clientStep] at h
      split at h
      · rename_i hcontrol
        split at h <;> cases h
        · exact houtside (by rw [hcontrol]; rfl) (inGroup_close _ _ _)
        · exact houtside (by rw [hcontrol]; rfl) rfl
      · cases h
  | closeReturns =>
      simp only [clientStep] at h
      split at h <;> cases h
      rename_i exiting retry hcontrol
      exact houtside (by rw [hcontrol]; rfl) (inGroup_nextControl exiting retry)
  | closeRaises errors =>
      simp only [clientStep] at h
      split at h
      · rename_i hcontrol
        split at h <;> cases h
        exact houtside (by rw [hcontrol]; rfl) rfl
      · cases h

/-- A task group starts on the connection that is opened. -/
theorem group_of_opened {w : ℕ}
    (h : clientStep codec cmdPrefix requests routines s (.opened w) = some s') :
    s.control.inGroup = false ∧ s'.control.inGroup = true ∧ s'.send.websocket = some w := by
  simp only [clientStep] at h
  split at h <;> cases h
  rename_i hcontrol
  exact ⟨by rw [hcontrol]; rfl, rfl, rfl⟩

/-- A task group that ends is left. -/
theorem group_of_groupEnds
    (h : clientStep codec cmdPrefix requests routines s .groupEnds = some s') :
    s'.control.inGroup = false := by
  simp only [clientStep] at h
  split at h <;> cases h
  rfl

end Client

/-! ## The wire -/

section Wire

variable {s s' : SendState}

/-- What is on the wire stays there, whatever becomes of its call. -/
theorem abandon_wire (t : SendState) (c f : ℕ) :
    (t.abandon requests c f).history.wire = t.history.wire := by
  rw [SendState.abandon_history]

/-- **A request goes on the wire as its send starts**, on the connection
there is. -/
theorem wire_of_sendStep {event : SendEvent}
    (h : sendStep codec cmdPrefix requests s event = some s') :
    s'.history.wire = s.history.wire ∨ ∃ c w, event = .start c ∧ s.websocket = some w ∧
      s'.history.wire = s.history.wire ++ [(c, w)] := by
  cases event with
  | start c =>
      simp only [sendStep] at h
      split at h <;> cases h
      generalize hstart : s.start cmdPrefix requests c = t
      cases (hstart ▸ startCase_start : StartCase requests s c t) with
      | refuse => exact .inl rfl
      | unwritable => exact .inl (by rw [abandon_wire]; rfl)
      | write id w _ _ hw => exact .inr ⟨c, w, rfl, hw, rfl⟩
  | written c =>
      simp only [sendStep] at h
      split at h <;> cases h
      exact .inl rfl
  | writeRaises c e =>
      simp only [sendStep] at h
      split at h <;> cases h
      exact .inl (by rw [abandon_wire]; rfl)
  | resume c =>
      simp only [sendStep] at h
      split at h <;> cases h
      exact .inl (by rw [abandon_wire]; rfl)
  | cancel c =>
      simp only [sendStep] at h
      split at h <;> cases h <;> exact .inl rfl
  | timeout c =>
      simp only [sendStep] at h
      split at h <;> cases h
      exact .inl rfl
  | readResponse response =>
      cases h
      exact .inl (by rw [SendState.readResponse_wire])
  | flush | setWebsocket =>
      cases h
      exact .inl rfl

end Wire

/-- Leaving a connection sends nothing. -/
theorem wire_leave (s : ClientState) (errors : List Exc) (retry : Bool) :
    (s.leave errors retry).send.history = s.send.history := by
  unfold ClientState.leave
  dsimp only
  split <;> rfl

/-- **So does the whole client**: nothing else puts a request on the wire. -/
theorem wire_of_step {s s' : ClientState} {event : ClientEvent}
    (h : clientStep codec cmdPrefix requests routines s event = some s') :
    s'.send.history.wire = s.send.history.wire ∨
      ∃ c w, event = .send (.start c) ∧ s.send.websocket = some w ∧
        s'.send.history.wire = s.send.history.wire ++ [(c, w)] := by
  cases clientMove_of_step h with
  | between | connected | opened | routinesRaise | closeReturns | closeRaises => exact .inl rfl
  | openFails => exact .inl (by rw [wire_leave]; rfl)
  | openRaises errors => exact .inl (by rw [wire_leave])
  | exits errors => exact .inl (by rw [wire_leave])
  | routinesEnd errors exiting retry =>
      unfold ClientState.close
      split <;> exact .inl rfl
  | send event t ht =>
      rcases wire_of_sendStep (taskStep_eq_some.1 ht).2 with hkept | ⟨c, w, rfl, hw, hwire⟩
      · exact .inl hkept
      · exact .inr ⟨c, w, rfl, hw, hwire⟩

end Client

end Tydomio
