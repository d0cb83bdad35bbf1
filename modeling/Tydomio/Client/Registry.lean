import Tydomio.Client.Moves

/-!
# The registry while calls are suspended

`SendInv` links the registry, the futures and the calls of `send`: an
entry is a running call's own future, under the transaction id of its
request, and a future that nobody completed is still registered. Each
field is kept by every step, and `SendInv` with them.
-/

namespace Tydomio

open Common Protocol

namespace Client

variable {codec : Codec} {cmdPrefix : Bytes} {requests : ℕ → ClientRequest}
variable {s s' : SendState} {c c' f f' : ℕ}

/-! ## Entries, futures and calls -/

/-- **What links the registry, the futures and the calls.** -/
structure SendInv (requests : ℕ → ClientRequest) (s : SendState) : Prop where
  /-- A future not made yet waits. -/
  fresh : ∀ f, s.pending.next ≤ f → s.pending.store f = .waiting
  /-- A call's future has been made. -/
  made : ∀ c f, (s.calls c).future? = some f → f < s.pending.next
  /-- A future is one call's own. -/
  own : ∀ c c' f, (s.calls c).future? = some f → (s.calls c').future? = some f → c = c'
  /-- An entry is a running call's, under its request's transaction id. -/
  entry : ∀ id f, s.pending.futures.get? id = some f →
    ∃ c, idOf requests c = some id ∧ (s.calls c).active? = some f
  /-- A future that waits is registered, unless its call ended in its
  write. -/
  waits : ∀ f, f < s.pending.next → s.pending.store f = .waiting →
    (∃ id, s.pending.futures.get? id = some f) ∨ ∃ c e, s.calls c = .unwritten f e
  /-- An interrupted call's future is done. -/
  interrupted : ∀ c f e, s.calls c = .interrupted f e → s.pending.store f ≠ .waiting

/-- Nothing is registered at first. -/
theorem sendInv_init : SendInv requests .init where
  fresh _ _ := rfl
  made _ _ h := nomatch h
  own _ _ _ h := nomatch h
  entry _ _ h := nomatch h
  waits _ h := nomatch h
  interrupted _ _ _ h := nomatch h

/-- An entry that is not the call's own is another's. -/
theorem SendInv.entry_ne (hs : SendInv requests s) {id : ℤ}
    (hget : s.pending.futures.get? id = some f)
    (h : ¬ ((s.calls c).active? = some f ∧ idOf requests c = some id)) :
    ∃ c', c' ≠ c ∧ idOf requests c' = some id ∧ (s.calls c').active? = some f := by
  obtain ⟨c', hid, hact⟩ := hs.entry id f hget
  exact ⟨c', fun hc => h (hc ▸ ⟨hact, hid⟩), hid, hact⟩

/-- An idle call has no entry. -/
theorem SendInv.entry_ne_of_idle (hs : SendInv requests s) {id : ℤ}
    (hget : s.pending.futures.get? id = some f) (hidle : s.calls c = .idle) :
    ∃ c', c' ≠ c ∧ idOf requests c' = some id ∧ (s.calls c').active? = some f := by
  have hnot : ¬ ((s.calls c).active? = some f ∧ idOf requests c = some id) := by
    rintro ⟨hact, -⟩
    rw [hidle] at hact
    cases hact
  exact hs.entry_ne hget hnot

/-- A call that resumes does so at a future that is done. -/
theorem SendInv.done_of_outcomeOf (hs : SendInv requests s) {outcome : Outcome}
    (hawaits : (s.calls c).awaits? = some f)
    (hout : s.outcomeOf codec requests c = some outcome) : s.pending.store f ≠ .waiting := by
  unfold SendState.outcomeOf at hout
  split at hout
  · rename_i g hcall
    rw [hcall] at hawaits
    cases hawaits
    intro hwait
    rw [hwait] at hout
    cases hout
  · rename_i g e hcall
    rw [hcall] at hawaits
    cases hawaits
    exact hs.interrupted c _ e hcall
  · cases hout

/-- Which futures the calls have: as before, or one more for a call that
starts. -/
theorem future?_of_move (hm : SendMove codec requests s s') :
    (s'.pending.next = s.pending.next ∧ ∀ c, (s'.calls c).future? = (s.calls c).future?) ∨
    ∃ c, s'.pending.next = s.pending.next + 1 ∧
      ∀ c', (s'.calls c').future? =
        if c' = c then some s.pending.next else (s.calls c').future? := by
  -- a call that moves without a new future keeps the one it has
  have hkeep : ∀ {c call}, s'.calls = Function.update s.calls c call →
      call.future? = (s.calls c).future? → ∀ c', (s'.calls c').future? = (s.calls c').future? := by
    intro c call hcalls hfuture c'
    rw [hcalls]
    by_cases hc : c' = c
    · rw [hc, Function.update_self, hfuture]
    · rw [Function.update_of_ne hc]
  cases hm with
  | refuse c e h => exact .inl ⟨rfl, hkeep rfl (by rw [h]; rfl)⟩
  | unwritable c id e h hid hget =>
      refine .inr ⟨c, by simp, fun c' => ?_⟩
      simp only [SendState.abandon_calls, SendState.setCall_calls, SendState.register_calls]
      split <;> rfl
  | write c w id h hid hget =>
      refine .inr ⟨c, by simp, fun c' => ?_⟩
      simp only [SendState.putOnWire_calls, SendState.setCall_calls, SendState.register_calls]
      split <;> rfl
  | written c f h => exact .inl ⟨rfl, hkeep rfl (by rw [h]; rfl)⟩
  | writeRaises c f e h =>
      have hcalls : (SendState.abandon requests (s.setCall c (.unwritten f e)) c f).calls =
          Function.update s.calls c (.unwritten f e) := by simp; rfl
      exact .inl ⟨by simp, hkeep hcalls (by rw [h]; rfl)⟩
  | finish c f outcome h hout =>
      have hfuture := Call.future?_of_active? (Call.active?_of_awaits? h)
      have hcalls : (SendState.abandon requests (s.setCall c (.ended f outcome)) c f).calls =
          Function.update s.calls c (.ended f outcome) := by simp; rfl
      exact .inl ⟨by simp, hkeep hcalls (by rw [hfuture]; rfl)⟩
  | interrupt c f e h =>
      have hfuture := Call.future?_of_active? (Call.active?_of_awaits? h)
      exact .inl ⟨by simp, hkeep rfl (by rw [hfuture]; rfl)⟩
  | readResponse response =>
      refine .inl ⟨?_, fun c' => by rw [SendState.readResponse_calls]⟩
      rcases SendState.readResponse_cases s response with ⟨_, _, h⟩ | h
      · exact h.next
      · exact h.next
  | flush e => exact .inl ⟨rfl, fun _ => rfl⟩
  | setWebsocket w => exact .inl ⟨rfl, fun _ => rfl⟩

section Preserved

variable (hs : SendInv requests s) (hm : SendMove codec requests s s')
include hs hm

/-- The futures of the calls are made, also after a move. -/
theorem made_of_move (h : (s'.calls c).future? = some f) : f < s'.pending.next := by
  rcases future?_of_move hm with ⟨hnext, hfut⟩ | ⟨c₀, hnext, hfut⟩
  · rw [hnext]
    exact hs.made c f (hfut c ▸ h)
  · rw [hfut] at h
    split at h
    · cases h
      omega
    · have := hs.made c f h
      omega

/-- And each is still one call's own. -/
theorem own_of_move (h : (s'.calls c).future? = some f) (h' : (s'.calls c').future? = some f) :
    c = c' := by
  rcases future?_of_move hm with ⟨-, hfut⟩ | ⟨c₀, -, hfut⟩
  · exact hs.own c c' f (hfut c ▸ h) (hfut c' ▸ h')
  · rw [hfut] at h h'
    split at h
    · rename_i hc
      split at h'
      · rename_i hc'
        rw [hc, hc']
      · cases h
        exact absurd (hs.made c' _ h') (lt_irrefl _)
    · split at h'
      · cases h'
        exact absurd (hs.made c _ h) (lt_irrefl _)
      · exact hs.own c c' f h h'

/-- A future once done is never touched again, and a step that makes one
finds it waiting. -/
theorem store_of_move (h : s.pending.store f ≠ .waiting) :
    s'.pending.store f = s.pending.store f := by
  -- the future a step makes was waiting before it
  have hne : f ≠ s.pending.next := fun hf => h (hs.fresh f (hf ▸ le_rfl))
  cases hm with
  | refuse | written | setWebsocket => rfl
  | unwritable c id e => simp [PendingRequests.register_store_of_ne hne]
  | write c w id => simp [PendingRequests.register_store_of_ne hne]
  | writeRaises | finish => simp
  | interrupt c f' e =>
      rw [SendState.interrupt_pending, PendingRequests.cancel_store,
        if_neg fun hc : f = f' ∧ _ => h (hc.1 ▸ hc.2)]
  | readResponse response =>
      rcases SendState.readResponse_cases s response with ⟨_, g, ht⟩ | hd
      · rw [ht.store, Function.update_of_ne fun hf : f = g => h (hf ▸ ht.waited)]
      · rw [hd.store]
  | flush e => rw [PendingRequests.flush_store, if_neg fun hc => h hc.2]

/-- A future is made waiting. -/
theorem fresh_of_move (h : s'.pending.next ≤ f) : s'.pending.store f = .waiting := by
  have hle : s.pending.next ≤ f := by
    rcases future?_of_move hm with ⟨hnext, -⟩ | ⟨_, hnext, -⟩ <;> omega
  have hwait := hs.fresh f hle
  cases hm with
  | refuse | written | setWebsocket => exact hwait
  | unwritable c id e =>
      simp only [SendState.abandon_next, SendState.setCall_pending, SendState.register_pending,
        PendingRequests.register_next] at h
      have hne : f ≠ s.pending.next := by omega
      simp [PendingRequests.register_store_of_ne hne, hwait]
  | write c w id =>
      simp only [SendState.putOnWire_pending, SendState.setCall_pending,
        SendState.register_pending, PendingRequests.register_next] at h
      have hne : f ≠ s.pending.next := by omega
      simp [PendingRequests.register_store_of_ne hne, hwait]
  | writeRaises | finish => simpa using hwait
  | interrupt c f' e hawaits =>
      have hlt := hs.made c f' (Call.future?_of_active? (Call.active?_of_awaits? hawaits))
      have hne : f ≠ f' := by omega
      rw [SendState.interrupt_pending, PendingRequests.cancel_store,
        if_neg fun hc : f = f' ∧ _ => hne hc.1]
      exact hwait
  | readResponse response =>
      rcases SendState.readResponse_cases s response with ⟨id, g, ht⟩ | hd
      · obtain ⟨c, -, hact⟩ := hs.entry id g ht.registered
        have hlt := hs.made c g (Call.future?_of_active? hact)
        have hne : f ≠ g := by omega
        rw [ht.store, Function.update_of_ne hne]
        exact hwait
      · rw [hd.store]
        exact hwait
  | flush e =>
      rw [PendingRequests.flush_store, if_neg fun hc => ?_]
      · exact hwait
      · obtain ⟨id, hget⟩ := Dict.mem_values.1 hc.1
        obtain ⟨c, -, hact⟩ := hs.entry id f hget
        have hlt := hs.made c f (Call.future?_of_active? hact)
        omega

/-- **No move leaves an entry without its running call.** -/
theorem entry_of_move {id : ℤ} (h : s'.pending.futures.get? id = some f) :
    ∃ c, idOf requests c = some id ∧ (s'.calls c).active? = some f := by
  cases hm with
  | refuse c e hidle =>
      obtain ⟨c', hne, hid, hact⟩ := hs.entry_ne_of_idle h hidle
      exact ⟨c', hid, by simpa [hne] using hact⟩
  | unwritable c id' e hidle hid' hfree =>
      obtain ⟨hget, hother⟩ := SendState.abandon_get?_eq_some.1 h
      simp only [SendState.setCall_pending, SendState.register_pending,
        PendingRequests.register_get?] at hget
      split at hget
      · rename_i hid
        cases hget
        exact absurd ⟨hid ▸ hid', rfl⟩ hother
      · obtain ⟨c', hne, hid, hact⟩ := hs.entry_ne_of_idle hget hidle
        exact ⟨c', hid, by simpa [hne] using hact⟩
  | write c w id' hidle hid' hfree =>
      simp only [SendState.putOnWire_pending, SendState.setCall_pending,
        SendState.register_pending, PendingRequests.register_get?] at h
      split at h
      · rename_i hid
        cases h
        exact ⟨c, by rw [hid', hid], by simp [Call.active?]⟩
      · obtain ⟨c', hne, hid, hact⟩ := hs.entry_ne_of_idle h hidle
        exact ⟨c', hid, by simpa [hne] using hact⟩
  | written c g hwriting =>
      obtain ⟨c', hid, hact⟩ := hs.entry id f h
      refine ⟨c', hid, ?_⟩
      by_cases hc : c' = c
      · rw [hc, hwriting] at hact
        simpa [hc, Call.active?] using hact
      · simpa [hc] using hact
  | writeRaises c g e hwriting =>
      obtain ⟨hget, hother⟩ := SendState.abandon_get?_eq_some.1 h
      have hmoved : ¬ ((s.calls c).active? = some f ∧ idOf requests c = some id) := by
        rintro ⟨hact, hid⟩
        rw [hwriting] at hact
        cases hact
        exact hother ⟨hid, rfl⟩
      obtain ⟨c', hne, hid, hact⟩ := hs.entry_ne hget hmoved
      exact ⟨c', hid, by simpa [hne] using hact⟩
  | finish c g outcome hawaits hout =>
      obtain ⟨hget, hother⟩ := SendState.abandon_get?_eq_some.1 h
      have hmoved : ¬ ((s.calls c).active? = some f ∧ idOf requests c = some id) := by
        rintro ⟨hact, hid⟩
        rw [Call.active?_of_awaits? hawaits] at hact
        cases hact
        exact hother ⟨hid, rfl⟩
      obtain ⟨c', hne, hid, hact⟩ := hs.entry_ne hget hmoved
      exact ⟨c', hid, by simpa [hne] using hact⟩
  | interrupt c g e hawaits =>
      rw [SendState.interrupt_pending, PendingRequests.cancel_futures] at h
      obtain ⟨c', hid, hact⟩ := hs.entry id f h
      refine ⟨c', hid, ?_⟩
      by_cases hc : c' = c
      · rw [hc, Call.active?_of_awaits? hawaits] at hact
        simpa [hc, Call.active?] using hact
      · simpa [hc] using hact
  | readResponse response =>
      rw [SendState.readResponse_calls]
      rcases SendState.readResponse_cases s response with ⟨id', g, ht⟩ | hd
      · rw [ht.futures, Dict.get?_erase] at h
        split at h
        · cases h
        · exact hs.entry id f h
      · exact hs.entry id f (hd.entry id f h)
  | flush e => cases h
  | setWebsocket w => exact hs.entry id f h

/-- **No move loses a future that waits**, but those of writes that ended. -/
theorem waits_of_move (hf : f < s'.pending.next) (hwait : s'.pending.store f = .waiting) :
    (∃ id, s'.pending.futures.get? id = some f) ∨ ∃ c e, s'.calls c = .unwritten f e := by
  have hwait' : s.pending.store f = .waiting := by
    by_contra h
    exact h (store_of_move hs hm h ▸ hwait)
  -- a future made before: it is enough to follow its entry
  have hold : f < s.pending.next →
      (∀ id, s.pending.futures.get? id = some f →
        (∃ id, s'.pending.futures.get? id = some f) ∨ ∃ c e, s'.calls c = .unwritten f e) →
      (∃ id, s'.pending.futures.get? id = some f) ∨ ∃ c e, s'.calls c = .unwritten f e := by
    intro hlt hentry
    rcases hs.waits f hlt hwait' with ⟨id, hget⟩ | ⟨c, e, hcall⟩
    · exact hentry id hget
    · exact .inr ⟨c, e, by rw [call_of_move_of_ended hm (by rw [hcall]; rfl), hcall]⟩
  cases hm with
  | refuse | written | setWebsocket => exact hold hf fun id hget => .inl ⟨id, hget⟩
  | unwritable c id e hidle hid hfree =>
      by_cases hnew : f = s.pending.next
      · exact .inr ⟨c, e, by simp [hnew]⟩
      · simp only [SendState.abandon_next, SendState.setCall_pending, SendState.register_pending,
          PendingRequests.register_next] at hf
        have hlt : f < s.pending.next := by omega
        refine hold hlt fun id' hget => .inl ⟨id', ?_⟩
        rw [SendState.abandon_get?_eq_some]
        refine ⟨?_, fun h => hnew h.2⟩
        have hne : id' ≠ id := PendingRequests.ne_of_get? hget hfree
        simpa [hne] using hget
  | write c w id hidle hid hfree =>
      by_cases hnew : f = s.pending.next
      · exact .inl ⟨id, by simp [hnew]⟩
      · simp only [SendState.putOnWire_pending, SendState.setCall_pending,
          SendState.register_pending, PendingRequests.register_next] at hf
        have hlt : f < s.pending.next := by omega
        refine hold hlt fun id' hget => .inl ⟨id', ?_⟩
        have hne : id' ≠ id := PendingRequests.ne_of_get? hget hfree
        simpa [hne] using hget
  | writeRaises c g e hwriting =>
      refine hold (by simpa using hf) fun id hget => ?_
      by_cases hg : f = g
      · exact .inr ⟨c, e, by simp [hg]⟩
      · exact .inl ⟨id, SendState.abandon_get?_eq_some.2 ⟨hget, fun h => hg h.2⟩⟩
  | finish c g outcome hawaits hout =>
      -- the entry that goes is of a future that is done
      have hdone := hs.done_of_outcomeOf hawaits hout
      refine hold (by simpa using hf) fun id hget => .inl ⟨id, ?_⟩
      exact SendState.abandon_get?_eq_some.2 ⟨hget, fun h => hdone (h.2 ▸ hwait')⟩
  | interrupt c g e hawaits =>
      exact hold (by simpa using hf) fun id hget => .inl ⟨id, by simpa using hget⟩
  | readResponse response =>
      rcases SendState.readResponse_cases s response with ⟨id', g, ht⟩ | hd
      · refine hold (ht.next ▸ hf) fun id hget => .inl ⟨id, ?_⟩
        rw [ht.futures, Dict.get?_erase, if_neg, hget]
        intro hid
        rw [hid, ht.registered] at hget
        cases hget
        simp [ht.store] at hwait
      · exact hold (hd.next ▸ hf) fun id hget => .inl ⟨id, hd.kept id f hget hwait'⟩
  | flush e =>
      refine hold hf fun id hget => ?_
      rw [PendingRequests.flush_store, if_pos ⟨Dict.mem_values.2 ⟨id, hget⟩, hwait'⟩] at hwait
      cases hwait

/-- A call is interrupted only with its future done. -/
theorem interrupted_of_move {e : Exc} (h : s'.calls c = .interrupted f e) :
    s'.pending.store f ≠ .waiting := by
  rcases call_of_move hm c with heq | hmove
  · have hdone := hs.interrupted c f e (heq ▸ h)
    rwa [store_of_move hs hm hdone]
  · rw [h] at hmove
    cases hmove with
    | interrupted _ _ _ hdone => exact hdone

/-- **A move keeps what links them.** -/
theorem sendInv_of_move : SendInv requests s' where
  fresh _ := fresh_of_move hs hm
  made _ _ := made_of_move hs hm
  own _ _ _ := own_of_move hs hm
  entry _ _ := entry_of_move hs hm
  waits _ := waits_of_move hs hm
  interrupted _ _ _ := interrupted_of_move hs hm

end Preserved

end Client

end Tydomio
