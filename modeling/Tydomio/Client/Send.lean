import Tydomio.Client.Registry
import Tydomio.Protocol.Parse

/-!
# What `send` guarantees in every interleaving

The responses read complete the futures made for them (`AnswerInv`), a
request goes on the wire once (`WireInv`), and a step leaves the entries
of other calls alone. `SendSafe` collects what follows of `send` in a
state; `send_safe` is that it holds in every state reached.
-/

namespace Tydomio

open Common Protocol

namespace Client

variable {codec : Codec} {cmdPrefix : Bytes} {requests : ℕ → ClientRequest}
variable {s s' : SendState} {c c' f f' : ℕ}

/-! ## Responses and the sends they complete -/

variable (s) in
/-- What a step leaves of the history of responses, where it reads none. -/
structure KeepsHistory (s' : SendState) : Prop where
  read : s'.history.read = s.history.read
  takenAt : s'.history.takenAt = s.history.takenAt
  madeAt : ∀ f, f ≠ s.pending.next → s'.history.madeAt f = s.history.madeAt f
  made_le : s'.history.madeAt s.pending.next ≤ s.history.read.length ∨
    s'.history.madeAt s.pending.next = s.history.madeAt s.pending.next
  result : ∀ f r, s'.pending.store f = .result r → s.pending.store f = .result r

theorem history_of_move (hm : SendMove codec requests s s') :
    KeepsHistory s s' ∨ ∃ response, s' = s.readResponse response := by
  have hregister : ∀ id f r, (s.pending.register id).store f = .result r →
      s.pending.store f = .result r := by
    intro id f r h
    by_cases hf : f = s.pending.next
    · rw [hf, PendingRequests.register_store_self] at h
      cases h
    · rwa [PendingRequests.register_store_of_ne hf] at h
  cases hm with
  | readResponse response => exact .inr ⟨response, rfl⟩
  | refuse | written | setWebsocket =>
      exact .inl ⟨rfl, rfl, fun _ _ => rfl, .inr rfl, fun _ _ h => h⟩
  | unwritable c id e =>
      refine .inl ⟨by simp; rfl, by simp; rfl, fun f hf => ?_, .inl ?_, fun f r h => ?_⟩
      · rw [SendState.abandon_history]
        exact Function.update_of_ne hf ..
      · simp [SendState.register]
      · exact hregister id f r (by simpa using h)
  | write c w id =>
      refine .inl ⟨rfl, rfl, fun f hf => Function.update_of_ne hf .., .inl ?_,
        fun f r h => hregister id f r h⟩
      simp [SendState.register, SendState.putOnWire]
  | writeRaises | finish =>
      exact .inl ⟨by simp, by simp, fun _ _ => by simp, .inr (by simp),
        fun _ _ h => by simpa using h⟩
  | interrupt c f e =>
      refine .inl ⟨rfl, rfl, fun _ _ => rfl, .inr rfl, fun g r h => ?_⟩
      rw [SendState.interrupt_pending, PendingRequests.cancel_store] at h
      split at h
      · cases h
      · exact h
  | flush e =>
      refine .inl ⟨rfl, rfl, fun _ _ => rfl, .inr rfl, fun g r h => ?_⟩
      rw [PendingRequests.flush_store] at h
      split at h
      · cases h
      · exact h

/-- **What links the responses read to the futures and the calls.** -/
structure AnswerInv (codec : Codec) (requests : ℕ → ClientRequest) (s : SendState) : Prop where
  made_le : ∀ f, s.history.madeAt f ≤ s.history.read.length
  taken_lt : ∀ f i, s.history.takenAt f = some i → i < s.history.read.length
  /-- A response completes one future. -/
  taken : ∀ f f' i, s.history.takenAt f = some i → s.history.takenAt f' = some i → f = f'
  /-- A future completed by a response was made before it was read, for its
  transaction id. -/
  answered : ∀ f r, s.pending.store f = .result r →
    ∃ i, s.history.takenAt f = some i ∧ s.history.read[i]? = some r ∧ s.history.madeAt f ≤ i ∧
      ∃ id, r.transacId = .ok (some id) ∧
        ∀ c, (s.calls c).future? = some f → idOf requests c = some id
  /-- A call returns what it parsed of its future's response. -/
  returned : ∀ c f parsed, s.calls c = .ended f (.returned parsed) →
    ∃ r, s.pending.store f = .result r ∧ (requests c).parseResponse codec r = .ok parsed

theorem answerInv_init : AnswerInv codec requests .init where
  made_le _ := le_rfl
  taken_lt _ _ h := nomatch h
  taken _ _ _ h := nomatch h
  answered _ _ h := nomatch h
  returned _ _ _ h := nomatch h

theorem result_of_outcomeOf {parsed : ParsedResponse} (hawaits : (s.calls c).awaits? = some f)
    (hout : s.outcomeOf codec requests c = some (.returned parsed)) :
    ∃ r, s.pending.store f = .result r ∧ (requests c).parseResponse codec r = .ok parsed := by
  unfold SendState.outcomeOf at hout
  split at hout
  · rename_i g hcall
    rw [hcall] at hawaits
    cases hawaits
    split at hout
    · cases hout
    · rename_i r hr
      refine ⟨r, hr, ?_⟩
      split at hout
      · cases hout
        assumption
      · cases hout
    · cases hout
    · cases hout
  · cases hout
  · cases hout

section Answers

variable (hs : SendInv requests s) (ha : AnswerInv codec requests s)
  (hm : SendMove codec requests s s')
include hs ha hm

theorem returned_of_move {parsed : ParsedResponse}
    (h : s'.calls c = .ended f (.returned parsed)) :
    ∃ r, s'.pending.store f = .result r ∧ (requests c).parseResponse codec r = .ok parsed := by
  have hbefore : ∃ r, s.pending.store f = .result r ∧
      (requests c).parseResponse codec r = .ok parsed := by
    rcases call_of_move hm c with heq | hmove
    · exact ha.returned c f parsed (heq ▸ h)
    · rw [h] at hmove
      cases hmove with
      | ended _ _ hawaits hout => exact result_of_outcomeOf hawaits hout
  -- the future was done, so its result stays
  obtain ⟨r, hr, hparse⟩ := hbefore
  exact ⟨r, by rw [store_of_move hs hm (by rw [hr]; nofun), hr], hparse⟩

theorem answered_of_move {r : Response} (h : s'.pending.store f = .result r) :
    ∃ i, s'.history.takenAt f = some i ∧ s'.history.read[i]? = some r ∧
      s'.history.madeAt f ≤ i ∧ ∃ id, r.transacId = .ok (some id) ∧
        ∀ c, (s'.calls c).future? = some f → idOf requests c = some id := by
  rcases history_of_move hm with hk | ⟨response, rfl⟩
  · have hr := hk.result f r h
    have hne : f ≠ s.pending.next := fun hf => by
      rw [hs.fresh f hf.ge] at hr
      cases hr
    obtain ⟨i, htaken, hread, hmade, id, hid, hcalls⟩ := ha.answered f r hr
    refine ⟨i, by rw [hk.takenAt, htaken], by rw [hk.read, hread],
      by rw [hk.madeAt f hne]; exact hmade, id, hid, fun c hc => hcalls c ?_⟩
    rcases future?_of_move hm with ⟨-, hfut⟩ | ⟨c₀, -, hfut⟩
    · rwa [hfut] at hc
    · rw [hfut] at hc
      split at hc
      · exact absurd (Option.some.inj hc).symm hne
      · exact hc
  · simp only [SendState.readResponse_read, SendState.readResponse_madeAt,
      SendState.readResponse_calls]
    rcases SendState.readResponse_cases s response with ⟨id, g, ht⟩ | hd
    · by_cases hg : f = g
      -- the future the response completes is that of the call of its entry
      · rw [hg, ht.store, Function.update_self] at h
        cases h
        obtain ⟨c, hid, hact⟩ := hs.entry id g ht.registered
        refine ⟨_, by rw [ht.takenAt, hg, Function.update_self], by simp, ha.made_le f, id,
          ht.transacId, fun c' hc' => ?_⟩
        rw [hs.own c' c f hc' (hg ▸ Call.future?_of_active? hact), hid]
      · rw [ht.store, Function.update_of_ne hg] at h
        obtain ⟨i, htaken, hread, hrest⟩ := ha.answered f r h
        exact ⟨i, by rw [ht.takenAt, Function.update_of_ne hg, htaken],
          by rw [List.getElem?_append_left (ha.taken_lt f i htaken), hread], hrest⟩
    · rw [hd.store] at h
      obtain ⟨i, htaken, hread, hrest⟩ := ha.answered f r h
      exact ⟨i, by rw [hd.takenAt, htaken],
        by rw [List.getElem?_append_left (ha.taken_lt f i htaken), hread], hrest⟩

theorem answerInv_of_move : AnswerInv codec requests s' where
  returned _ _ _ := returned_of_move hs ha hm
  answered _ _ := answered_of_move hs ha hm
  made_le f := by
    rcases history_of_move hm with hk | ⟨response, rfl⟩
    · rw [hk.read]
      by_cases hf : f = s.pending.next
      · rcases hk.made_le with h | h
        · exact hf ▸ h
        · rw [hf, h]
          exact ha.made_le _
      · rw [hk.madeAt f hf]
        exact ha.made_le f
    · simpa using (ha.made_le f).trans (Nat.le_succ _)
  taken_lt f i h := by
    rcases history_of_move hm with hk | ⟨response, rfl⟩
    · rw [hk.read]
      exact ha.taken_lt f i (hk.takenAt ▸ h)
    · rw [SendState.readResponse_read, List.length_append, List.length_singleton]
      rcases SendState.readResponse_cases s response with ⟨_, g, ht⟩ | hd
      · rw [ht.takenAt, Function.update_apply] at h
        split at h
        · cases h
          exact Nat.lt_succ_self _
        · exact (ha.taken_lt f i h).trans (Nat.lt_succ_self _)
      · exact (ha.taken_lt f i (hd.takenAt ▸ h)).trans (Nat.lt_succ_self _)
  taken f f' i h h' := by
    rcases history_of_move hm with hk | ⟨response, rfl⟩
    · exact ha.taken f f' i (hk.takenAt ▸ h) (hk.takenAt ▸ h')
    · rcases SendState.readResponse_cases s response with ⟨_, g, ht⟩ | hd
      · rw [ht.takenAt, Function.update_apply] at h h'
        split at h
        · rename_i hf
          split at h'
          · rename_i hf'
            rw [hf, hf']
          · cases h
            exact absurd (ha.taken_lt f' _ h') (lt_irrefl _)
        · split at h'
          · cases h'
            exact absurd (ha.taken_lt f _ h) (lt_irrefl _)
          · exact ha.taken f f' i h h'
      · exact ha.taken f f' i (hd.takenAt ▸ h) (hd.takenAt ▸ h')

end Answers

/-! ## Requests on the wire -/

/-- A call is on the wire once at most, and not before it starts. -/
structure WireInv (s : SendState) : Prop where
  idle : ∀ c, s.calls c = .idle → c ∉ s.history.wire.map Prod.fst
  nodup : (s.history.wire.map Prod.fst).Nodup

theorem wireInv_init : WireInv .init := ⟨fun _ _ => List.not_mem_nil, List.nodup_nil⟩

theorem wireInv_of_move (hw : WireInv s) (hm : SendMove codec requests s s') : WireInv s' := by
  -- the wire is as before, unless a call that was idle goes on it
  have hwire : s'.history.wire = s.history.wire ∨ ∃ c w, s.calls c = .idle ∧
      s'.calls c ≠ .idle ∧ s'.history.wire = s.history.wire ++ [(c, w)] := by
    cases hm with
    | write c w id hidle => exact .inr ⟨c, w, hidle, by simp, rfl⟩
    | unwritable c id e => exact .inl (by simp; rfl)
    | writeRaises | finish => exact .inl (by simp)
    | readResponse response => exact .inl (by simp)
    | refuse | written | interrupt | flush | setWebsocket => exact .inl rfl
  rcases hwire with heq | ⟨c, w, hidle, hstarted, heq⟩
  · exact ⟨fun c' h => heq ▸ hw.idle c' (idle_of_move hm h), heq ▸ hw.nodup⟩
  · refine ⟨fun c' h => ?_, ?_⟩
    · rw [heq, List.map_append, List.mem_append, List.map_singleton, List.mem_singleton]
      rintro (hmem | rfl)
      · exact hw.idle c' (idle_of_move hm h) hmem
      · exact hstarted h
    · rw [heq, List.map_append, List.map_singleton, List.nodup_append]
      refine ⟨hw.nodup, List.nodup_singleton c, fun a ha b hb hab => ?_⟩
      rw [List.mem_singleton] at hb
      have hac : a = c := hab.trans hb
      exact hw.idle c hidle (hac ▸ ha)

/-! ## What a step leaves of the other entries -/

section Entries

variable (hs : SendInv requests s)
include hs

/-- A registered future has been made. -/
theorem SendInv.lt_of_get? {id : ℤ} (h : s.pending.futures.get? id = some f) :
    f < s.pending.next := by
  obtain ⟨c, -, hact⟩ := hs.entry id f h
  exact hs.made c f (Call.future?_of_active? hact)

/-- A call that starts leaves every entry in place. -/
theorem get?_start {id : ℤ} (h : s.pending.futures.get? id = some f) :
    (s.start cmdPrefix requests c).pending.futures.get? id = some f := by
  generalize hstart : s.start cmdPrefix requests c = t
  cases (hstart ▸ startCase_start : StartCase requests s c t) with
  | refuse e => exact h
  | unwritable id₀ w e hid hfree =>
      have hne : id ≠ id₀ := PendingRequests.ne_of_get? h hfree
      refine SendState.abandon_get?_eq_some.2 ⟨by simpa [hne] using h, fun hown => ?_⟩
      have hlt := hs.lt_of_get? h
      omega
  | write id₀ w hid hfree =>
      have hne : id ≠ id₀ := PendingRequests.ne_of_get? h hfree
      simpa [hne] using h

/-- A call that ends leaves every entry but its own. -/
theorem get?_of_move_of_ended (hm : SendMove codec requests s s')
    (hbefore : (s.calls c).outcome? = none) (hafter : (s'.calls c).outcome?.isSome = true)
    {id : ℤ} (h : s.pending.futures.get? id = some f) (hother : (s'.calls c).future? ≠ some f) :
    s'.pending.futures.get? id = some f := by
  -- the call that ends is the one the step moves, `c₀`
  have hsame : s'.calls c ≠ s.calls c := fun heq => by
    rw [heq, hbefore] at hafter
    cases hafter
  have hmoved : ∀ c₀ call, s'.calls = Function.update s.calls c₀ call → c = c₀ := by
    intro c₀ call hcalls
    by_contra hc
    exact hsame (by rw [hcalls, Function.update_of_ne hc])
  cases hm with
  | refuse | setWebsocket => exact h
  | flush => exact absurd rfl hsame
  | readResponse response => exact absurd (by rw [SendState.readResponse_calls]) hsame
  | unwritable c₀ id₀ e hidle hid hfree =>
      have hne : id ≠ id₀ := PendingRequests.ne_of_get? h hfree
      refine SendState.abandon_get?_eq_some.2 ⟨by simpa [hne] using h, fun hown => ?_⟩
      have hlt := hs.lt_of_get? h
      omega
  | write c₀ w id₀ hidle hid hfree =>
      have hne : id ≠ id₀ := PendingRequests.ne_of_get? h hfree
      simpa [hne] using h
  | written c₀ g hwriting => exact h
  | writeRaises c₀ g e hwriting =>
      obtain rfl := hmoved c₀ (.unwritten g e) (by simp; rfl)
      refine SendState.abandon_get?_eq_some.2 ⟨h, fun hown => hother ?_⟩
      simp [Call.future?, hown.2]
  | finish c₀ g outcome hawaits hout =>
      obtain rfl := hmoved c₀ (.ended g outcome) (by simp; rfl)
      refine SendState.abandon_get?_eq_some.2 ⟨h, fun hown => hother ?_⟩
      simp [Call.future?, hown.2]
  | interrupt c₀ g e hawaits => simpa using h

omit hs in
/-- An entry is an old one or the future made in the step. -/
theorem get?_of_move (hm : SendMove codec requests s s') {id : ℤ}
    (h : s'.pending.futures.get? id = some f) :
    s.pending.futures.get? id = some f ∨ f = s.pending.next := by
  have hregister : ∀ {id₀}, (s.pending.register id₀).futures.get? id = some f →
      s.pending.futures.get? id = some f ∨ f = s.pending.next := by
    intro id₀ h
    rw [PendingRequests.register_get?] at h
    split at h
    · exact .inr (Option.some.inj h).symm
    · exact .inl h
  cases hm with
  | refuse | setWebsocket | written => exact .inl h
  | unwritable c id₀ e => exact hregister (SendState.abandon_get?_eq_some.1 h).1
  | write c w id₀ => exact hregister h
  | writeRaises | finish => exact .inl (SendState.abandon_get?_eq_some.1 h).1
  | interrupt c g e => exact .inl (by simpa using h)
  | flush => cases h
  | readResponse response =>
      rcases SendState.readResponse_cases s response with ⟨_, g, ht⟩ | hd
      · rw [ht.futures, Dict.get?_erase] at h
        split at h
        · cases h
        · exact .inl h
      · exact .inl (hd.entry id f h)

end Entries

/-- Where every entry is the `n`-th future or later, it stays so. -/
theorem le_of_exec {n : ℕ} {events : List SendEvent} (hn : n ≤ s.pending.next)
    (hentries : ∀ id f, s.pending.futures.get? id = some f → n ≤ f)
    (h : (sendMachine codec cmdPrefix requests).exec s events = some s') :
    ∀ id f, s'.pending.futures.get? id = some f → n ≤ f := by
  induction events generalizing s with
  | nil =>
      cases h
      exact hentries
  | cons event events ih =>
      rw [Machine.exec, Option.bind_eq_some_iff] at h
      obtain ⟨m, hstep, hrest⟩ := h
      have hm := sendMove_of_step hstep
      refine ih ?_ (fun id f hget => ?_) hrest
      · rcases future?_of_move hm with ⟨hnext, -⟩ | ⟨_, hnext, -⟩ <;> omega
      · rcases get?_of_move hm hget with hold | hnew
        · exact hentries id f hold
        · exact hnew ▸ hn

/-! ## The guarantees -/

/-- **What holds of `send` in a state.** -/
structure SendSafe (codec : Codec) (cmdPrefix : Bytes) (requests : ℕ → ClientRequest)
    (s : SendState) : Prop where
  /-- A send returns a response with its own transaction id, read after it
  registered its future. -/
  returns_own : ∀ c f parsed, s.calls c = .ended f (.returned parsed) →
    ∃ id i, idOf requests c = some id ∧ parsed.response.transacId = .ok (some id) ∧
      s.history.read[i]? = some parsed.response ∧ s.history.madeAt f ≤ i ∧
      s.history.takenAt f = some i
  /-- A response completes one send at most. -/
  completes_one : ∀ c c' f f' i, (s.calls c).future? = some f → (s.calls c').future? = some f' →
    s.history.takenAt f = some i → s.history.takenAt f' = some i → c = c'
  /-- A send that registers its future replaces no other. -/
  replaces_none : ∀ c s', sendStep codec cmdPrefix requests s (.start c) = some s' →
    ∀ id f, s.pending.futures.get? id = some f → s'.pending.futures.get? id = some f
  /-- A future that is done is not completed again. -/
  done_once : ∀ event s', sendStep codec cmdPrefix requests s event = some s' →
    ∀ f, (s.pending.store f).done = true → s'.pending.store f = s.pending.store f
  /-- The future of a send that ended is not registered. -/
  unregistered : ∀ c f, (s.calls c).outcome?.isSome = true → (s.calls c).future? = some f →
    ∀ id, s.pending.futures.get? id ≠ some f
  /-- A send that ends removes the entry of no other. -/
  keeps_others : ∀ event s', sendStep codec cmdPrefix requests s event = some s' →
    ∀ c, (s.calls c).outcome? = none → (s'.calls c).outcome?.isSome = true →
      ∀ id f, s.pending.futures.get? id = some f → (s'.calls c).future? ≠ some f →
        s'.pending.futures.get? id = some f
  /-- After a flush, whatever follows, no future made before it is
  pending. -/
  flushed : ∀ e s', sendStep codec cmdPrefix requests s (.flush e) = some s' →
    ∀ events s'', (sendMachine codec cmdPrefix requests).exec s' events = some s'' →
      ∀ id f, s''.pending.futures.get? id = some f → s.pending.next ≤ f
  /-- A send is on the wire once at most. -/
  on_wire_once : (s.history.wire.map Prod.fst).Nodup

theorem sendSafe_of_inv (hs : SendInv requests s) (ha : AnswerInv codec requests s)
    (hw : WireInv s) : SendSafe codec cmdPrefix requests s where
  returns_own c f parsed h := by
    obtain ⟨r, hr, hparse⟩ := ha.returned c f parsed h
    obtain ⟨i, htaken, hread, hmade, id, hid, hcalls⟩ := ha.answered f r hr
    rw [ResponseType.response_init hparse]
    exact ⟨id, i, hcalls c (by rw [h]; rfl), hid, hread, hmade, htaken⟩
  completes_one c c' f f' i hf hf' hi hi' := by
    obtain rfl := ha.taken f f' i hi hi'
    exact hs.own c c' f hf hf'
  replaces_none c s' h id f hget := by
    simp only [sendStep] at h
    split at h
    · cases h
      exact get?_start hs hget
    · cases h
  done_once event s' h f hdone := by
    refine store_of_move hs (sendMove_of_step h) fun hwait => ?_
    rw [hwait] at hdone
    cases hdone
  unregistered c f hended hf id hget := by
    obtain ⟨c', -, hact⟩ := hs.entry id f hget
    obtain rfl := hs.own c c' f hf (Call.future?_of_active? hact)
    cases hcall : s.calls c <;> simp [hcall, Call.active?, Call.outcome?] at hact hended
  keeps_others event s' h c hbefore hafter id f hget hother :=
    get?_of_move_of_ended hs (sendMove_of_step h) hbefore hafter hget hother
  flushed e s' h events s'' hexec := by
    cases h
    refine le_of_exec ?_ (fun id f hget => ?_) hexec
    · rw [PendingRequests.flush_next]
    · cases hget
  on_wire_once := hw.nodup

/-- The invariants hold in every state reached. -/
theorem inv_of_run {events : List SendEvent}
    (h : (sendMachine codec cmdPrefix requests).Run Machine.Free events s) :
    SendInv requests s ∧ AnswerInv codec requests s ∧ WireInv s := by
  refine h.invariant (I := fun s => SendInv requests s ∧ AnswerInv codec requests s ∧ WireInv s)
    ⟨sendInv_init, answerInv_init, wireInv_init⟩ ?_
  rintro s event s' ⟨hs, ha, hw⟩ - hstep
  have hm := sendMove_of_step hstep
  exact ⟨sendInv_of_move hs hm, answerInv_of_move hs ha hm, wireInv_of_move hw hm⟩

/-- **`send` is safe in every interleaving** of any number of calls with
responses, timeouts, cancellations and connection losses. -/
theorem send_safe {events : List SendEvent}
    (h : (sendMachine codec cmdPrefix requests).Run Machine.Free events s) :
    SendSafe codec cmdPrefix requests s :=
  let ⟨hs, ha, hw⟩ := inv_of_run h
  sendSafe_of_inv hs ha hw

/-- A ping answered: it goes on the wire of connection `0`, and its
response is read. -/
def answeredPing (response : Response) : List SendEvent :=
  [.setWebsocket (some 0), .start 0, .written 0, .readResponse response, .resume 0]

/-- Its response. -/
def pong : Response := ⟨200, Dict.ofList [("transac-id", "7")], none⟩

theorem send_safe_answeredPing :
    ∃ s, s.calls 0 = .ended 0 (.returned (.ok pong)) ∧
      SendSafe noDocument [] (fun _ => pingRequest 7) s := by
  have hexec : ∃ s, (sendMachine noDocument [] fun _ => pingRequest 7).exec .init
      (answeredPing pong) = some s ∧ s.calls 0 = .ended 0 (.returned (.ok pong)) :=
    ⟨_, rfl, rfl⟩
  obtain ⟨s, hs, hcall⟩ := hexec
  exact ⟨s, hcall, send_safe (Machine.run_of_exec hs)⟩

end Client

end Tydomio
