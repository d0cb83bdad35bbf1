import Tydomio.Client.Calls
import Tydomio.Mcp.Begin

/-!
# Calls of the tools and their sends

A call of a write tool goes on when its send has ended, in the same step.
`ServerInv` links each call to the request it made and to the send of it: a
case of `Linked` for each place a call can be, kept by every step of the
server.
-/

namespace Tydomio

open Common Protocol Client

namespace Mcp

section Invariant

variable {codec : Codec} {cmdPrefix : Bytes} {routines : ℕ} {first : ℤ}
variable {s s' t : ServerState} {k k' n n' : ℕ}

theorem maker?_eq_some : s.maker? n = some k ↔
    ∃ request, s.made[n]? = some ⟨request, some k⟩ := by
  unfold ServerState.maker?
  rw [Option.bind_eq_some_iff]
  constructor
  · rintro ⟨⟨request, maker⟩, hmade, rfl⟩
    exact ⟨request, hmade⟩
  · rintro ⟨request, hmade⟩
    exact ⟨_, hmade, rfl⟩

/-- An item of a list with one more is an old one or the last. -/
theorem getElem?_concat_eq_some {α : Type} {l : List α} {a b : α}
    (h : (l ++ [a])[n]? = some b) : l[n]? = some b ∨ n = l.length ∧ b = a := by
  rw [List.getElem?_append] at h
  split at h
  · exact .inl h
  · rw [List.getElem?_singleton] at h
    split at h
    · cases h
      exact .inr ⟨by omega, rfl⟩
    · cases h

theorem requests_of_made {m : Made} (h : s.made[n]? = some m) :
    s.requests first n = m.request := by
  simp only [ServerState.requests, h, Option.map_some, Option.getD_some]

/-! ## Calls and their sends -/

/-- The phases of a call of which nothing is sent. -/
def CallPhase.unsent : CallPhase → Bool
  | .idle | .invalidInput => true
  | .reported report => report.outcome = "not_sent"
  | _ => false

/-- The phase a call goes on to, by the outcome of its send. -/
def phaseAfter (target : String) (write : UsageWrite) (sentAt : DateTime) : Outcome → CallPhase
  | .returned _ => .reported (acknowledgedReport target write sentAt)
  | .raised e =>
      if e.isCommunication then .reported (unknownReport target write sentAt) else .raised e

/-- The call made the request after `n` others, to write fields of a
target. -/
def MadeAs (first : ℤ) (s : ServerState) (k n : ℕ) (text : String) (fields : WriteBody) : Prop :=
  ∃ target, Target.parse text = some target ∧
    s.made[n]? = some ⟨⟨putRequest target fields (first + n), .ok⟩, some k⟩

/-- **What the phase of a call says of its send.** -/
inductive Linked (first : ℤ) (s : ServerState) (k : ℕ) : CallPhase → Prop
  /-- The request it made, if any, is not sent. -/
  | unsent (phase : CallPhase) : phase.unsent = true →
      (∀ n, s.maker? n = some k → s.client.send.calls n = .idle) → Linked first s k phase
  /-- It is suspended in its send. -/
  | sending (n : ℕ) (target : String) (write : UsageWrite) (sentAt : DateTime) :
      MadeAs first s k n target write.body → (s.client.send.calls n).outcome? = none →
      Linked first s k (.sending target write sentAt)
  /-- It went on with the outcome of its send. -/
  | ended (n : ℕ) (target : String) (write : UsageWrite) (sentAt : DateTime) (outcome : Outcome) :
      MadeAs first s k n target write.body → (s.client.send.calls n).outcome? = some outcome →
      Linked first s k (phaseAfter target write sentAt outcome)

/-- **What links the requests, the sends and the calls.** -/
structure ServerInv (first : ℤ) (s : ServerState) : Prop where
  ids : ∀ (n : ℕ) m, s.made[n]? = some m → m.request.request.transactionId = some (first + n)
  /-- What is sent was made. -/
  started : ∀ n, s.client.send.calls n ≠ .idle → n < s.made.length
  /-- A call makes a write. -/
  writes : ∀ n k, s.maker? n = some k → ∃ target fields,
    s.made[n]? = some ⟨⟨putRequest target fields (first + n), .ok⟩, some k⟩
  /-- A call that has not begun made nothing. -/
  began : ∀ n k, s.maker? n = some k → s.calls.calls k ≠ .idle
  /-- A call makes one request at most. -/
  one : ∀ n n' k, s.maker? n = some k → s.maker? n' = some k → n = n'
  phases : ∀ k, Linked first s k (s.calls.calls k)

theorem MadeAs.maker {text : String} {fields : WriteBody} (h : MadeAs first s k n text fields) :
    s.maker? n = some k := by
  obtain ⟨target, -, hmade⟩ := h
  exact maker?_eq_some.2 ⟨_, hmade⟩

/-- A call that went on has ended. -/
theorem phaseAfter_spec (target : String) (write : UsageWrite) (sentAt : DateTime)
    (outcome : Outcome) : phaseAfter target write sentAt outcome ≠ .idle ∧
      (phaseAfter target write sentAt outcome).unsent = false ∧
      ∀ target' write' sentAt', phaseAfter target write sentAt outcome ≠
        .sending target' write' sentAt' := by
  cases outcome with
  | returned parsed => exact ⟨by simp [phaseAfter], rfl, by simp [phaseAfter]⟩
  | raised e =>
      by_cases he : e.isCommunication = true
      · rw [phaseAfter, if_pos he]
        exact ⟨nofun, rfl, nofun⟩
      · rw [phaseAfter, if_neg he]
        exact ⟨nofun, rfl, nofun⟩

theorem Linked.of_sending {target : String} {write : UsageWrite} {sentAt : DateTime}
    (h : Linked first s k (.sending target write sentAt)) :
    ∃ n, MadeAs first s k n target write.body ∧ (s.client.send.calls n).outcome? = none := by
  generalize hphase : CallPhase.sending target write sentAt = phase at h
  cases h with
  | unsent _ hunsent =>
      rw [← hphase] at hunsent
      cases hunsent
  | sending n _ _ _ hmade hnone =>
      cases hphase
      exact ⟨n, hmade, hnone⟩
  | ended n _ _ _ outcome =>
      exact absurd hphase.symm ((phaseAfter_spec _ _ _ outcome).2.2 target write sentAt)

/-- A call is linked to its send as before where its requests and the sends
are what they were. -/
theorem Linked.kept {phase : CallPhase} (h : Linked first s k phase)
    (hmade : ∀ (n : ℕ) m, s.made[n]? = some m → s'.made[n]? = some m)
    (hmaker : ∀ n, s'.maker? n = some k → s.maker? n = some k) (hclient : s'.client = s.client) :
    Linked first s' k phase := by
  have hkept : ∀ {n text fields}, MadeAs first s k n text fields →
      MadeAs first s' k n text fields := by
    rintro n text fields ⟨target, htarget, hm⟩
    exact ⟨target, htarget, hmade n _ hm⟩
  cases h with
  | unsent _ hunsent hidle =>
      exact .unsent phase hunsent fun n hn => hclient ▸ hidle n (hmaker n hn)
  | sending n target write sentAt hm hnone =>
      exact .sending n target write sentAt (hkept hm) (hclient ▸ hnone)
  | ended n target write sentAt outcome hm houtcome =>
      exact .ended n target write sentAt outcome (hkept hm) (hclient ▸ houtcome)

theorem serverInv_init {rate clock : ℚ} : ServerInv first (.init rate clock) where
  ids n m h := by simp [ServerState.init] at h
  started n h := absurd rfl h
  writes n k h := by simp [ServerState.maker?, ServerState.init] at h
  began n k h := by simp [ServerState.maker?, ServerState.init] at h
  one n n' k h := by simp [ServerState.maker?, ServerState.init] at h
  phases k := .unsent .idle rfl fun _ _ => rfl

/-! ## Steps of the client -/

/-- A call whose send ends goes on; the others are as they were. -/
theorem callsStep_endOf {calls : CallsState} {outcome : Outcome} :
    (callsStep calls (endOf k outcome) = none ∧
      ∀ target write sentAt, calls.calls k ≠ .sending target write sentAt) ∨
    ∃ target write sentAt calls', calls.calls k = .sending target write sentAt ∧
      callsStep calls (endOf k outcome) = some calls' ∧
      calls'.calls = Function.update calls.calls k (phaseAfter target write sentAt outcome) ∧
      calls'.sends = calls.sends := by
  cases hphase : calls.calls k with
  | sending target write sentAt =>
      refine .inr ⟨target, write, sentAt, ?_⟩
      cases outcome with
      | returned parsed =>
          refine ⟨calls.finish k (phaseAfter target write sentAt (.returned parsed)) .returned, rfl,
            ?_, rfl, rfl⟩
          simp only [endOf, callsStep, hphase]
          rfl
      | raised e =>
          refine ⟨calls.finish k (phaseAfter target write sentAt (.raised e)) (.raised e), rfl,
            ?_, rfl, rfl⟩
          simp only [endOf, callsStep, hphase]
          rfl
  | _ =>
      refine .inl ⟨?_, by simp⟩
      cases outcome <;> simp only [endOf, callsStep, hphase]

/-- **What a step of the client leaves of the calls.** -/
inductive ClientCase (t : ServerState) (event : ClientEvent) (client : ClientState) :
    ServerState → Prop
  /-- It ends no send that a call is suspended in. -/
  | alone : (∀ n k outcome, event.call? = some n → t.maker? n = some k →
        (client.send.calls n).outcome? = some outcome →
        ∀ target write sentAt, t.calls.calls k ≠ .sending target write sentAt) →
      ClientCase t event client { t with client }
  /-- It ends the send of a call, which goes on. -/
  | goesOn (n k : ℕ) (target : String) (write : UsageWrite) (sentAt : DateTime)
      (outcome : Outcome) (calls : CallsState) : event.call? = some n → t.maker? n = some k →
      (client.send.calls n).outcome? = some outcome →
      t.calls.calls k = .sending target write sentAt →
      callsStep t.calls (endOf k outcome) = some calls →
      calls.calls = Function.update t.calls.calls k (phaseAfter target write sentAt outcome) →
      calls.sends = t.calls.sends →
      ClientCase t event client { t with client, calls }

theorem clientCase_of_stepClient {event : ClientEvent}
    (h : t.stepClient codec cmdPrefix routines first event = some s') :
    ∃ client, clientStep codec cmdPrefix (t.requests first) routines t.client event = some client ∧
      ClientCase t event client s' := by
  obtain ⟨client, hclient, rfl⟩ := Option.map_eq_some_iff.1 h
  refine ⟨client, hclient, ?_⟩
  cases hcall : event.call? with
  | none => exact .alone fun n k outcome hn => by rw [hcall] at hn; cases hn
  | some n =>
      dsimp only [ServerState.settle]
      split
      · rename_i k outcome hmaker houtcome
        rcases callsStep_endOf with ⟨hnone, hnot⟩ |
          ⟨target, write, sentAt, calls, hphase, hstep, hcalls, hsends⟩
        · rw [hnone]
          refine .alone fun n' k' outcome' hn hmade _ => ?_
          obtain rfl := Option.some.inj (hcall.symm.trans hn)
          obtain rfl := Option.some.inj (hmaker.symm.trans hmade)
          exact hnot
        · rw [hstep]
          exact .goesOn n k target write sentAt outcome calls hcall hmaker houtcome hphase hstep
            hcalls hsends
      · rename_i hnot
        refine .alone fun n' k' outcome' hn hmade houtcome => ?_
        obtain rfl := Option.some.inj (hcall.symm.trans hn)
        exact absurd houtcome (hnot k' outcome' hmade)

/-- A call that does not go on is linked to its send as before. -/
theorem linked_of_clientStep {event : ClientEvent} {client : ClientState} {phase : CallPhase}
    {calls : CallsState} {requests : ℕ → ClientRequest}
    (hclient : clientStep codec cmdPrefix requests routines t.client event = some client)
    (hstart : ∀ n, event = .send (.start n) → t.maker? n = some k → phase.unsent = false)
    (halone : ∀ n outcome, event.call? = some n → t.maker? n = some k →
      (client.send.calls n).outcome? = some outcome →
      ∀ target write sentAt, phase ≠ .sending target write sentAt)
    (h : Linked first t k phase) : Linked first { t with client, calls } k phase := by
  cases h with
  | unsent _ hunsent hidle =>
      refine .unsent phase hunsent fun n hn => idle_of_step hclient (hidle n hn) ?_
      rintro rfl
      rw [hstart n rfl hn] at hunsent
      cases hunsent
  | sending n target write sentAt hmade hnone =>
      refine .sending n target write sentAt hmade ?_
      cases houtcome : (client.send.calls n).outcome? with
      | none => rfl
      | some outcome =>
          by_cases hcall : event.call? = some n
          · exact absurd rfl (halone n outcome hcall hmade.maker houtcome target write sentAt)
          · rw [calls_of_step_of_ne hclient hcall, hnone] at houtcome
            cases houtcome
  | ended n target write sentAt outcome hmade houtcome =>
      refine .ended n target write sentAt outcome hmade ?_
      change (client.send.calls n).outcome? = some outcome
      rw [calls_of_step_of_ended hclient (by rw [houtcome]; rfl)]
      exact houtcome

theorem serverInv_stepClient {event : ClientEvent} (ht : ServerInv first t)
    (hstart : ∀ n, event = .send (.start n) → n < t.made.length ∧
      ∀ k, t.maker? n = some k → (t.calls.calls k).unsent = false)
    (h : t.stepClient codec cmdPrefix routines first event = some s') : ServerInv first s' := by
  obtain ⟨client, hclient, hcase⟩ := clientCase_of_stepClient h
  have hstarted : ∀ n, client.send.calls n ≠ .idle → n < t.made.length := by
    intro n hn
    by_cases hidle : t.client.send.calls n = .idle
    · by_cases hevent : event = .send (.start n)
      · exact (hstart n hevent).1
      · exact absurd (idle_of_step hclient hidle hevent) hn
    · exact ht.started n hidle
  cases hcase with
  | alone halone =>
      refine ⟨ht.ids, hstarted, ht.writes, ht.began, ht.one, fun k => ?_⟩
      exact linked_of_clientStep hclient (fun n hn hmaker => (hstart n hn).2 k hmaker)
        (fun n outcome hn hmaker houtcome => halone n k outcome hn hmaker houtcome) (ht.phases k)
  | goesOn n k target write sentAt outcome calls hcall hmaker houtcome hphase hstep hcalls =>
      refine ⟨ht.ids, hstarted, ht.writes, fun n' k' hmaker' => ?_, ht.one, fun k' => ?_⟩
      · dsimp only
        rw [hcalls]
        by_cases hk : k' = k
        · rw [hk, Function.update_self]
          exact (phaseAfter_spec target write sentAt outcome).1
        · rw [Function.update_of_ne hk]
          exact ht.began n' k' hmaker'
      · dsimp only
        rw [hcalls]
        by_cases hk : k' = k
        · rw [hk, Function.update_self]
          -- the send that ended is the one the call was suspended in
          obtain ⟨n', hmade, -⟩ := (hphase ▸ ht.phases k).of_sending
          obtain rfl := ht.one n' n k hmade.maker hmaker
          exact .ended n' target write sentAt outcome hmade houtcome
        · rw [Function.update_of_ne hk]
          refine linked_of_clientStep hclient (fun n' hn hmaker' => (hstart n' hn).2 k' hmaker')
            (fun n' outcome' hn hmaker' _ => ?_) (ht.phases k')
          obtain rfl := Option.some.inj (hcall.symm.trans hn)
          exact absurd (Option.some.inj (hmaker'.symm.trans hmaker)) hk

/-! ## Calls of the write tools -/

section Begin

variable {tool : Tool} {arguments : Dict String JsonValue} {transactionId : ℤ} {clock : ℚ}
variable {sentAt : DateTime}

/-- **What a call that begins does to the calls.** -/
inductive BeginCase (calls : CallsState) (k : ℕ) (tool : Tool)
    (arguments : Dict String JsonValue) (transactionId : ℤ) (clock : ℚ) (sentAt : DateTime)
    (calls' : CallsState) : Prop
  /-- It ends, and sends nothing. -/
  | ends (phase : CallPhase) : phase.unsent = true → phase ≠ .idle →
      calls'.calls = Function.update calls.calls k phase → calls'.sends = calls.sends →
      BeginCase calls k tool arguments transactionId clock sentAt calls'
  /-- It is suspended in its send. -/
  | sends (text : String) (prepared : Prepared) :
      (calls.writes.begin tool arguments transactionId clock).1 = .sends text prepared →
      calls'.calls = Function.update calls.calls k (.sending text prepared.write sentAt) →
      calls'.sends = calls.sends ++ [⟨k, clock, prepared.request⟩] →
      BeginCase calls k tool arguments transactionId clock sentAt calls'

theorem beginCase_of_callsStep {calls calls' : CallsState}
    (h : callsStep calls (.start k tool arguments transactionId clock sentAt) = some calls') :
    calls.calls k = .idle ∧
      BeginCase calls k tool arguments transactionId clock sentAt calls' := by
  simp only [callsStep] at h
  split at h
  · rename_i hidle
    refine ⟨hidle, ?_⟩
    split at h
    · cases h
      unfold CallsState.start
      dsimp only
      cases hbegun : (calls.writes.begin tool arguments transactionId clock).1 with
      | invalidInput => exact .ends .invalidInput rfl (by simp) rfl rfl
      | notSent target refused =>
          exact .ends (.reported (notSentReport target refused)) rfl (by simp) rfl rfl
      | raised e => exact absurd hbegun (begin_ne_raised _ _ _ _ _ e)
      | sends target prepared => exact .sends target prepared hbegun rfl rfl
    · cases h
  · cases h

theorem callWrite_eq_some
    (h : s.callWrite codec cmdPrefix routines first k tool arguments clock sentAt = some s') :
    ∃ calls, callsStep s.calls (.start k tool arguments (first + s.made.length) clock sentAt) =
      some calls ∧
      ((∀ target write sentAt', calls.calls k ≠ .sending target write sentAt') ∧
        s' = s.beginCall first k tool arguments clock calls ∨
      (∃ target write sentAt', calls.calls k = .sending target write sentAt') ∧
        (s.beginCall first k tool arguments clock calls).stepClient codec cmdPrefix routines first
          (.send (.start s.made.length)) = some s') := by
  obtain ⟨calls, hcalls, h⟩ := Option.bind_eq_some_iff.1 h
  refine ⟨calls, hcalls, ?_⟩
  dsimp only at h
  split at h
  · exact .inr ⟨⟨_, _, _, ‹_›⟩, h⟩
  · rename_i hnot
    exact .inl ⟨fun target write sentAt' hphase => hnot target write sentAt' hphase,
      (Option.some.inj h).symm⟩

theorem made_beginCall {calls : CallsState} {m : Made}
    (h : (s.beginCall first k tool arguments clock calls).made[n]? = some m) :
    s.made[n]? = some m ∨ n = s.made.length ∧ ∃ request,
      s.calls.writes.makes tool arguments (first + s.made.length) = some request ∧
      m = ⟨request.request, some k⟩ := by
  unfold ServerState.beginCall at h
  dsimp only at h
  rw [List.getElem?_append] at h
  split at h
  · exact .inl h
  · cases hmakes : s.calls.writes.makes tool arguments (first + s.made.length) with
    | none => simp [hmakes] at h
    | some request =>
        rw [hmakes, Option.map_some, Option.toList_some, List.getElem?_singleton] at h
        split at h
        · cases h
          exact .inr ⟨by omega, request, rfl, rfl⟩
        · cases h

theorem made_beginCall_of_lt {calls : CallsState} {m : Made} (h : s.made[n]? = some m) :
    (s.beginCall first k tool arguments clock calls).made[n]? = some m := by
  obtain ⟨hlt, -⟩ := List.getElem?_eq_some_iff.1 h
  unfold ServerState.beginCall
  dsimp only
  rw [List.getElem?_append_left hlt]
  exact h

theorem maker?_beginCall {calls : CallsState}
    (h : (s.beginCall first k tool arguments clock calls).maker? n = some k') :
    s.maker? n = some k' ∨ n = s.made.length ∧ k' = k := by
  obtain ⟨request, hmade⟩ := maker?_eq_some.1 h
  rcases made_beginCall hmade with hold | ⟨hn, request', -, heq⟩
  · exact .inl (maker?_eq_some.2 ⟨request, hold⟩)
  · cases heq
    exact .inr ⟨hn, rfl⟩

/-- **A call that begins keeps the links**: what it makes is not sent yet. -/
theorem serverInv_beginCall {calls : CallsState} (hs : ServerInv first s)
    (hidle : s.calls.calls k = .idle)
    (hcase : BeginCase s.calls k tool arguments (first + s.made.length) clock sentAt calls) :
    ServerInv first (s.beginCall first k tool arguments clock calls) := by
  -- a call that has not begun made nothing
  have hnothing : ∀ n, s.maker? n ≠ some k := fun n hn => hs.began n k hn hidle
  have hlength : s.made.length ≤ (s.beginCall first k tool arguments clock calls).made.length := by
    simp [ServerState.beginCall]
  have hunsent : s.client.send.calls s.made.length = .idle := by
    by_contra hne
    exact absurd (hs.started _ hne) (lt_irrefl _)
  have hcalls : ∃ phase, calls.calls = Function.update s.calls.calls k phase ∧ phase ≠ .idle ∧
      Linked first (s.beginCall first k tool arguments clock calls) k phase := by
    cases hcase with
    | ends phase hphase hne hcalls =>
        refine ⟨phase, hcalls, hne, .unsent phase hphase fun n hn => ?_⟩
        rcases maker?_beginCall hn with hold | ⟨rfl, -⟩
        · exact absurd hold (hnothing n)
        · exact hunsent
    | sends text prepared hbegun hcalls =>
        refine ⟨_, hcalls, nofun, ?_⟩
        obtain ⟨target, htarget, hrequest⟩ := request_of_begin hbegun
        refine .sending s.made.length text prepared.write sentAt ⟨target, htarget, ?_⟩ ?_
        · simp [ServerState.beginCall, makes_of_begin hbegun, hrequest]
        · change (s.client.send.calls s.made.length).outcome? = none
          rw [hunsent]
          rfl
  obtain ⟨phase, hcalls, hne, hlinked⟩ := hcalls
  have hphases : (s.beginCall first k tool arguments clock calls).calls.calls =
      Function.update s.calls.calls k phase := hcalls
  refine ⟨fun n m hm => ?_, fun n hn => (hs.started n hn).trans_le hlength, fun n k' hn => ?_,
    fun n k' hn => ?_, fun n n' k' hn hn' => ?_, fun k' => ?_⟩
  · rcases made_beginCall hm with hold | ⟨rfl, request, hmakes, rfl⟩
    · exact hs.ids n m hold
    · obtain ⟨target, fields, hrequest⟩ := makes_eq_some hmakes
      rw [hrequest]
      rfl
  · obtain ⟨request', hm⟩ := maker?_eq_some.1 hn
    rcases made_beginCall hm with hold | ⟨rfl, request, hmakes, heq⟩
    · obtain ⟨target, fields, hwrite⟩ := hs.writes n k' (maker?_eq_some.2 ⟨_, hold⟩)
      exact ⟨target, fields, made_beginCall_of_lt hwrite⟩
    · obtain ⟨target, fields, hrequest⟩ := makes_eq_some hmakes
      cases heq
      exact ⟨target, fields, by rw [hm, hrequest]⟩
  · rw [hphases]
    by_cases hk : k' = k
    · rwa [hk, Function.update_self]
    · rw [Function.update_of_ne hk]
      rcases maker?_beginCall hn with hold | ⟨-, heq⟩
      · exact hs.began n k' hold
      · exact absurd heq hk
  · rcases maker?_beginCall hn with hold | ⟨rfl, rfl⟩
    · rcases maker?_beginCall hn' with hold' | ⟨-, rfl⟩
      · exact hs.one n n' k' hold hold'
      · exact absurd hold (hnothing n)
    · rcases maker?_beginCall hn' with hold' | ⟨rfl, -⟩
      · exact absurd hold' (hnothing n')
      · rfl
  · rw [hphases]
    by_cases hk : k' = k
    · rw [hk, Function.update_self]
      exact hlinked
    · rw [Function.update_of_ne hk]
      refine (hs.phases k').kept (fun n m hm => made_beginCall_of_lt hm) (fun n hn => ?_) rfl
      rcases maker?_beginCall hn with hold | ⟨-, heq⟩
      · exact hold
      · exact absurd heq hk

end Begin

/-! ## Steps of the server -/

/-- A task's own request changes nothing of the calls. -/
theorem serverInv_makes (hs : ServerInv first s) (request : OwnRequest) :
    ServerInv first
      { s with made := s.made ++ [⟨request.toRequest (first + s.made.length), none⟩] } := by
  have hmaker : ∀ {n k}, ServerState.maker?
      { s with made := s.made ++ [⟨request.toRequest (first + s.made.length), none⟩] } n = some k →
      s.maker? n = some k := by
    intro n k hn
    obtain ⟨request', hm⟩ := maker?_eq_some.1 hn
    rcases getElem?_concat_eq_some hm with hold | ⟨-, heq⟩
    · exact maker?_eq_some.2 ⟨request', hold⟩
    · cases heq
  have hkept : ∀ (n : ℕ) m, s.made[n]? = some m →
      (s.made ++ [⟨request.toRequest (first + s.made.length), none⟩])[n]? = some m := by
    intro n m h
    obtain ⟨hlt, -⟩ := List.getElem?_eq_some_iff.1 h
    rw [List.getElem?_append_left hlt]
    exact h
  have hwrites : ∀ n k, s.maker? n = some k → ∃ target fields,
      (s.made ++ [⟨request.toRequest (first + s.made.length), none⟩])[n]? =
        some ⟨⟨putRequest target fields (first + n), .ok⟩, some k⟩ := by
    intro n k hn
    obtain ⟨target, fields, hm⟩ := hs.writes n k hn
    exact ⟨target, fields, hkept n _ hm⟩
  refine ⟨fun n m hm => ?_, fun n hn => ?_, fun n k hn => hwrites n k (hmaker hn),
    fun n k hn => hs.began n k (hmaker hn),
    fun n n' k hn hn' => hs.one n n' k (hmaker hn) (hmaker hn'),
    fun k => (hs.phases k).kept hkept (fun n => hmaker) rfl⟩
  · rcases getElem?_concat_eq_some hm with hold | ⟨rfl, rfl⟩
    · exact hs.ids n m hold
    · cases request with
      | ping => rfl
      | sync request => cases request <;> rfl
  · rw [List.length_append]
    exact (hs.started n hn).trans_le (Nat.le_add_right _ _)

variable {sameLetter : Char → Char → Bool} {secrets : Secrets} {mode : WritesMode}

variable (codec cmdPrefix routines first mode s) in
/-- **What one step of the server does.** -/
inductive ServerMove : ServerEvent → ServerState → Prop
  | cacheChanges (cache : Cache) : ServerMove (.cacheChanges cache)
      { s with calls := { s.calls with writes := { s.calls.writes with cache } } }
  | makes (request : OwnRequest) : ServerMove (.makes request)
      { s with made := s.made ++ [⟨request.toRequest (first + s.made.length), none⟩] }
  | client (event : ClientEvent) (s' : ServerState) : s.allows event = true →
      s.stepClient codec cmdPrefix routines first event = some s' → ServerMove (.client event) s'
  /-- A call of another tool. -/
  | answers {event : ServerEvent} (answers : ℕ → Option Answer) :
      ServerMove event { s with answers }
  /-- A call of a write tool that ends before its send. -/
  | ends (k : ℕ) (name : String) (tool : Tool) (arguments : Dict String JsonValue) (clock : ℚ)
      (sentAt : DateTime) (phase : CallPhase) (calls : CallsState) :
      mode.tool? name = some tool → s.calls.calls k = .idle →
      callsStep s.calls (.start k tool arguments (first + s.made.length) clock sentAt) =
        some calls →
      phase.unsent = true → phase ≠ .idle →
      calls.calls = Function.update s.calls.calls k phase → calls.sends = s.calls.sends →
      ServerMove (.call k name arguments clock sentAt)
        (s.beginCall first k tool arguments clock calls)
  /-- A call of a write tool that goes on to its send. -/
  | sends (k : ℕ) (name : String) (tool : Tool) (arguments : Dict String JsonValue) (clock : ℚ)
      (sentAt : DateTime) (text : String) (prepared : Prepared) (calls : CallsState)
      (s' : ServerState) :
      mode.tool? name = some tool → s.calls.calls k = .idle →
      callsStep s.calls (.start k tool arguments (first + s.made.length) clock sentAt) =
        some calls →
      (s.calls.writes.begin tool arguments (first + s.made.length) clock).1 =
        .sends text prepared →
      calls.calls = Function.update s.calls.calls k (.sending text prepared.write sentAt) →
      calls.sends = s.calls.sends ++ [⟨k, clock, prepared.request⟩] →
      (s.beginCall first k tool arguments clock calls).stepClient codec cmdPrefix routines first
        (.send (.start s.made.length)) = some s' →
      ServerMove (.call k name arguments clock sentAt) s'

theorem serverMove_of_step {event : ServerEvent}
    (h : serverStep codec cmdPrefix routines first sameLetter secrets mode s event = some s') :
    ServerMove codec cmdPrefix routines first s mode event s' := by
  cases event with
  | cacheChanges cache =>
      cases h
      exact .cacheChanges cache
  | makes request =>
      cases h
      exact .makes request
  | client event =>
      simp only [serverStep] at h
      split at h
      · rename_i hallows
        exact .client event s' hallows h
      · cases h
  | call k name arguments clock sentAt =>
      simp only [serverStep] at h
      split at h
      · rename_i tool hidle hanswers htool
        obtain ⟨calls, hcalls, hcase⟩ := callWrite_eq_some h
        obtain ⟨-, hbegin⟩ := beginCase_of_callsStep hcalls
        cases hbegin with
        | ends phase hunsent hne hupdate hsends =>
            rcases hcase with ⟨-, rfl⟩ | ⟨⟨target, write, sentAt', hphase⟩, -⟩
            · exact .ends k name tool arguments clock sentAt phase calls htool hidle hcalls
                hunsent hne hupdate hsends
            · rw [hupdate, Function.update_self] at hphase
              rw [hphase] at hunsent
              cases hunsent
        | sends text prepared hbegun hupdate hsends =>
            rcases hcase with ⟨hnot, -⟩ | ⟨-, hstep⟩
            · exact absurd (by rw [hupdate, Function.update_self]) (hnot text prepared.write sentAt)
            · exact .sends k name tool arguments clock sentAt text prepared calls s' htool hidle
                hcalls hbegun hupdate hsends hstep
      · cases h
        exact .answers _
      · cases h

/-- A task sends what it made itself, and not what a call made. -/
theorem maker?_of_allows (h : s.allows (.send (.start n)) = true) :
    n < s.made.length ∧ s.maker? n = none := by
  obtain ⟨m, hm, hmaker⟩ := (Option.any_eq_true _ _).1 h
  refine ⟨(List.getElem?_eq_some_iff.1 hm).1, ?_⟩
  rw [ServerState.maker?, hm, Option.bind_some]
  exact Option.isNone_iff_eq_none.1 hmaker

/-- **Every step of the server keeps the links.** -/
theorem serverInv_of_move {event : ServerEvent} (hs : ServerInv first s)
    (hm : ServerMove codec cmdPrefix routines first s mode event s') : ServerInv first s' := by
  cases hm with
  | cacheChanges | answers =>
      exact ⟨hs.ids, hs.started, hs.writes, hs.began, hs.one,
        fun k => (hs.phases k).kept (fun _ _ hm => hm) (fun _ hn => hn) rfl⟩
  | makes request => exact serverInv_makes hs request
  | client event _ hallows hstep =>
      refine serverInv_stepClient hs ?_ hstep
      rintro n rfl
      obtain ⟨hlt, hnone⟩ := maker?_of_allows hallows
      exact ⟨hlt, fun k hk => absurd (hnone.symm.trans hk) (by simp)⟩
  | ends k name tool arguments clock sentAt phase calls _ hidle hcalls =>
      exact serverInv_beginCall hs hidle (beginCase_of_callsStep hcalls).2
  | sends k name tool arguments clock sentAt text prepared calls _ _ hidle hcalls hbegun hupdate
      _ hstep =>
      refine serverInv_stepClient (serverInv_beginCall hs hidle (beginCase_of_callsStep hcalls).2)
        ?_ hstep
      rintro _ ⟨⟩
      refine ⟨?_, fun k' hk' => ?_⟩
      · simp [ServerState.beginCall, makes_of_begin hbegun]
      · rcases maker?_beginCall hk' with hold | ⟨-, rfl⟩
        · obtain ⟨request, hm⟩ := maker?_eq_some.1 hold
          exact absurd (List.getElem?_eq_some_iff.1 hm).1 (lt_irrefl _)
        · change (calls.calls k').unsent = false
          rw [hupdate, Function.update_self]
          rfl

variable {rate clock : ℚ} {events : List ServerEvent}

theorem serverInv_of_run
    (h : (serverMachine codec cmdPrefix routines first sameLetter secrets mode rate clock).Run
      Machine.Free events s) : ServerInv first s := by
  refine h.invariant (I := ServerInv first) serverInv_init ?_
  intro s event s' hs _ hstep
  exact serverInv_of_move hs (serverMove_of_step hstep)

end Invariant

end Mcp

end Tydomio
