import Tydomio.Mcp.Reports
import Mathlib.Data.List.Pairwise

/-!
# What the server writes

Every request on the wire is one of the server's own or a write that a call
of a listed tool asked for, sound for the cache it was checked against. The
writes are as far apart as the sends of the calls are.
-/

namespace Tydomio

open Common Protocol Client

namespace Mcp

section Served

variable {codec : Codec} {cmdPrefix : Bytes} {routines : ℕ} {first : ℤ}
variable {sameLetter : Char → Char → Bool} {secrets : Secrets} {mode : WritesMode}
variable {rate clock : ℚ} {s s' t : ServerState} {events : List ServerEvent} {k n : ℕ}

/-! ## The calls of a server -/

/-- A step of the client hands no request to `send`. -/
theorem sends_of_stepClient {event : ClientEvent}
    (h : s.stepClient codec cmdPrefix routines first event = some s') :
    s'.calls.sends = s.calls.sends := by
  obtain ⟨client, -, hcase⟩ := clientCase_of_stepClient h
  cases hcase with
  | alone => rfl
  | goesOn n k target write sentAt outcome calls _ _ _ _ _ _ hsends => exact hsends

theorem callsExec_of_stepClient {event : ClientEvent}
    (h : s.stepClient codec cmdPrefix routines first event = some s') :
    ∃ ks, (callsMachine .init rate clock).exec s.calls ks = some s'.calls := by
  obtain ⟨client, -, hcase⟩ := clientCase_of_stepClient h
  cases hcase with
  | alone => exact ⟨[], rfl⟩
  | goesOn n k target write sentAt outcome calls _ _ _ _ hstep =>
      refine ⟨[endOf k outcome], ?_⟩
      rw [Machine.exec, Option.bind_eq_some_iff]
      exact ⟨calls, hstep, rfl⟩

/-- **The calls of a server in a run are in a run of their own.** -/
theorem callsRun_of_run
    (h : (serverMachine codec cmdPrefix routines first sameLetter secrets mode rate clock).Run
      Machine.Free events s) :
    ∃ ks, (callsMachine .init rate clock).Run Machine.Free ks s.calls := by
  refine h.simulate ServerState.calls rfl fun s event s' _ hstep => ?_
  have hstart : ∀ {event calls}, callsStep s.calls event = some calls →
      ∀ {u}, (∃ ks, (callsMachine .init rate clock).exec calls ks = some u) →
        ∃ ks, (callsMachine .init rate clock).exec s.calls ks = some u := by
    rintro event calls hcalls u ⟨ks, hks⟩
    exact ⟨event :: ks, by rw [Machine.exec, Option.bind_eq_some_iff]; exact ⟨calls, hcalls, hks⟩⟩
  cases serverMove_of_step hstep with
  | cacheChanges cache => exact ⟨[.cacheChanges cache], rfl⟩
  | makes | answers => exact ⟨[], rfl⟩
  | client event _ _ hclient => exact callsExec_of_stepClient hclient
  | ends k name tool arguments clock sentAt phase calls _ _ hcalls =>
      exact hstart hcalls ⟨[], rfl⟩
  | sends k name tool arguments clock sentAt text prepared calls _ _ _ hcalls _ _ _ hclient =>
      exact hstart hcalls (callsExec_of_stepClient hclient)

/-! ## Who asked for a request -/

variable (mode s) in
/-- **A call asked for a request**: of a tool that is listed, and the request
is sound for the cache as it was. -/
def AskedFor (n k : ℕ) : Prop :=
  ∃ asked ∈ s.asked, ∃ request : WriteRequest, asked.call = k ∧ asked.tool ∈ mode.tools ∧
    s.made[n]? = some ⟨request.request, some k⟩ ∧
    SentSound asked.cache asked.tool asked.arguments request ∧
    ⟨k, asked.clock, request⟩ ∈ s.calls.sends

theorem AskedFor.mono (h : AskedFor mode s n k)
    (hmade : ∀ m, s.made[n]? = some m → s'.made[n]? = some m) (hasked : s.asked ⊆ s'.asked)
    (hsends : s.calls.sends ⊆ s'.calls.sends) : AskedFor mode s' n k := by
  obtain ⟨asked, hmem, request, hcall, htool, hrequest, hsound, hsent⟩ := h
  exact ⟨asked, hasked hmem, request, hcall, htool, hmade _ hrequest, hsound, hsends hsent⟩

/-- **What is made is the server's own or asked for**, where it is sent. -/
structure ServedInv (mode : WritesMode) (first : ℤ) (s : ServerState) : Prop where
  own : ∀ (n : ℕ) m, s.made[n]? = some m → m.maker = none →
    ∃ own : OwnRequest, m.request = own.toRequest (first + n)
  asked : ∀ n k, s.maker? n = some k → s.client.send.calls n ≠ .idle → AskedFor mode s n k

theorem servedInv_init : ServedInv mode first (.init rate clock) where
  own n m h := by simp [ServerState.init] at h
  asked n k h := by simp [ServerState.maker?, ServerState.init] at h

theorem mem_tools_of_tool? {name : String} {tool : Tool} (h : mode.tool? name = some tool) :
    tool ∈ mode.tools := List.mem_of_find?_eq_some h

/-- A step of the client sends what was asked for. -/
theorem servedInv_stepClient {event : ClientEvent} (ht : ServedInv mode first t)
    (hstart : ∀ n k, event = .send (.start n) → t.maker? n = some k → AskedFor mode t n k)
    (h : t.stepClient codec cmdPrefix routines first event = some s') :
    ServedInv mode first s' := by
  obtain ⟨hmade, hasked⟩ := made_of_stepClient h
  have hsends := sends_of_stepClient h
  refine ⟨fun n m hm => ht.own n m (hmade ▸ hm), fun n k hk hstarted => ?_⟩
  rw [maker?_of_stepClient h] at hk
  have haskedFor : AskedFor mode t n k := by
    by_cases hidle : t.client.send.calls n = .idle
    · by_cases hevent : event = .send (.start n)
      · exact hstart n k hevent hk
      · exact absurd (idle_of_step (client_of_stepClient h) hidle hevent) hstarted
    · exact ht.asked n k hk hidle
  exact haskedFor.mono (fun m hm => hmade ▸ hm) (hasked ▸ List.Subset.refl _)
    (hsends ▸ List.Subset.refl _)

/-- What a call that begins makes is not sent yet. -/
theorem servedInv_beginCall {tool : Tool} {arguments : Dict String JsonValue} {clock : ℚ}
    {calls : CallsState} (hs : ServedInv mode first s) (hinv : ServerInv first s)
    (hsends : s.calls.sends ⊆ calls.sends) :
    ServedInv mode first (s.beginCall first k tool arguments clock calls) := by
  refine ⟨fun n m hm hnone => ?_, fun n k' hk' hstarted => ?_⟩
  · rcases made_beginCall hm with hold | ⟨-, request, -, rfl⟩
    · exact hs.own n m hold hnone
    · cases hnone
  · rcases maker?_beginCall hk' with hold | ⟨rfl, -⟩
    · exact (hs.asked n k' hold hstarted).mono (fun m hm => made_beginCall_of_lt hm)
        (List.subset_append_left _ _) hsends
    · exact absurd (hinv.started _ hstarted) (lt_irrefl _)

theorem servedInv_of_move {event : ServerEvent} (hs : ServedInv mode first s)
    (hinv : ServerInv first s)
    (hm : ServerMove codec cmdPrefix routines first s mode event s') :
    ServedInv mode first s' := by
  cases hm with
  | cacheChanges | answers => exact ⟨hs.own, hs.asked⟩
  | makes request =>
      refine ⟨fun n m hm hnone => ?_, fun n k hk hstarted => ?_⟩
      · rcases getElem?_concat_eq_some hm with hold | ⟨rfl, rfl⟩
        · exact hs.own n m hold hnone
        · exact ⟨request, rfl⟩
      · obtain ⟨request', hm⟩ := maker?_eq_some.1 hk
        rcases getElem?_concat_eq_some hm with hold | ⟨-, heq⟩
        · refine (hs.asked n k (maker?_eq_some.2 ⟨request', hold⟩) hstarted).mono (fun m hm => ?_)
            (List.Subset.refl _) (List.Subset.refl _)
          exact (List.getElem?_append_left (List.getElem?_eq_some_iff.1 hold).1).trans hm
        · cases heq
  | client event _ hallows hstep =>
      refine servedInv_stepClient hs ?_ hstep
      rintro n k rfl hk
      exact absurd ((maker?_of_allows hallows).2.symm.trans hk) (by simp)
  | ends k name tool arguments clock sentAt phase calls _ _ _ _ _ _ hsends =>
      exact servedInv_beginCall hs hinv (hsends ▸ List.Subset.refl _)
  | sends k name tool arguments clock sentAt text prepared calls _ htool _ _ hbegun _ hsends
      hstep =>
      have hsub : s.calls.sends ⊆ calls.sends := hsends ▸ List.subset_append_left _ _
      refine servedInv_stepClient (servedInv_beginCall hs hinv hsub) ?_ hstep
      rintro _ k' ⟨⟩ hk'
      rcases maker?_beginCall hk' with hold | ⟨-, rfl⟩
      · obtain ⟨request, hm⟩ := maker?_eq_some.1 hold
        exact absurd (List.getElem?_eq_some_iff.1 hm).1 (lt_irrefl _)
      · refine ⟨⟨k', tool, arguments, s.calls.writes.cache, clock⟩, List.mem_append_right _
          (List.mem_singleton_self _), prepared.request, rfl, mem_tools_of_tool? htool, ?_,
          sentSound_of_begin hbegun, ?_⟩
        · simp [ServerState.beginCall, makes_of_begin hbegun]
        · change _ ∈ calls.sends
          rw [hsends]
          exact List.mem_append_right _ (List.mem_singleton_self _)

theorem servedInv_of_run
    (h : (serverMachine codec cmdPrefix routines first sameLetter secrets mode rate clock).Run
      Machine.Free events s) : ServedInv mode first s := by
  have hboth : ServerInv first s ∧ ServedInv mode first s := by
    refine h.invariant (I := fun s => ServerInv first s ∧ ServedInv mode first s)
      ⟨serverInv_init, servedInv_init⟩ ?_
    intro s event s' hs _ hstep
    have hmove := serverMove_of_step hstep
    exact ⟨serverInv_of_move hs.1 hmove, servedInv_of_move hs.2 hs.1 hmove⟩
  exact hboth.2

/-! ## The tools -/

theorem mem_listTools_iff {name : String} : name ∈ mode.listTools ↔
    name = getStateName ∨ ∃ tool, mode.tool? name = some tool := by
  rw [WritesMode.listTools, List.mem_cons]
  refine or_congr_right ⟨fun h => ?_, fun h => ?_⟩
  · obtain ⟨tool, hmem, rfl⟩ := List.mem_map.1 h
    exact Option.isSome_iff_exists.1 (List.find?_isSome.2 ⟨tool, hmem, decide_eq_true rfl⟩)
  · obtain ⟨tool, htool⟩ := h
    have hname := List.find?_some htool
    exact List.mem_map.2 ⟨tool, mem_tools_of_tool? htool, of_decide_eq_true hname⟩

/-- **A tool is unknown exactly where it is not listed.** -/
theorem otherTool_eq_unknownTool_iff {cache : Cache} {name : String}
    {arguments : Dict String JsonValue} (h : mode.tool? name = none) :
    otherTool sameLetter secrets mode cache name arguments = .unknownTool ↔
      name ∉ mode.listTools := by
  rw [mem_listTools_iff, h]
  unfold otherTool
  split
  · simp [*]
  · simp [*]

/-! ## What goes on the wire -/

/-- A request of a task of the server writes nothing. -/
theorem method_of_own (own : OwnRequest) (id : ℤ) : (own.toRequest id).request.method ≠ "PUT" := by
  cases own with
  | ping => exact (by decide : "GET" ≠ "PUT")
  | sync request =>
      cases request with
      | refresh => exact (by decide : "POST" ≠ "PUT")
      | config | devices | areas => exact (by decide : "GET" ≠ "PUT")

/-- Two sends are an interval apart at least. -/
def Apart (rate : ℚ) (sent sent' : SentRequest) : Prop :=
  sent.clock + 1 / rate ≤ sent'.clock ∨ sent'.clock + 1 / rate ≤ sent.clock

/-- **What a server puts on the wire.** -/
structure WireServed (mode : WritesMode) (first : ℤ) (rate : ℚ) (s : ServerState) : Prop where
  /-- A request is one of the server's own, or asked for by a call of a tool
  that is listed, and sound for the cache it was checked against. -/
  served : ∀ n ∈ s.onWire,
    (∃ own : OwnRequest, s.made[n]? = some ⟨own.toRequest (first + n), none⟩) ∨
      ∃ k, AskedFor mode s n k
  /-- A server that lists no write tool writes nothing. -/
  readOnly : mode = .none → ∀ n ∈ s.onWire, (s.requests first n).request.method ≠ "PUT"
  /-- The sends of two writes are an interval apart at least. -/
  spaced : ∀ n ∈ s.onWire, ∀ n' ∈ s.onWire, ∀ k k', s.maker? n = some k → s.maker? n' = some k' →
    n ≠ n' → ∃ sent ∈ s.calls.sends, ∃ sent' ∈ s.calls.sends,
      sent.call = k ∧ sent'.call = k' ∧ Apart rate sent sent'

/-- **Only what was asked for is written**, in every interleaving, as seldom
as the rate says. -/
theorem wire_served (hrate : 0 < rate)
    (h : (serverMachine codec cmdPrefix routines first sameLetter secrets mode rate clock).Run
      Machine.Free events s) : WireServed mode first rate s := by
  have hinv := serverInv_of_run h
  have hserved := servedInv_of_run h
  obtain ⟨-, -, hw, -⟩ := sendInv_of_run h
  have hstarted : ∀ n ∈ s.onWire, s.client.send.calls n ≠ .idle := fun n hn hidle =>
    hw.idle n hidle hn
  have hmade : ∀ n ∈ s.onWire, ∃ m, s.made[n]? = some m := fun n hn =>
    ⟨_, List.getElem?_eq_getElem (hinv.started n (hstarted n hn))⟩
  have hall : ∀ n ∈ s.onWire,
      (∃ own : OwnRequest, s.made[n]? = some ⟨own.toRequest (first + n), none⟩) ∨
        ∃ k, AskedFor mode s n k := by
    intro n hn
    obtain ⟨⟨request, maker⟩, hm⟩ := hmade n hn
    cases maker with
    | none =>
        obtain ⟨own, howner⟩ := hserved.own n _ hm rfl
        exact .inl ⟨own, by rw [hm, ← howner]⟩
    | some k => exact .inr ⟨k, hserved.asked n k (maker?_eq_some.2 ⟨request, hm⟩) (hstarted n hn)⟩
  refine ⟨hall, fun hmode n hn => ?_, fun n hn n' hn' k k' hk hk' hne => ?_⟩
  · rcases hall n hn with ⟨own, hm⟩ | ⟨k, asked, -, request, -, htool, -⟩
    · rw [requests_of_made hm]
      exact method_of_own own _
    · rw [hmode] at htool
      cases htool
  · obtain ⟨asked, -, request, rfl, -, -, -, hsent⟩ := hserved.asked n k hk (hstarted n hn)
    obtain ⟨asked', -, request', rfl, -, -, -, hsent'⟩ := hserved.asked n' k' hk' (hstarted n' hn')
    refine ⟨_, hsent, _, hsent', rfl, rfl, ?_⟩
    obtain ⟨ks, hks⟩ := callsRun_of_run h
    have hspaced := (callsInv_of_run hrate hks).spaced
    have hsymm : Std.Symm (Apart rate) := ⟨fun _ _ => Or.symm⟩
    have hapart : s.calls.sends.Pairwise (Apart rate) := hspaced.imp .inl
    refine hapart.forall hsent hsent' fun heq => hne ?_
    have hcalls : asked.call = asked'.call := congrArg SentRequest.call heq
    exact hinv.one n n' asked.call hk (hcalls ▸ hk')

/-- Two calls, the second a second after the first. -/
def spacedRun : List ServerEvent :=
  [.cacheChanges shutterCache, .client .authorized, .client (.opened 0),
    .call 0 "set_shutter" (halfOpen "e:10:1") 0 0, .call 1 "set_shutter" (halfOpen "e:10:1") 1 0,
    .call 2 "set_heating" (halfOpen "e:10:1") 2 0]

theorem wire_served_spacedRun : ∃ s, s.onWire = [0, 1] ∧ WireServed .shutters 0 1 s := by
  have hexec : (shutterServer.exec shutterServer.init spacedRun).map ServerState.onWire =
      some [0, 1] := by decide +kernel
  obtain ⟨s, hs, hwire⟩ := Option.map_eq_some_iff.1 hexec
  exact ⟨s, hwire, wire_served (by decide) (Machine.run_of_exec hs)⟩

end Served

end Mcp

end Tydomio
