import Tydomio.Capture.Model.Fetch

/-!
# What a capture requests, and when it is done

A pass goes down the table and skips what has a final result, so a request
is never made twice for one, and a pass that reaches the end of the table
leaves nothing without one. `Orderly` says this of a state between two
steps, with the pass under way; `fetching_safe` reads the laws off it, over
any connections and any ends of their requests.
-/

namespace Tydomio

open Common

namespace Capture

/-! ## What has happened -/

/-- The endpoint an event requests. -/
def FetchEvent.request? : FetchEvent → Option Endpoint
  | requested endpoint => some endpoint
  | _ => none

/-- The requests of a pass, in order. -/
def requests (events : List FetchEvent) : List Endpoint := events.filterMap FetchEvent.request?

namespace FetchState

/-- All passes, the last one included. -/
def passes (s : FetchState) : List (List FetchEvent) := s.past ++ [s.events]

/-- Everything that has happened. -/
def trace (s : FetchState) : List FetchEvent := s.passes.flatten

end FetchState

/-- No communication error is recorded among the events. -/
def NothingLost (events : List FetchEvent) : Prop :=
  ∀ result, .recorded result ∈ events → result.outcome ≠ .communicationError

/-- **The law of one pass**: its requests follow the table, each endpoint at
most once, and when it records a communication error that is the last thing
it does. -/
structure PassLaw (events : List FetchEvent) : Prop where
  requests : (requests events).Sublist endpoints
  lostLast : NothingLost events.dropLast

variable {parser : StrictParser} {s s' : FetchState} {endpoint : Endpoint}
  {rest : List Endpoint} {events later : List FetchEvent} {result : EndpointResult}

theorem requests_append : requests (events ++ later) = requests events ++ requests later :=
  List.filterMap_append

theorem NothingLost.append (h : NothingLost events) (h' : NothingLost later) :
    NothingLost (events ++ later) := by
  intro result hresult
  exact (List.mem_append.1 hresult).elim (h result) (h' result)

theorem NothingLost.dropLast (h : NothingLost events) : NothingLost events.dropLast :=
  fun result hresult => h result (List.dropLast_subset events hresult)

/-! ## Going on down the table -/

namespace FetchState

/-- **Where a pass goes on**: to the next endpoint without a final result,
or to the end of the table. -/
theorem goOn_cases (s : FetchState) (rest : List Endpoint) :
    (∃ skipped endpoint rest', rest = skipped ++ endpoint :: rest' ∧
      s.fetcher.isFinal endpoint = false ∧
      (∀ e ∈ skipped, s.fetcher.isFinal e = true) ∧
      s.goOn rest = { s with
        pass := some ⟨endpoint, rest'⟩
        events := s.events ++ [.requested endpoint] }) ∨
    ((∀ e ∈ rest, s.fetcher.isFinal e = true) ∧
      s.goOn rest = { s with
        fetcher := { s.fetcher with done := true }
        pass := none
        events := s.events ++ [.setDone] }) := by
  have hsplit := List.takeWhile_append_dropWhile (p := s.fetcher.isFinal) (l := rest)
  have hskipped : ∀ e ∈ rest.takeWhile s.fetcher.isFinal, s.fetcher.isFinal e = true :=
    fun e he => List.mem_takeWhile_imp he
  rw [goOn]
  split
  · rename_i hnil
    rw [hnil, List.append_nil] at hsplit
    exact .inr ⟨hsplit ▸ hskipped, rfl⟩
  · rename_i endpoint rest' hcons
    have hfirst : s.fetcher.isFinal endpoint = false := by
      have hne : rest.dropWhile s.fetcher.isFinal ≠ [] := by
        rw [hcons]
        exact List.cons_ne_nil _ _
      have hhead := List.head_dropWhile_not s.fetcher.isFinal hne
      simpa [hcons] using hhead
    refine .inl ⟨_, endpoint, rest', ?_, hfirst, hskipped, rfl⟩
    rw [← hcons, hsplit]

end FetchState

theorem fetch_endpoint {sendEnd : SendEnd} (h : fetch parser endpoint sendEnd = .ok result) :
    result.endpoint = endpoint := by
  cases sendEnd with
  | raised e timeoutCause =>
      rw [fetch] at h
      split at h
      · exact Except.ok.inj h ▸ rfl
      · cases h
  | response response =>
      rw [fetch] at h
      split at h
      · exact Except.ok.inj h ▸ rfl
      · exact Except.ok.inj h ▸ rfl
      · cases h

/-- **What one step does.** -/
theorem fetchStep_cases {l : FetchLabel} (h : fetchStep parser s l = some s') :
    (s.pass = none ∧ s' = FetchState.goOn
      ⟨{ s.fetcher with connected := true }, none, s.past ++ [s.events], []⟩ endpoints) ∨
    ∃ pass, s.pass = some pass ∧
      (s' = { s with pass := none } ∨
      ∃ result, result.endpoint = pass.current ∧
        ((result.outcome = .communicationError ∧ s' = { s.record result with pass := none }) ∨
        (result.outcome ≠ .communicationError ∧ s' = (s.record result).goOn pass.rest))) := by
  cases l with
  | connect =>
      rw [fetchStep] at h
      split at h
      · cases h
      · rename_i hpass
        exact .inl ⟨hpass, (Option.some.inj h).symm⟩
  | ends sendEnd =>
      rw [fetchStep] at h
      split at h
      · cases h
      · rename_i pass hpass
        refine .inr ⟨pass, hpass, ?_⟩
        split at h
        · exact .inl (Option.some.inj h).symm
        · rename_i result hfetch
          refine .inr ⟨result, fetch_endpoint hfetch, ?_⟩
          split at h
          · rename_i hlost
            exact .inl ⟨hlost, (Option.some.inj h).symm⟩
          · rename_i hkept
            exact .inr ⟨hkept, (Option.some.inj h).symm⟩

/-! ## Final results -/

theorem isFinal_iff {fetcher : Fetcher} : fetcher.isFinal endpoint = true ↔
    ∃ r, fetcher.results.get? endpoint.url = some r ∧ r.outcome ≠ .communicationError := by
  rw [Fetcher.isFinal, Option.any_eq_true]
  simp only [decide_eq_true_eq]

/-- Recording another endpoint's result changes no result. -/
theorem get?_record (h : endpoint.url ≠ result.endpoint.url) :
    (s.record result).fetcher.results.get? endpoint.url =
      s.fetcher.results.get? endpoint.url :=
  Dict.get?_set_of_ne _ _ h

/-- What is final stays so when the result recorded is that of an endpoint
without one. -/
theorem isFinal_record (h : s.fetcher.isFinal endpoint = true)
    (hresult : s.fetcher.isFinal result.endpoint = false) :
    (s.record result).fetcher.results.get? endpoint.url =
      s.fetcher.results.get? endpoint.url := by
  refine get?_record fun hsame => ?_
  rw [Fetcher.isFinal, hsame] at h
  rw [Fetcher.isFinal, h] at hresult
  cases hresult

/-! ## What holds between two steps -/

/-- What the passes so far amount to. -/
structure Accounts (s : FetchState) : Prop where
  past : ∀ events ∈ s.past, PassLaw events
  done : s.fetcher.done = true ↔ .setDone ∈ s.trace
  final : s.fetcher.done = true → ∀ endpoint ∈ endpoints, s.fetcher.isFinal endpoint = true

/-- **A pass before its next request**: it has lost nothing, its requests
and the rest follow the table, and what the rest leaves out is final. -/
structure UnderWay (s : FetchState) (rest : List Endpoint) : Prop extends Accounts s where
  nothingLost : NothingLost s.events
  requests : (requests s.events ++ rest).Sublist endpoints
  cover : ∀ endpoint ∈ endpoints, s.fetcher.isFinal endpoint = true ∨ endpoint ∈ rest

/-- **An orderly state**: the last pass follows the law, and the endpoint it
awaits is all that the rest leaves out without a final result. -/
structure Orderly (s : FetchState) : Prop extends Accounts s where
  last : PassLaw s.events
  awaited : ∀ pass, s.pass = some pass → s.fetcher.isFinal pass.current = false ∧
    NothingLost s.events ∧ (requests s.events ++ pass.rest).Sublist endpoints ∧
    ∀ endpoint ∈ endpoints, s.fetcher.isFinal endpoint = true ∨
      endpoint = pass.current ∨ endpoint ∈ pass.rest

theorem trace_eq (s : FetchState) : s.trace = s.past.flatten ++ s.events := by
  rw [FetchState.trace, FetchState.passes, List.flatten_append, List.flatten_singleton]

theorem nothingLost_requested : NothingLost [.requested endpoint] := by
  intro result hresult
  cases List.mem_singleton.1 hresult

theorem nothingLost_setDone : NothingLost [.setDone] := by
  intro result hresult
  cases List.mem_singleton.1 hresult

/-- Going on keeps the order, at the next request or at the end. -/
theorem UnderWay.goOn (h : UnderWay s rest) : Orderly (s.goOn rest) := by
  rcases s.goOn_cases rest with ⟨skipped, endpoint, rest', rfl, hfirst, hskipped, hgoOn⟩ |
    ⟨hall, hgoOn⟩
  · have hsublist : (Capture.requests (s.events ++ [.requested endpoint]) ++ rest').Sublist
        endpoints := by
      have hrequest : Capture.requests [.requested endpoint] = [endpoint] := rfl
      rw [requests_append, hrequest, List.append_assoc]
      refine List.Sublist.trans ?_ h.requests
      exact (List.Sublist.refl _).append (List.sublist_append_right skipped (endpoint :: rest'))
    have hlost : NothingLost (s.events ++ [.requested endpoint]) :=
      h.nothingLost.append nothingLost_requested
    rw [hgoOn]
    refine ⟨⟨h.past, ?_, h.final⟩, ⟨?_, hlost.dropLast⟩, ?_⟩
    · rw [trace_eq, ← List.append_assoc, List.mem_append]
      have htrace := h.done
      rw [trace_eq] at htrace
      simpa using htrace
    · exact (List.sublist_append_left _ rest').trans hsublist
    · intro pass hpass
      obtain rfl := Option.some.inj hpass
      refine ⟨hfirst, hlost, hsublist, fun e he => ?_⟩
      rcases h.cover e he with hfinal | hrest
      · exact .inl hfinal
      · rcases List.mem_append.1 hrest with hskip | hcons
        · exact .inl (hskipped e hskip)
        · exact .inr (List.mem_cons.1 hcons)
  · have hlost : NothingLost (s.events ++ [.setDone]) := h.nothingLost.append nothingLost_setDone
    have hfinal : ∀ endpoint ∈ endpoints, s.fetcher.isFinal endpoint = true :=
      fun e he => (h.cover e he).elim id (hall e)
    have hsublist : (Capture.requests (s.events ++ [.setDone])).Sublist endpoints := by
      have hrequest : Capture.requests [.setDone] = [] := rfl
      rw [requests_append, hrequest, List.append_nil]
      exact (List.sublist_append_left _ rest).trans h.requests
    rw [hgoOn]
    refine ⟨⟨h.past, ?_, fun _ => hfinal⟩, ⟨hsublist, hlost.dropLast⟩, by simp⟩
    rw [trace_eq]
    simp

/-- Recording a result that is no communication error leaves the pass under
way with the rest. -/
theorem Orderly.record {pass : Pass} (h : Orderly s) (hpass : s.pass = some pass)
    (hendpoint : result.endpoint = pass.current) (hkept : result.outcome ≠ .communicationError) :
    UnderWay (s.record result) pass.rest := by
  obtain ⟨hcurrent, hlost, hsublist, hcover⟩ := h.awaited pass hpass
  rw [← hendpoint] at hcurrent
  have hstays : ∀ e, s.fetcher.isFinal e = true → (s.record result).fetcher.isFinal e = true := by
    intro e he
    rw [Fetcher.isFinal, isFinal_record he hcurrent]
    exact he
  refine ⟨⟨h.past, ?_, fun hdone e he => hstays e (h.final hdone e he)⟩, ?_, ?_, ?_⟩
  · rw [trace_eq]
    have htrace := h.done
    rw [trace_eq] at htrace
    simpa [FetchState.record] using htrace
  · refine hlost.append fun r hr => ?_
    cases List.mem_singleton.1 hr
    exact hkept
  · have hrequest : Capture.requests [.recorded result] = [] := rfl
    rw [FetchState.record, requests_append, hrequest, List.append_nil]
    exact hsublist
  · intro e he
    rcases hcover e he with hfinal | rfl | hrest
    · exact .inl (hstays e hfinal)
    · left
      rw [isFinal_iff]
      exact ⟨result, by rw [← hendpoint]; exact Dict.get?_set_self _ _ _, hkept⟩
    · exact .inr hrest

/-- **A step keeps the order.** -/
theorem Orderly.step {l : FetchLabel} (h : Orderly s) (hs : fetchStep parser s l = some s') :
    Orderly s' := by
  rcases fetchStep_cases hs with ⟨-, rfl⟩ | ⟨pass, hpass, rfl | ⟨result, hendpoint, hcase⟩⟩
  · refine UnderWay.goOn ⟨⟨?_, ?_, h.final⟩, ?_, ?_, ?_⟩
    · intro events hevents
      rcases List.mem_append.1 hevents with hpast | hlast
      · exact h.past events hpast
      · rw [List.mem_singleton.1 hlast]
        exact h.last
    · have htrace := h.done
      rw [trace_eq] at htrace ⊢
      simpa using htrace
    · intro result hresult
      cases hresult
    · exact List.Sublist.refl _
    · exact fun e he => .inr he
  · exact ⟨⟨h.past, h.done, h.final⟩, h.last, by simp⟩
  · rcases hcase with ⟨hlost, rfl⟩ | ⟨hkept, rfl⟩
    · obtain ⟨hcurrent, hnothing, hsublist, -⟩ := h.awaited pass hpass
      rw [← hendpoint] at hcurrent
      refine ⟨⟨h.past, ?_, fun hdone e he => ?_⟩, ⟨?_, ?_⟩, by simp⟩
      · have htrace := h.done
        rw [trace_eq] at htrace ⊢
        simpa [FetchState.record] using htrace
      · have hfinal := h.final hdone e he
        have hsame := isFinal_record (s := s) hfinal hcurrent
        rw [Fetcher.isFinal] at hfinal ⊢
        rw [← hsame] at hfinal
        exact hfinal
      · have hrequest : Capture.requests [.recorded result] = [] := rfl
        rw [FetchState.record, requests_append, hrequest, List.append_nil]
        exact (List.sublist_append_left _ pass.rest).trans hsublist
      · rw [FetchState.record, List.dropLast_concat]
        exact hnothing
    · exact (h.record hpass hendpoint hkept).goOn

theorem orderly_init : Orderly (fetching parser).init where
  past := by simp [fetching]
  done := iff_of_false Bool.false_ne_true (by simp [fetching, trace_eq])
  final := fun hdone => absurd hdone Bool.false_ne_true
  last := ⟨List.nil_sublist _, fun _ hresult => absurd hresult List.not_mem_nil⟩
  awaited := fun _ hpass => by cases hpass

/-! ## What is final is left alone -/

/-- `s'` comes after `s`, with what is final in `s` unchanged and not
requested since. -/
def LeavesFinal (s s' : FetchState) : Prop :=
  ∃ later, s'.trace = s.trace ++ later ∧
    ∀ endpoint, s.fetcher.isFinal endpoint = true →
      s'.fetcher.results.get? endpoint.url = s.fetcher.results.get? endpoint.url ∧
      ∀ again ∈ requests later, again.url ≠ endpoint.url

theorem LeavesFinal.isFinal (h : LeavesFinal s s') (hfinal : s.fetcher.isFinal endpoint = true) :
    s'.fetcher.isFinal endpoint = true := by
  obtain ⟨later, -, hall⟩ := h
  rw [Fetcher.isFinal, (hall endpoint hfinal).1]
  exact hfinal

theorem LeavesFinal.trans {s'' : FetchState} (h : LeavesFinal s s') (h' : LeavesFinal s' s'') :
    LeavesFinal s s'' := by
  obtain ⟨later, htrace, hall⟩ := id h
  obtain ⟨later', htrace', hall'⟩ := h'
  refine ⟨later ++ later', by rw [htrace', htrace, List.append_assoc], fun endpoint hfinal => ?_⟩
  obtain ⟨hsame, hrequests⟩ := hall endpoint hfinal
  obtain ⟨hsame', hrequests'⟩ := hall' endpoint (h.isFinal hfinal)
  refine ⟨hsame'.trans hsame, fun again hagain => ?_⟩
  rw [requests_append] at hagain
  exact (List.mem_append.1 hagain).elim (hrequests again) (hrequests' again)

/-- Going on requests an endpoint without a final result, or nothing. -/
theorem leavesFinal_goOn (s : FetchState) (rest : List Endpoint) : LeavesFinal s (s.goOn rest) := by
  rcases s.goOn_cases rest with ⟨skipped, first, rest', -, hfirst, -, hgoOn⟩ | ⟨-, hgoOn⟩
  · rw [hgoOn]
    refine ⟨[.requested first], by rw [trace_eq, trace_eq, List.append_assoc], ?_⟩
    refine fun endpoint hfinal => ⟨rfl, fun again hagain hsame => ?_⟩
    obtain rfl : again = first := List.mem_singleton.1 hagain
    rw [Fetcher.isFinal, hsame] at hfirst
    rw [Fetcher.isFinal, hfirst] at hfinal
    cases hfinal
  · rw [hgoOn]
    exact ⟨[.setDone], by rw [trace_eq, trace_eq, List.append_assoc],
      fun _ _ => ⟨rfl, fun _ hagain => absurd hagain List.not_mem_nil⟩⟩

/-- Recording the result awaited changes no other. -/
theorem leavesFinal_record (hcurrent : s.fetcher.isFinal result.endpoint = false) :
    LeavesFinal s (s.record result) := by
  have htrace : (s.record result).trace = s.trace ++ [.recorded result] := by
    rw [trace_eq, trace_eq]
    exact (List.append_assoc s.past.flatten s.events _).symm
  refine ⟨[.recorded result], htrace, ?_⟩
  exact fun endpoint hfinal => ⟨isFinal_record hfinal hcurrent,
    fun _ hagain => absurd hagain List.not_mem_nil⟩

/-- **A step leaves what is final alone.** -/
theorem Orderly.leavesFinal {l : FetchLabel} (h : Orderly s)
    (hs : fetchStep parser s l = some s') : LeavesFinal s s' := by
  have hrefl : ∀ t : FetchState, t.trace = s.trace → t.fetcher.results = s.fetcher.results →
      LeavesFinal s t := by
    intro t htrace hresults
    refine ⟨[], by rw [htrace, List.append_nil], fun endpoint _ => ?_⟩
    rw [hresults]
    exact ⟨rfl, fun _ hagain => absurd hagain List.not_mem_nil⟩
  rcases fetchStep_cases hs with ⟨-, rfl⟩ | ⟨pass, hpass, rfl | ⟨result, hendpoint, hcase⟩⟩
  · let begun : FetchState :=
      ⟨{ s.fetcher with connected := true }, none, s.past ++ [s.events], []⟩
    have hbegun : begun.trace = s.trace := by
      rw [trace_eq, trace_eq]
      simp [begun]
    exact (hrefl begun hbegun rfl).trans (leavesFinal_goOn begun endpoints)
  · exact hrefl _ rfl rfl
  · have hcurrent := (h.awaited pass hpass).1
    rw [← hendpoint] at hcurrent
    have hrecord := leavesFinal_record hcurrent
    rcases hcase with ⟨-, rfl⟩ | ⟨-, rfl⟩
    · exact hrecord
    · exact hrecord.trans (leavesFinal_goOn _ pass.rest)

/-! ## Every run -/

theorem orderly_of_run {ls : List FetchLabel} (h : (fetching parser).Run Machine.Free ls s) :
    Orderly s :=
  h.invariant orderly_init fun _ _ _ hs _ hstep => hs.step hstep

theorem leavesFinal_of_exec {ks : List FetchLabel} (h : Orderly s)
    (hs : (fetching parser).exec s ks = some s') : LeavesFinal s s' := by
  induction ks generalizing s with
  | nil =>
      obtain rfl := Option.some.inj hs
      exact ⟨[], (List.append_nil _).symm, fun _ _ => ⟨rfl, by simp [requests]⟩⟩
  | cons k ks ih =>
      obtain ⟨next, hnext, hrest⟩ := Option.bind_eq_some_iff.1 hs
      exact (h.leavesFinal hnext).trans (ih (h.step hnext) hrest)

/-- **The laws of a capture**, in every state of every run: what has a
result other than a communication error keeps it and is not requested
again; each pass follows the table; a communication error is the last thing
in its pass; and `done` is set only when nothing is missing. -/
theorem fetching_safe {parser : StrictParser} {ls : List FetchLabel} {s : FetchState}
    (h : (fetching parser).Run Machine.Free ls s) :
    (∀ ks s', (fetching parser).exec s ks = some s' → ∃ later, s'.trace = s.trace ++ later ∧
      ∀ (endpoint : Endpoint) (result : EndpointResult),
        s.fetcher.results.get? endpoint.url = some result →
        result.outcome ≠ .communicationError →
        s'.fetcher.results.get? endpoint.url = some result ∧
        ∀ again ∈ requests later, again.url ≠ endpoint.url) ∧
    (∀ pass ∈ s.passes, (requests pass).Sublist endpoints ∧ (requests pass).Nodup) ∧
    (∀ pass ∈ s.passes, ∀ before result after, pass = before ++ .recorded result :: after →
      result.outcome = .communicationError → after = []) ∧
    (s.fetcher.done = true ↔ .setDone ∈ s.trace) ∧
    (s.fetcher.done = true → ∀ endpoint ∈ endpoints, ∃ result,
      s.fetcher.results.get? endpoint.url = some result ∧
        result.outcome ≠ .communicationError) := by
  have horderly := orderly_of_run h
  have hlaw : ∀ pass ∈ s.passes, PassLaw pass := by
    intro pass hpass
    rcases List.mem_append.1 hpass with hpast | hlast
    · exact horderly.past pass hpast
    · rw [List.mem_singleton.1 hlast]
      exact horderly.last
  refine ⟨fun ks s' hexec => ?_, fun pass hpass => ?_, ?_, horderly.done, ?_⟩
  · obtain ⟨later, htrace, hall⟩ := leavesFinal_of_exec horderly hexec
    refine ⟨later, htrace, fun endpoint result hresult hkept => ?_⟩
    obtain ⟨hsame, hrequests⟩ := hall endpoint (isFinal_iff.2 ⟨result, hresult, hkept⟩)
    exact ⟨hsame.trans hresult, hrequests⟩
  · have hnodup : endpoints.Nodup := by decide
    exact ⟨(hlaw pass hpass).requests, hnodup.sublist (hlaw pass hpass).requests⟩
  · rintro pass hpass before result after rfl hlost
    by_contra hafter
    refine (hlaw _ hpass).lostLast result ?_ hlost
    rw [List.dropLast_append_of_ne_nil (List.cons_ne_nil _ _), List.dropLast_cons_of_ne_nil hafter]
    exact List.mem_append_right _ List.mem_cons_self
  · exact fun hdone endpoint hendpoint => isFinal_iff.1 (horderly.final hdone endpoint hendpoint)

/-- The parser, at the content of two braces. -/
def emptyObjectParser : StrictParser where
  decode content := if content = bytesOf "\x7b\x7d" then some "\x7b\x7d" else none
  loads text := if text = "\x7b\x7d" then .ok (.dict []) else .error .jsonDecodeError

/-- After the first endpoint is answered the connection is lost, and the
next one does not request it again. -/
theorem fetching_safe_reconnect :
    ∃ s, (fetching emptyObjectParser).exec (fetching emptyObjectParser).init [.connect,
        .ends (.response ⟨200, ∅, some (bytesOf "\x7b\x7d")⟩)] = some s ∧
      ∃ s', (fetching emptyObjectParser).exec s
          [.ends (.raised (.communicationError "Connection closed") false), .connect] = some s' ∧
        ∃ later, s'.trace = s.trace ++ later ∧
          ∀ again ∈ requests later, again.url ≠ "/configs/file" := by
  refine ⟨_, rfl, _, rfl, ?_⟩
  let answered : List FetchLabel :=
    [.connect, .ends (.response ⟨200, ∅, some (bytesOf "\x7b\x7d")⟩)]
  have hrun : (fetching emptyObjectParser).Run Machine.Free answered _ :=
    Machine.run_of_exec rfl
  obtain ⟨later, htrace, hall⟩ := (fetching_safe hrun).1
    [.ends (.raised (.communicationError "Connection closed") false), .connect] _ rfl
  refine ⟨later, htrace, ?_⟩
  exact (hall ⟨"/configs/file", "configs_file.json"⟩ _ rfl (by decide)).2

end Capture

end Tydomio
