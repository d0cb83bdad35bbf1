import Tydomio.Mcp.Writes

/-!
# At most one send in each interval

Calls on one `Writes` overlap, and suspend in the middle of their sends.
From the freshness check to the count no call suspends, so the count of one
call is over before the next call is checked: `CallsInv` holds in every
state reached, and the guarantees of a call are read off it.
-/

namespace Tydomio

open Common Protocol

namespace Mcp

/-! ## When a call is rate-limited -/

/-- A check that refuses no call for its rate. -/
def NotLimited {α : Type} (x : Checked α) : Prop :=
  ∀ refused, x = .error (.refused refused) → refused.reason ≠ "rate_limited"

theorem notLimited_ok {α : Type} (a : α) : NotLimited (.ok a) := by
  intro refused h
  cases h

theorem notLimited_raised {α : Type} (e : Exc) : NotLimited (.error (.raised e) : Checked α) := by
  intro refused h
  cases h

theorem notLimited_refuse {α : Type} {refused : Refused} (h : refused.reason ≠ "rate_limited") :
    NotLimited (refuse refused : Checked α) := by
  intro refused' h'
  cases h'
  exact h

theorem NotLimited.bind {α β : Type} {x : Checked α} {f : α → Checked β} (hx : NotLimited x)
    (hf : ∀ a, NotLimited (f a)) : NotLimited (x >>= f) := by
  intro refused h
  rcases bind_eq_error_iff.1 h with h | ⟨a, -, h⟩
  · exact hx refused h
  · exact hf a refused h

theorem notLimited_letThrough {α : Type} (x : Except Exc α) : NotLimited (letThrough x) := by
  cases x with
  | error e => exact notLimited_raised e
  | ok a => exact notLimited_ok a

theorem notLimited_checkRef {R : Type} (x : Except Exc R) : NotLimited (checkRef x) := by
  unfold checkRef
  split
  · exact notLimited_ok _
  · exact notLimited_refuse (by decide)
  · exact notLimited_raised _

theorem notLimited_validated (model : WriteModel) (fields : Dict String JsonValue) :
    NotLimited (validated model fields) := by
  unfold validated
  split
  · exact notLimited_ok _
  · exact notLimited_refuse (by simp [Refused.invalidWrite])
  · exact notLimited_raised _

theorem notLimited_usageOfTarget (config : Config) (target : Target) :
    NotLimited (usageOfTarget config target) := by
  unfold usageOfTarget
  split
  · exact notLimited_refuse (by decide)
  · exact notLimited_ok _

theorem notLimited_shutterWrite (installation : Installation) (config : Config)
    (input : SetShutterInput) (transactionId : ℤ) :
    NotLimited (shutterWrite installation config input transactionId) := by
  refine (notLimited_usageOfTarget _ _).bind fun usage => ?_
  split
  · have href : NotLimited (shutterRef installation input.ids) := by
      unfold shutterRef
      split <;> exact notLimited_checkRef _
    have hfields : NotLimited (shutterFields input) := by
      unfold shutterFields
      split
      · exact notLimited_ok _
      · exact notLimited_ok _
      · exact notLimited_refuse (by simp [Refused.invalidWrite])
    refine href.bind fun ref => hfields.bind fun fields =>
      (notLimited_validated _ _).bind fun write => ?_
    exact (notLimited_letThrough _).bind fun request => notLimited_ok _
  · exact notLimited_refuse (by simp [Refused.wrongUsage])

theorem notLimited_heatingWrite (installation : Installation) (config : Config)
    (input : SetHeatingInput) (transactionId : ℤ) :
    NotLimited (heatingWrite installation config input transactionId) := by
  have hwrong : ∀ {α : Type}, NotLimited (refuse (.wrongUsage notHeating) : Checked α) :=
    notLimited_refuse (by simp [Refused.wrongUsage])
  unfold heatingWrite
  split
  · exact hwrong
  · refine (notLimited_usageOfTarget _ _).bind fun usage => ?_
    split
    · refine (notLimited_checkRef _).bind fun area =>
        (notLimited_validated _ _).bind fun write => ?_
      exact (notLimited_letThrough _).bind fun request => notLimited_ok _
    · exact hwrong
  · refine (notLimited_usageOfTarget _ _).bind fun usage => ?_
    split
    · exact hwrong
    · rename_i model hmodel
      split
      · have hwrite : NotLimited (writeModelOf model) := by
          unfold writeModelOf
          split
          · exact notLimited_ok _
          · exact notLimited_raised _
        refine (notLimited_checkRef _).bind fun endpoint => hwrite.bind fun writeModel =>
          (notLimited_validated _ _).bind fun write => ?_
        exact (notLimited_letThrough _).bind fun request => notLimited_ok _
      · exact hwrong

theorem notLimited_syncedConfig (cache : Cache) : NotLimited cache.syncedConfig := by
  unfold Cache.syncedConfig
  split
  · split
    · exact notLimited_ok _
    · exact notLimited_refuse (by decide)
  · exact notLimited_refuse (by decide)

theorem count_eq_refuse {interval now : ℚ} {lastSend : Option ℚ} {refused : Refused}
    (h : count interval lastSend now = .error (.refused refused)) :
    ∃ last, lastSend = some last ∧ 0 < interval - (now - last) ∧
      refused = .rateLimited (retryAfter interval (interval - (now - last))) := by
  unfold count at h
  split at h
  · cases h
  · rename_i last
    dsimp only at h
    split at h
    · rename_i hwait
      cases h
      exact ⟨last, rfl, hwait, rfl⟩
    · cases h

/-- **A call is refused for its rate by the count alone.** -/
theorem count_of_begin {writes : Writes} {tool : Tool} {arguments : Dict String JsonValue}
    {transactionId : ℤ} {clock : ℚ} {target : String} {refused : Refused}
    (h : (writes.begin tool arguments transactionId clock).1 = .notSent target refused)
    (hreason : refused.reason = "rate_limited") :
    count writes.interval writes.lastSend clock = .error (.refused refused) := by
  unfold Writes.begin at h
  split at h
  · cases h
  · rename_i text prepare hparse
    dsimp only at h
    split at h
    · rename_i refused' hchecked
      cases h
      -- the checks before the count refuse for other reasons
      rcases bind_eq_error_iff.1 hchecked with h | ⟨⟨installation, config⟩, -, hchecked⟩
      · exact absurd hreason (notLimited_syncedConfig _ _ h)
      rcases bind_eq_error_iff.1 hchecked with h | ⟨prepared, -, hchecked⟩
      · have hprepare : NotLimited (prepare installation config) := by
          cases tool with
          | setShutter =>
              obtain ⟨input, -, heq⟩ := Option.map_eq_some_iff.1 hparse
              cases heq
              exact notLimited_shutterWrite _ _ _ _
          | setHeating =>
              obtain ⟨input, -, heq⟩ := Option.map_eq_some_iff.1 hparse
              cases heq
              exact notLimited_heatingWrite _ _ _ _
        exact absurd hreason (hprepare _ h)
      rcases bind_eq_error_iff.1 hchecked with h | ⟨now, -, hchecked⟩
      · exact h
      · cases hchecked
    · cases h
    · cases h

/-- The announced wait is positive, is no more than the interval, and
covers what is left of it. -/
theorem retryAfter_bounds {interval wait : ℚ} (hwait : 0 < wait)
    (hle : wait ≤ interval) :
    0 < retryAfter interval wait ∧ retryAfter interval wait ≤ interval ∧
      wait ≤ retryAfter interval wait := by
  have hceil : wait * 1000 ≤ ⌈wait * 1000⌉ := Int.le_ceil _
  have hround : wait ≤ (⌈wait * 1000⌉ : ℚ) / 1000 := by
    rw [le_div_iff₀ (by norm_num)]
    exact hceil
  have hcovers : wait ≤ retryAfter interval wait := le_min hround hle
  exact ⟨lt_of_lt_of_le hwait hcovers, min_le_right _ _, hcovers⟩

/-! ## Calls in any interleaving -/

variable {cache : Cache} {rate clock₀ : ℚ} {s s' : CallsState} {events : List CallEvent}

/-- What a started call leaves, by how its first step ends. -/
theorem start_cases (s : CallsState) (call : ℕ) (tool : Tool) (arguments : Dict String JsonValue)
    (transactionId : ℤ) (clock : ℚ) (sentAt : DateTime) :
    (∃ (target : String) (prepared : Prepared),
      count s.writes.interval s.writes.lastSend clock = .ok clock ∧
      s.start call tool arguments transactionId clock sentAt =
        { s with
          writes := { s.writes with lastSend := some clock }
          clock
          calls := Function.update s.calls call (.sending target prepared.write sentAt)
          sends := s.sends ++ [⟨call, clock, prepared.request⟩] }) ∨
    ∃ phase, s.start call tool arguments transactionId clock sentAt =
        { s with clock, calls := Function.update s.calls call phase } ∧
      (∀ target write sentAt', phase ≠ .sending target write sentAt') ∧ phase ≠ .idle ∧
      ∀ report, phase = .reported report → report.outcome = "not_sent" ∧
        (report.reason = some "rate_limited" → ∃ last, s.writes.lastSend = some last ∧
          0 < s.writes.interval - (clock - last) ∧
          report.retryAfter =
            some (retryAfter s.writes.interval (s.writes.interval - (clock - last)))) := by
  unfold CallsState.start
  rcases begin_cases s.writes tool arguments transactionId clock with
    ⟨target, prepare, installation, config, prepared, -, -, -, hcount, hbegin⟩ | ⟨hno, hsame⟩
  · refine .inl ⟨target, prepared, hcount, ?_⟩
    simp only [hbegin, CallsState.setCall]
  · refine .inr ?_
    simp only [hsame]
    cases hbegun : (s.writes.begin tool arguments transactionId clock).1 with
    | sends target prepared => exact absurd hbegun (hno target prepared)
    | invalidInput => exact ⟨.invalidInput, rfl, nofun, nofun, nofun⟩
    | raised error => exact ⟨.raised error, rfl, nofun, nofun, nofun⟩
    | notSent target refused =>
        refine ⟨.reported (notSentReport target refused), rfl, nofun, nofun, ?_⟩
        rintro _ ⟨⟩
        refine ⟨rfl, fun hreason => ?_⟩
        have hlimited : refused.reason = "rate_limited" := Option.some.inj hreason
        obtain ⟨last, hlast, hwait, hrefused⟩ :=
          count_eq_refuse (count_of_begin hbegun hlimited)
        refine ⟨last, hlast, hwait, ?_⟩
        rw [notSentReport, hrefused]
        rfl

/-- **What every state reached satisfies.** -/
structure CallsInv (rate : ℚ) (s : CallsState) : Prop where
  interval : s.writes.interval = 1 / rate
  /-- The time kept is that of the last request handed to `send`. -/
  last : s.writes.lastSend = s.sends.getLast?.map SentRequest.clock
  spaced : s.sends.Pairwise fun a b => a.clock + 1 / rate ≤ b.clock
  past : ∀ sent ∈ s.sends, sent.clock ≤ s.clock
  once : (s.sends.map SentRequest.call).Nodup
  started : ∀ sent ∈ s.sends, s.calls sent.call ≠ .idle
  sending : ∀ call target write sentAt, s.calls call = .sending target write sentAt →
    call ∈ s.sends.map SentRequest.call
  ended : ∀ call sendEnd, (call, sendEnd) ∈ s.ends → call ∈ s.sends.map SentRequest.call
  acknowledged : ∀ call report, s.calls call = .reported report →
    report.outcome = "acknowledged" → (call, .returned) ∈ s.ends
  unknown : ∀ call report, s.calls call = .reported report → report.outcome = "unknown" →
    ∃ error, error.isCommunication = true ∧ (call, .raised error) ∈ s.ends

theorem callsInv_init : CallsInv rate (.init cache rate clock₀) where
  interval := rfl
  last := rfl
  spaced := List.Pairwise.nil
  past := by simp [CallsState.init]
  once := List.nodup_nil
  started := by simp [CallsState.init]
  sending := by simp [CallsState.init]
  ended := by simp [CallsState.init]
  acknowledged := by simp [CallsState.init]
  unknown := by simp [CallsState.init]

/-- Where the phase of one call is set, a call's phase is that one or the
phase it had. -/
theorem update_eq {calls : ℕ → CallPhase} {call call' : ℕ} {phase phase' : CallPhase}
    (h : Function.update calls call phase call' = phase') :
    (call' = call ∧ phase = phase') ∨ calls call' = phase' := by
  by_cases hcall : call' = call
  · rw [hcall, Function.update_self] at h
    exact .inl ⟨hcall, h⟩
  · rw [Function.update_of_ne hcall] at h
    exact .inr h

theorem update_ne_idle {calls : ℕ → CallPhase} {call call' : ℕ} {phase : CallPhase}
    (hidle : phase ≠ .idle) (h : calls call' ≠ .idle) :
    Function.update calls call phase call' ≠ .idle := by
  intro hupdate
  rcases update_eq hupdate with ⟨-, hnew⟩ | hold
  · exact hidle hnew
  · exact h hold

/-- A call that sends nothing. -/
theorem CallsInv.quiet (h : CallsInv rate s) {call : ℕ} {phase : CallPhase} {clock : ℚ}
    (hclock : s.clock ≤ clock) (hidle : phase ≠ .idle)
    (hsending : ∀ target write sentAt, phase ≠ .sending target write sentAt)
    (houtcome : ∀ report, phase = .reported report → report.outcome = "not_sent") :
    CallsInv rate { s with clock, calls := Function.update s.calls call phase } where
  interval := h.interval
  last := h.last
  spaced := h.spaced
  past sent hsent := (h.past sent hsent).trans hclock
  once := h.once
  started sent hsent := update_ne_idle hidle (h.started sent hsent)
  sending call' target write sentAt hphase := by
    rcases update_eq hphase with ⟨-, hnew⟩ | hold
    · exact absurd hnew (hsending target write sentAt)
    · exact h.sending call' target write sentAt hold
  ended := h.ended
  acknowledged call' report hphase hack := by
    rcases update_eq hphase with ⟨-, hnew⟩ | hold
    · have hnot := houtcome report hnew
      rw [hnot] at hack
      exact absurd hack (by decide)
    · exact h.acknowledged call' report hold hack
  unknown call' report hphase hunknown := by
    rcases update_eq hphase with ⟨-, hnew⟩ | hold
    · have hnot := houtcome report hnew
      rw [hnot] at hunknown
      exact absurd hunknown (by decide)
    · exact h.unknown call' report hold hunknown

/-- A moment is an interval after every send when it is one after the
last. -/
theorem CallsInv.after_sends (h : CallsInv rate s) (hrate : 0 < rate) {clock : ℚ}
    (hlast : ∀ last, s.writes.lastSend = some last → last + s.writes.interval ≤ clock) :
    ∀ sent ∈ s.sends, sent.clock + 1 / rate ≤ clock := by
  intro sent hsent
  have hpos : 0 < 1 / rate := one_div_pos.2 hrate
  rcases List.eq_nil_or_concat' s.sends with hnil | ⟨earlier, last, hsends⟩
  · rw [hnil] at hsent
    cases hsent
  · have hkept : s.writes.lastSend = some last.clock := by
      rw [h.last, hsends, List.getLast?_concat]
      rfl
    have hwait := hlast last.clock hkept
    rw [h.interval] at hwait
    have hspaced := h.spaced
    rw [hsends] at hsent hspaced
    rcases List.mem_append.1 hsent with hsent | hsent
    · -- the last send is an interval ago, and this one was before it
      have hbefore := (List.pairwise_append.1 hspaced).2.2 sent hsent last
        (List.mem_singleton_self _)
      linarith
    · rw [List.mem_singleton.1 hsent]
      exact hwait

/-- A call that sends: no request was sent for as long as the interval. -/
theorem CallsInv.sent (h : CallsInv rate s) (hrate : 0 < rate) {call : ℕ} {clock : ℚ}
    {target : String} {prepared : Prepared} {sentAt : DateTime} (hclock : s.clock ≤ clock)
    (hidle : s.calls call = .idle)
    (hcount : count s.writes.interval s.writes.lastSend clock = .ok clock) :
    CallsInv rate { s with
      writes := { s.writes with lastSend := some clock }
      clock
      calls := Function.update s.calls call (.sending target prepared.write sentAt)
      sends := s.sends ++ [⟨call, clock, prepared.request⟩] } where
  interval := h.interval
  last := by simp
  spaced := by
    obtain ⟨-, hwait⟩ := count_eq_ok hcount
    have hlater := h.after_sends hrate hwait
    refine List.pairwise_append.2 ⟨h.spaced, List.pairwise_singleton _ _, ?_⟩
    intro sent hsent new hnew
    rw [List.mem_singleton.1 hnew]
    exact hlater sent hsent
  past sent hsent := by
    rcases List.mem_append.1 hsent with hsent | hsent
    · exact (h.past sent hsent).trans hclock
    · rw [List.mem_singleton.1 hsent]
  once := by
    rw [List.map_append, List.nodup_append]
    refine ⟨h.once, List.nodup_singleton _, ?_⟩
    intro a ha b hb hab
    obtain ⟨sent, hsent, rfl⟩ := List.mem_map.1 ha
    rw [List.map_singleton, List.mem_singleton] at hb
    -- the call is idle, and those that sent are not
    have hstarted := h.started sent hsent
    rw [hab, hb] at hstarted
    exact hstarted hidle
  started sent hsent := by
    rcases List.mem_append.1 hsent with hsent | hsent
    · exact update_ne_idle (by simp) (h.started sent hsent)
    · rw [List.mem_singleton.1 hsent]
      simp only [Function.update_self, ne_eq, reduceCtorEq, not_false_eq_true]
  sending call' target' write sentAt' hphase := by
    rw [List.map_append, List.mem_append]
    rcases update_eq hphase with ⟨hcall, -⟩ | hold
    · exact .inr (by simp [hcall])
    · exact .inl (h.sending call' target' write sentAt' hold)
  ended call' sendEnd hend := by
    rw [List.map_append, List.mem_append]
    exact .inl (h.ended call' sendEnd hend)
  acknowledged call' report hphase := by
    rcases update_eq hphase with ⟨-, hnew⟩ | hold
    · cases hnew
    · exact h.acknowledged call' report hold
  unknown call' report hphase := by
    rcases update_eq hphase with ⟨-, hnew⟩ | hold
    · cases hnew
    · exact h.unknown call' report hold

/-- A send that ends, and its call with it. -/
theorem CallsInv.finish (h : CallsInv rate s) {call : ℕ} {phase : CallPhase} {sendEnd : SendEnd}
    (hsent : call ∈ s.sends.map SentRequest.call) (hidle : phase ≠ .idle)
    (hsending : ∀ target write sentAt, phase ≠ .sending target write sentAt)
    (hack : ∀ report, phase = .reported report → report.outcome = "acknowledged" →
      sendEnd = .returned)
    (hunknown : ∀ report, phase = .reported report → report.outcome = "unknown" →
      ∃ error, error.isCommunication = true ∧ sendEnd = .raised error) :
    CallsInv rate (s.finish call phase sendEnd) where
  interval := h.interval
  last := h.last
  spaced := h.spaced
  past := h.past
  once := h.once
  started sent hmem := update_ne_idle hidle (h.started sent hmem)
  sending call' target write sentAt hphase := by
    rcases update_eq hphase with ⟨-, hnew⟩ | hold
    · exact absurd hnew (hsending target write sentAt)
    · exact h.sending call' target write sentAt hold
  ended call' sendEnd' hmem := by
    rcases List.mem_append.1 hmem with hmem | hmem
    · exact h.ended call' sendEnd' hmem
    · obtain ⟨rfl, -⟩ := Prod.mk.inj (List.mem_singleton.1 hmem)
      exact hsent
  acknowledged call' report hphase houtcome := by
    refine List.mem_append.2 ?_
    rcases update_eq hphase with ⟨hcall, hnew⟩ | hold
    · have hreturned := hack report hnew houtcome
      exact .inr (by rw [hcall, hreturned, List.mem_singleton])
    · exact .inl (h.acknowledged call' report hold houtcome)
  unknown call' report hphase houtcome := by
    rcases update_eq hphase with ⟨hcall, hnew⟩ | hold
    · obtain ⟨error, hcommunication, herror⟩ := hunknown report hnew houtcome
      refine ⟨error, hcommunication, List.mem_append_right _ ?_⟩
      rw [hcall, herror, List.mem_singleton]
    · obtain ⟨error, hcommunication, hmem⟩ := h.unknown call' report hold houtcome
      exact ⟨error, hcommunication, List.mem_append_left _ hmem⟩

/-- **Every step keeps the invariant.** -/
theorem callsInv_step (hrate : 0 < rate) {event : CallEvent} (h : CallsInv rate s)
    (hs : callsStep s event = some s') : CallsInv rate s' := by
  cases event with
  | cacheChanges cache =>
      cases hs
      exact ⟨h.interval, h.last, h.spaced, h.past, h.once, h.started, h.sending, h.ended,
        h.acknowledged, h.unknown⟩
  | start call tool arguments transactionId clock sentAt =>
      simp only [callsStep] at hs
      split at hs
      · rename_i hidle
        split at hs
        · rename_i hclock
          cases hs
          rcases start_cases s call tool arguments transactionId clock sentAt with
            ⟨target, prepared, hcount, heq⟩ | ⟨phase, heq, hsending, hnot, hreport⟩
          · rw [heq]
            exact h.sent hrate hclock hidle hcount
          · rw [heq]
            exact h.quiet hclock hnot hsending fun report hphase => (hreport report hphase).1
        · cases hs
      · cases hs
  | sendReturns call =>
      simp only [callsStep] at hs
      split at hs
      · rename_i target write sentAt hphase
        cases hs
        refine h.finish (h.sending call target write sentAt hphase) (by simp) (by simp)
          (fun _ _ _ => rfl) ?_
        rintro _ ⟨⟩ houtcome
        exact absurd houtcome (by simp [acknowledgedReport])
      · cases hs
  | sendRaises call error =>
      simp only [callsStep] at hs
      split at hs
      · rename_i target write sentAt hphase
        cases hs
        have hsent := h.sending call target write sentAt hphase
        by_cases hcommunication : error.isCommunication = true
        · simp only [if_pos hcommunication]
          refine h.finish hsent (by simp) (by simp) ?_ fun _ _ _ => ⟨error, hcommunication, rfl⟩
          rintro _ ⟨⟩ houtcome
          exact absurd houtcome (by simp [unknownReport])
        · simp only [if_neg hcommunication]
          exact h.finish hsent (by simp) (by simp) (by simp) (by simp)
      · cases hs

theorem callsInv_of_run (hrate : 0 < rate)
    (h : (callsMachine cache rate clock₀).Run Machine.Free events s) : CallsInv rate s := by
  refine h.invariant (I := CallsInv rate) callsInv_init ?_
  intro s event s' hs _ hstep
  exact callsInv_step hrate hs hstep

/-! ## The guarantees -/

/-- The call is refused for its rate, and told to wait. -/
def RateLimited (s : CallsState) (call : ℕ) : Prop :=
  ∃ report, s.calls call = .reported report ∧ report.reason = some "rate_limited"

/-- **What the calls on one `Writes` guarantee.** -/
structure RateSafe (cache : Cache) (rate clock₀ : ℚ) (s : CallsState) : Prop where
  /-- A call hands one request to `send` at most. -/
  once : (s.sends.map SentRequest.call).Nodup
  /-- Two sends are an interval apart at least, however the first ended. -/
  spaced : s.sends.Pairwise fun a b => a.clock + 1 / rate ≤ b.clock
  /-- A call that sends nothing leaves the object as it was, and what is
  kept of the sends is the time of the last one. -/
  undelayed : s.writes.lastSend = s.sends.getLast?.map SentRequest.clock ∧
    ∀ call tool arguments transactionId clock sentAt s',
      callsStep s (.start call tool arguments transactionId clock sentAt) = some s' →
      s'.sends = s.sends → s'.writes = s.writes
  /-- A call reports `acknowledged` after its own send returned. -/
  acknowledged : ∀ call report, s.calls call = .reported report →
    report.outcome = "acknowledged" →
    call ∈ s.sends.map SentRequest.call ∧ (call, .returned) ∈ s.ends
  /-- A call reports `unknown` after its own send raised
  `CommunicationError`. -/
  unknown : ∀ call report, s.calls call = .reported report → report.outcome = "unknown" →
    call ∈ s.sends.map SentRequest.call ∧
    ∃ error, error.isCommunication = true ∧ (call, .raised error) ∈ s.ends
  /-- A call refused for its rate is told to wait for an interval at most,
  and a call made that much later, with no send in between, is not refused
  for its rate. -/
  retry : ∀ call tool arguments transactionId clock sentAt s',
    callsStep s (.start call tool arguments transactionId clock sentAt) = some s' →
    RateLimited s' call →
    ∃ report wait, s'.calls call = .reported report ∧ report.retryAfter = some wait ∧
      0 < wait ∧ wait ≤ 1 / rate ∧
      ∀ later t, (callsMachine cache rate clock₀).exec s' later = some t → t.sends = s'.sends →
        ∀ call' tool' arguments' transactionId' clock' sentAt' t', clock + wait ≤ clock' →
          callsStep t (.start call' tool' arguments' transactionId' clock' sentAt') = some t' →
          ¬ RateLimited t' call'

/-- A started call is the one step, at a clock that did not go back. -/
theorem start_of_step {call : ℕ} {tool : Tool} {arguments : Dict String JsonValue}
    {transactionId : ℤ} {clock : ℚ} {sentAt : DateTime}
    (h : callsStep s (.start call tool arguments transactionId clock sentAt) = some s') :
    s.clock ≤ clock ∧ s' = s.start call tool arguments transactionId clock sentAt := by
  simp only [callsStep] at h
  split at h
  · split at h
    · cases h
      exact ⟨‹_›, rfl⟩
    · cases h
  · cases h

/-- A call refused for its rate was too early after the last send. -/
theorem wait_of_rateLimited {call : ℕ} {tool : Tool} {arguments : Dict String JsonValue}
    {transactionId : ℤ} {clock : ℚ} {sentAt : DateTime}
    (h : RateLimited (s.start call tool arguments transactionId clock sentAt) call) :
    ∃ last report,
      (s.start call tool arguments transactionId clock sentAt).sends = s.sends ∧
      s.writes.lastSend = some last ∧ 0 < s.writes.interval - (clock - last) ∧
      (s.start call tool arguments transactionId clock sentAt).calls call = .reported report ∧
      report.retryAfter =
        some (retryAfter s.writes.interval (s.writes.interval - (clock - last))) := by
  obtain ⟨report, hreported, hreason⟩ := h
  rcases start_cases s call tool arguments transactionId clock sentAt with
    ⟨target, prepared, -, heq⟩ | ⟨phase, heq, -, -, hreport⟩
  · rw [heq] at hreported
    simp only [Function.update_self] at hreported
    cases hreported
  · rw [heq] at hreported ⊢
    have hphase : phase = .reported report := by
      simpa only [Function.update_self] using hreported
    obtain ⟨-, hlimited⟩ := hreport report hphase
    obtain ⟨last, hlast, hwait, hretry⟩ := hlimited hreason
    exact ⟨last, report, rfl, hlast, hwait, hreported, hretry⟩

/-- **At most one send in each interval, told truly**, in every
interleaving of calls with sends that return, raise and are cancelled. -/
theorem rate_safe (hrate : 0 < rate)
    (h : (callsMachine cache rate clock₀).Run Machine.Free events s) :
    RateSafe cache rate clock₀ s := by
  have hinv := callsInv_of_run hrate h
  refine ⟨hinv.once, hinv.spaced, ⟨hinv.last, ?_⟩, fun call report hphase houtcome => ?_,
    fun call report hphase houtcome => ?_, ?_⟩
  · intro call tool arguments transactionId clock sentAt s' hstep hsends
    obtain ⟨-, rfl⟩ := start_of_step hstep
    rcases start_cases s call tool arguments transactionId clock sentAt with
      ⟨target, prepared, -, heq⟩ | ⟨phase, heq, -⟩
    · rw [heq] at hsends
      simp at hsends
    · rw [heq]
  · have hended := hinv.acknowledged call report hphase houtcome
    exact ⟨hinv.ended call _ hended, hended⟩
  · obtain ⟨error, hcommunication, hended⟩ := hinv.unknown call report hphase houtcome
    exact ⟨hinv.ended call _ hended, error, hcommunication, hended⟩
  · intro call tool arguments transactionId clock sentAt s' hstep hlimited
    have hclock := (start_of_step hstep).1
    have hrun' : (callsMachine cache rate clock₀).Run Machine.Free
        (events ++ [.start call tool arguments transactionId clock sentAt]) s' :=
      h.snoc trivial (show (callsMachine cache rate clock₀).step s _ = some s' from hstep)
    obtain ⟨-, rfl⟩ := start_of_step hstep
    obtain ⟨last, report, hsends, hlast, hwait, hreported, hretry⟩ :=
      wait_of_rateLimited hlimited
    have hpast : last ≤ clock := by
      have hmap := hinv.last.symm.trans hlast
      obtain ⟨sent, hsent, heq⟩ := Option.map_eq_some_iff.1 hmap
      have hsentPast := hinv.past sent (List.mem_of_getLast? hsent)
      linarith
    have hwaitLe : s.writes.interval - (clock - last) ≤ s.writes.interval := by linarith
    obtain ⟨hpos, hle, hcovers⟩ := retryAfter_bounds hwait hwaitLe
    refine ⟨report, _, hreported, hretry, hpos, hinv.interval ▸ hle, ?_⟩
    intro later t hlater hsame call' tool' arguments' transactionId' clock' sentAt' t' hge
      hstep' hlimited'
    have hinv' := callsInv_of_run hrate (hrun'.exec hlater)
    obtain ⟨-, rfl⟩ := start_of_step hstep'
    obtain ⟨last', -, -, hlast', hwait', -, -⟩ := wait_of_rateLimited hlimited'
    -- the last send is still the same
    have hsame' : last' = last := by
      rw [hinv'.last, hsame, hsends, ← hinv.last, hlast] at hlast'
      exact (Option.some.inj hlast').symm
    rw [hinv'.interval, hsame', ← hinv.interval] at hwait'
    linarith

/-- Two calls on one shutter: the second comes in the middle of the first
one's send. -/
def twoCalls : List CallEvent :=
  [.start 0 .setShutter (halfOpen "e:10:1") 1 0 0,
    .start 1 .setShutter (halfOpen "e:10:1") 2 (1 / 2) 0, .sendReturns 0]

theorem rate_safe_twoCalls :
    ∃ s, (callsMachine shutterCache 1 0).Run Machine.Free twoCalls s ∧ s.sends.length = 1 ∧
      RateSafe shutterCache 1 0 s := by
  have hexec : ((callsMachine shutterCache 1 0).exec (callsMachine shutterCache 1 0).init
      twoCalls).map (fun s => s.sends.length) = some 1 := by decide +kernel
  obtain ⟨s, hs, hlength⟩ := Option.map_eq_some_iff.1 hexec
  have hrun := Machine.run_of_exec hs
  exact ⟨s, hrun, hlength, rate_safe (by decide) hrun⟩

end Mcp

end Tydomio
