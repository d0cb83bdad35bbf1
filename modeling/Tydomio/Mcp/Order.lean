import Tydomio.Mcp.Model.Sync

/-!
# The order of the pushes

The handlers of the pushes and the routine run first in, first out, so a
routine that a response made ready runs after the handlers of the pushes
read before it and before those of the pushes read after it (`Ordered`).
What a step can do is said once, by `RoutineCase` and `StepCase`.
-/

namespace Tydomio

open Common Protocol

namespace Mcp

variable {codec : Codec} {s s' : SyncState}

/-! ## Messages and ready callbacks -/

theorem pushesOf_append (log log' : List Message) :
    pushesOf (log ++ log') = pushesOf log ++ pushesOf log' := List.filterMap_append

theorem handlersOf_append (queue queue' : List Ready) :
    handlersOf (queue ++ queue') = handlersOf queue ++ handlersOf queue' := List.filterMap_append

@[simp] theorem handlersOf_routine (queue : List Ready) :
    handlersOf (.routine :: queue) = handlersOf queue := rfl

@[simp] theorem handlersOf_handler (push : TydomRequest) (queue : List Ready) :
    handlersOf (.handler push :: queue) = push :: handlersOf queue := rfl

/-- The pushes handled before the routine runs. -/
def ahead : List Ready → List TydomRequest
  | [] => []
  | .routine :: _ => []
  | .handler push :: queue => push :: ahead queue

/-- What becomes ready after the routine is not ahead of it. -/
theorem ahead_append {queue : List Ready} (h : .routine ∈ queue) (queue' : List Ready) :
    ahead (queue ++ queue') = ahead queue := by
  induction queue with
  | nil => cases h
  | cons x queue ih =>
      cases x with
      | routine => rfl
      | handler push =>
          rcases List.mem_cons.1 h with h | h
          · cases h
          · rw [List.cons_append, ahead, ih h, ahead]

/-- A routine made ready has all the handlers ahead. -/
theorem ahead_append_routine {queue : List Ready} (h : .routine ∉ queue) :
    ahead (queue ++ [.routine]) = handlersOf queue := by
  induction queue with
  | nil => rfl
  | cons x queue ih =>
      cases x with
      | routine => exact absurd List.mem_cons_self h
      | handler push =>
          rw [List.cons_append, ahead, ih fun hmem => h (List.mem_cons_of_mem _ hmem),
            handlersOf_handler]

/-- A response is the message at its place in the log, and it carries the
transaction id it was matched by. -/
def Recorded (log : List Message) (id : ℤ) (read : ReadResponse) : Prop :=
  log[read.place]? = some (.response read.response) ∧ read.response.transacId = .ok (some id)

section Recorded

variable {log : List Message} {id : ℤ} {read : ReadResponse}

theorem Recorded.lt_length (h : Recorded log id read) : read.place < log.length :=
  (List.getElem?_eq_some_iff.1 h.1).1

theorem Recorded.append (h : Recorded log id read) (log' : List Message) :
    Recorded (log ++ log') id read :=
  ⟨by rw [List.getElem?_append_left h.lt_length, h.1], h.2⟩

theorem recorded_last {response : Response} (h : response.transacId = .ok (some id)) :
    Recorded (log ++ [.response response]) id ⟨log.length, response⟩ :=
  ⟨by simp, h⟩

/-- What was read before a response stays what it was. -/
theorem Recorded.take_append (h : Recorded log id read) (log' : List Message) :
    (log ++ log').take read.place = log.take read.place :=
  List.take_append_of_le_length h.lt_length.le

/-- The pushes before a response and those after it are all. -/
theorem Recorded.pushesOf_eq (h : Recorded log id read) :
    pushesOf log = pushesOf (log.take read.place) ++ pushesOf (log.drop (read.place + 1)) := by
  obtain ⟨hlt, hget⟩ := List.getElem?_eq_some_iff.1 h.1
  conv_lhs => rw [← List.take_append_drop read.place log]
  rw [pushesOf_append, List.drop_eq_getElem_cons hlt, hget]
  rfl

end Recorded

/-! ## Where a step of the routine ends -/

/-- **Where a `send` that starts or raises leaves the routine.** -/
inductive Settles (request : SyncRequest) (s : SyncState) : SyncState → Prop
  | writing (id : ℤ) : Settles request s { s with phase := .writing request id none }
  | waiting (id : ℤ) : Settles request s { s with phase := .waiting request id }
  | backedOff (delay : ℕ) : request ≠ .refresh →
      Settles request s { s with phase := .sleeping delay }
  | parked : request = .refresh → Settles request s { s with phase := .parked }
  | finished : Settles request s s.finish

theorem settles_fail (request : SyncRequest) (error : Exc) (s : SyncState) :
    Settles request s (s.fail request error) := by
  unfold SyncState.fail
  split
  · split
    · exact .parked ‹_›
    · exact .backedOff _ ‹_›
  · exact .finished

theorem settles_send (request : SyncRequest) (start : SendStart) (s : SyncState) :
    Settles request s (s.send request start) := by
  cases start with
  | refused error => exact settles_fail request error s
  | suspended id => exact .writing id
  | written id => exact .waiting id

/-- What a response to each request is parsed into. -/
inductive Parsed (response : Response) : SyncRequest → ParsedResponse → Prop
  | config (config : Config) : Parsed response .config (.config response config)
  | devices (data : DevicesData) (invalid : List (ℤ × ℤ)) :
      Parsed response .devices (.devicesData response data invalid)
  | areas (data : AreasData) (invalid : List ℤ) :
      Parsed response .areas (.areasData response data invalid)
  | refresh : Parsed response .refresh (.ok response)

/-- What a response is parsed into is that of its request. -/
theorem parsed_of_parseResponse {request : SyncRequest} {id : ℤ} {response : Response}
    {parsed : ParsedResponse}
    (h : (request.toRequest id).parseResponse codec response = .ok parsed) :
    Parsed response request parsed := by
  cases request with
  | config =>
      obtain ⟨config, -, rfl⟩ := map_eq_ok_iff.1 h
      exact .config config
  | devices =>
      obtain ⟨⟨data, invalid⟩, -, rfl⟩ := map_eq_ok_iff.1 h
      exact .devices data invalid
  | areas =>
      obtain ⟨⟨data, invalid⟩, -, rfl⟩ := map_eq_ok_iff.1 h
      exact .areas data invalid
  | refresh =>
      obtain ⟨-, -, rfl⟩ := map_eq_ok_iff.1 h
      exact .refresh

/-- **What the step of the routine can do.** -/
inductive RoutineCase (codec : Codec) (s : SyncState) : SyncState → Prop
  | bootstrap (failures : ℕ) {s' : SyncState} : s.phase = .starting ∨ s.phase = .slept →
      Settles .config
        { s with
          failures
          cache := s.cache.markConnected
          history := { s.history with answered := fun _ => none } } s' →
      RoutineCase codec s s'
  | awaits (request : SyncRequest) (id : ℤ) : s.phase = .written request id none →
      RoutineCase codec s { s with phase := .waiting request id }
  | fails (request : SyncRequest) {s' : SyncState} : s.phase.request? = some request →
      Settles request s s' → RoutineCase codec s s'
  | finishes : s.phase = .cancelled → RoutineCase codec s s.finish
  | answers (request : SyncRequest) (id : ℤ) (read : ReadResponse) (parsed : ParsedResponse)
      (now : DateTime) {s' : SyncState} :
      s.phase = .written request id (some read) ∨ s.phase = .woken request id read →
      (request.toRequest id).parseResponse codec read.response = .ok parsed →
      (∃ next, request.next = some next ∧
        Settles next
          { s with
            cache := onAnswer now parsed s.cache
            history := s.history.record request id read } s') ∨
      (request.next = none ∧
        s' = { s with
          cache := onAnswer now parsed s.cache
          history := s.history.record request id read
          phase := .parked }) →
      RoutineCase codec s s'

/-- A response taken by its request moves the routine on, or ends it. -/
theorem routineCase_consume {request : SyncRequest} {id : ℤ} {read : ReadResponse}
    (start : SendStart) (now : DateTime)
    (hphase : s.phase = .written request id (some read) ∨ s.phase = .woken request id read) :
    RoutineCase codec s (s.consume codec request id read start now) := by
  have hrequest : s.phase.request? = some request := by rcases hphase with h | h <;> rw [h] <;> rfl
  unfold SyncState.consume
  split
  · exact .fails request hrequest (settles_fail request _ s)
  · rename_i parsed hparsed
    refine .answers request id read parsed now hphase hparsed ?_
    split
    · rename_i next hnext
      exact .inl ⟨next, hnext, settles_send next start _⟩
    · exact .inr ⟨‹_›, rfl⟩

/-- A ready routine takes one of these steps. -/
theorem routineCase_runRoutine (start : SendStart) (now : DateTime)
    (hready : s.phase.isReady = true) :
    RoutineCase codec s (s.runRoutine codec start now) := by
  unfold SyncState.runRoutine
  split
  · exact .bootstrap s.failures (.inl ‹_›) (settles_send .config start _)
  · exact .bootstrap (s.failures + 1) (.inr ‹_›) (settles_send .config start _)
  · exact .awaits _ _ ‹_›
  · exact routineCase_consume start now (.inl ‹_›)
  · exact routineCase_consume start now (.inr ‹_›)
  · rename_i request error hphase
    exact .fails request (by rw [hphase]; rfl) (settles_fail request error s)
  · exact .finishes ‹_›
  · rename_i hstarting hslept hnone hsome hwoken hraised hcancelled
    exfalso
    cases hphase : s.phase with
    | starting => exact hstarting hphase
    | slept => exact hslept hphase
    | written request id early =>
        cases early with
        | none => exact hnone request id hphase
        | some read => exact hsome request id read hphase
    | woken request id read => exact hwoken request id read hphase
    | raised request error => exact hraised request error hphase
    | cancelled => exact hcancelled hphase
    | idle | writing | waiting | sleeping | parked | ended =>
        rw [hphase] at hready
        cases hready

/-! ## What is ready, read and handled -/

/-- **The ready callbacks agree with what was read and handled.** -/
structure Ordered (s : SyncState) : Prop where
  /-- The routine is ready once or not at all. -/
  routine : s.queue.count .routine = if s.phase.isReady then 1 else 0
  /-- The pushes read are those handled and those to be handled. -/
  live : s.live = true → s.history.handled ++ handlersOf s.queue = pushesOf s.history.log
  /-- A connection that has ended handles no push. -/
  dead : s.live = false → handlersOf s.queue = [] ∧
    (s.phase = .idle ∨ s.phase = .ended ∨ s.phase = .cancelled)
  /-- A routine that a response made ready runs after the pushes read before
  it and before those read after it. -/
  woken : ∀ request id read, s.phase = .woken request id read →
    s.history.handled ++ ahead s.queue = pushesOf (s.history.log.take read.place)
  recorded : ∀ id read, s.phase.response? = some (id, read) → Recorded s.history.log id read

/-- What a step of the routine leaves alone, and that it ends suspended. -/
structure Suspends (s s' : SyncState) : Prop where
  queue : s'.queue = s.queue
  live : s'.live = s.live
  handled : s'.history.handled = s.history.handled
  log : s'.history.log = s.history.log
  notReady : s'.phase.isReady = false
  noResponse : s'.phase.response? = none

theorem Settles.suspends {request : SyncRequest} (h : Settles request s s') : Suspends s s' := by
  cases h <;> exact ⟨rfl, rfl, rfl, rfl, rfl, rfl⟩

theorem RoutineCase.suspends (h : RoutineCase codec s s') : Suspends s s' := by
  cases h with
  | bootstrap failures hphase hs =>
      obtain ⟨hqueue, hlive, hhandled, hlog, hready, hresponse⟩ := hs.suspends
      exact ⟨hqueue, hlive, hhandled, hlog, hready, hresponse⟩
  | awaits | finishes => exact ⟨rfl, rfl, rfl, rfl, rfl, rfl⟩
  | fails request hphase hs => exact hs.suspends
  | answers request id read parsed now hphase hparsed hs =>
      rcases hs with ⟨next, -, hs⟩ | ⟨-, rfl⟩
      · obtain ⟨hqueue, hlive, hhandled, hlog, hready, hresponse⟩ := hs.suspends
        exact ⟨hqueue, hlive, hhandled, hlog, hready, hresponse⟩
      · exact ⟨rfl, rfl, rfl, rfl, rfl, rfl⟩

namespace Ordered

theorem not_mem (h : Ordered s) (hready : s.phase.isReady = false) : .routine ∉ s.queue := by
  have hcount := h.routine
  rw [hready] at hcount
  exact List.count_eq_zero.1 hcount

theorem mem (h : Ordered s) (hready : s.phase.isReady = true) : .routine ∈ s.queue := by
  have hcount := h.routine
  rw [hready] at hcount
  exact List.count_pos_iff.1 (by rw [hcount]; decide)

/-- A phase that is not one of those after the end is one of a live
connection. -/
theorem live_of_phase (h : Ordered s) (hidle : s.phase ≠ .idle) (hended : s.phase ≠ .ended)
    (hcancelled : s.phase ≠ .cancelled) : s.live = true := by
  by_contra hlive
  rcases (h.dead (by simpa using hlive)).2 with hphase | hphase | hphase
  · exact hidle hphase
  · exact hended hphase
  · exact hcancelled hphase

/-- A suspended routine is made ready. -/
theorem wake (h : Ordered s) {phase : Phase} (hready : s.phase.isReady = false)
    (hphase : phase.isReady = true) (hlive : s.live = true)
    (hwoken : ∀ request id read, phase = .woken request id read →
      pushesOf s.history.log = pushesOf (s.history.log.take read.place))
    (hrecorded : ∀ id read, phase.response? = some (id, read) →
      Recorded s.history.log id read) : Ordered (s.wake phase) where
  routine := by
    have hcount : s.queue.count .routine = 0 := List.count_eq_zero.2 (h.not_mem hready)
    simp [SyncState.wake, hphase, hcount]
  live _ := by
    have hqueue : handlersOf (s.queue ++ [.routine]) = handlersOf s.queue := by
      rw [handlersOf_append, handlersOf_routine]
      exact List.append_nil _
    simp only [SyncState.wake]
    rw [hqueue, h.live hlive]
  dead hdead := by
    rw [show (s.wake phase).live = s.live from rfl, hlive] at hdead
    cases hdead
  woken request id read hread := by
    rw [SyncState.wake, ahead_append_routine (h.not_mem hready), h.live hlive]
    exact hwoken request id read hread
  recorded := hrecorded

/-- A message read, with what it adds to the ready callbacks. -/
theorem logged (h : Ordered s) {message : Message} {queue : List Ready} (hlive : s.live = true)
    (hroutine : .routine ∉ queue) (hqueue : handlersOf queue = pushesOf [message]) :
    Ordered { s.logged message with queue := s.queue ++ queue } where
  routine := by
    have hcount : queue.count .routine = 0 := List.count_eq_zero.2 hroutine
    simp only [SyncState.logged]
    rw [List.count_append, hcount, Nat.add_zero]
    exact h.routine
  live _ := by
    simp only [SyncState.logged]
    rw [handlersOf_append, pushesOf_append, ← List.append_assoc, h.live hlive, hqueue]
  dead hdead := by
    rw [show ({ s.logged message with queue := s.queue ++ queue } : SyncState).live = s.live
      from rfl, hlive] at hdead
    cases hdead
  woken request id read hread := by
    have hmem := h.mem (by rw [show s.phase = _ from hread]; rfl)
    have hrecorded := h.recorded id read (by rw [show s.phase = _ from hread]; rfl)
    simp only [SyncState.logged]
    rw [ahead_append hmem, hrecorded.take_append]
    exact h.woken request id read hread
  recorded id read hread := (h.recorded id read hread).append _

/-- A response read where it completes no future. -/
theorem logged_response (h : Ordered s) (hlive : s.live = true) (response : Response) :
    Ordered (s.logged (.response response)) := by
  have hsame : s.logged (.response response) =
      { s.logged (.response response) with queue := s.queue ++ [] } := by
    rw [List.append_nil]
    rfl
  rw [hsame]
  exact h.logged hlive List.not_mem_nil rfl

/-- A response read before its `send` awaits the future is kept. -/
theorem early (h : Ordered s) {phase : Phase} {id : ℤ} {response : Response}
    (hlive : s.live = true) (hid : response.transacId = .ok (some id))
    (hready : phase.isReady = s.phase.isReady)
    (hwoken : ∀ request id read, phase ≠ .woken request id read)
    (hresponse : phase.response? = some (id, ⟨s.history.log.length, response⟩)) :
    Ordered { s.logged (.response response) with phase } := by
  have hquiet := h.logged_response hlive response
  refine ⟨?_, hquiet.live, fun hdead => ?_, fun request id' read hphase => ?_,
    fun id' read hread => ?_⟩
  · rw [hready]
    exact hquiet.routine
  · rw [show (s.logged _).live = _ from hlive] at hdead
    cases hdead
  · exact absurd hphase (hwoken request id' read)
  · obtain ⟨rfl, rfl⟩ := Prod.mk.inj (Option.some.inj (hresponse.symm.trans hread))
    exact recorded_last hid

theorem readResponse (h : Ordered s) (hlive : s.live = true) (response : Response) :
    Ordered (s.readResponse response) := by
  have hquiet := h.logged_response hlive response
  unfold SyncState.readResponse
  dsimp only
  split
  · rename_i request id hphase
    split
    · rename_i hid
      refine hquiet.wake (by rw [show (s.logged _).phase = _ from hphase]; rfl) rfl hlive ?_ ?_
      · rintro _ _ _ ⟨⟩
        simp [SyncState.logged, pushesOf, Message.push?]
      · rintro _ _ ⟨⟩
        exact recorded_last hid
    · exact hquiet
  · rename_i request id hphase
    split
    · exact h.early hlive ‹_› (by rw [hphase]; rfl) nofun rfl
    · exact hquiet
  · rename_i request id hphase
    split
    · exact h.early hlive ‹_› (by rw [hphase]; rfl) nofun rfl
    · exact hquiet
  · exact hquiet

/-- Cancelled tasks leave no push to handle. -/
theorem cancelTasks (s : SyncState) : Ordered s.cancelTasks := by
  unfold SyncState.cancelTasks
  split
  · exact ⟨by simp_all [Phase.isReady], nofun, fun _ => ⟨rfl, by simp_all⟩, by simp_all,
      by simp_all [Phase.response?]⟩
  · exact ⟨by simp_all [Phase.isReady], nofun, fun _ => ⟨rfl, by simp_all⟩, by simp_all,
      by simp_all [Phase.response?]⟩
  · exact ⟨rfl, nofun, fun _ => ⟨rfl, .inr (.inl rfl)⟩, nofun, nofun⟩
  · exact ⟨rfl, nofun, fun _ => ⟨rfl, .inr (.inr rfl)⟩, nofun, nofun⟩

/-- The handlers run in the order their pushes were read. -/
theorem runHandler (h : Ordered s) {push : TydomRequest} {queue : List Ready}
    (hqueue : s.queue = .handler push :: queue) :
    Ordered ({ s with queue }.runHandler push) := by
  obtain ⟨hroutine, hlive, hdead, hwoken, hrecorded⟩ := h
  rw [hqueue] at hroutine hlive hdead hwoken
  refine ⟨?_, fun hl => ?_, fun hd => ?_, fun request id read hphase => ?_, hrecorded⟩
  · rwa [List.count_cons_of_ne (by simp)] at hroutine
  · have hread := hlive hl
    rw [handlersOf_handler, List.append_cons] at hread
    exact hread
  · cases (hdead hd).1
  · have hread := hwoken request id read hphase
    rw [ahead, List.append_cons] at hread
    exact hread

/-- The routine runs when the pushes ahead of it were handled. -/
theorem runRoutine (h : Ordered s) {queue : List Ready} (hqueue : s.queue = .routine :: queue)
    (start : SendStart) (now : DateTime) :
    Ordered ({ s with queue }.runRoutine codec start now) := by
  have hready : s.phase.isReady = true := by
    by_contra hready
    exact h.not_mem (by simpa using hready) (hqueue ▸ List.mem_cons_self)
  have hcase : RoutineCase codec { s with queue } ({ s with queue }.runRoutine codec start now) :=
    routineCase_runRoutine start now hready
  obtain ⟨hroutine, hlive, hdead, hwoken, hrecorded⟩ := h
  obtain ⟨hqueue', hlive', hhandled, hlog, hnot, hnone⟩ := hcase.suspends
  rw [hqueue] at hroutine hlive hdead
  refine ⟨?_, fun hl => ?_, fun hd => ?_, fun request id read hphase => ?_, fun id read hr => ?_⟩
  · rw [hqueue', hnot]
    rw [hready, List.count_cons_self] at hroutine
    exact Nat.succ.inj hroutine
  · rw [hhandled, hqueue', hlog]
    exact hlive (hlive' ▸ hl)
  · obtain ⟨hhandlers, hphase⟩ := hdead (hlive' ▸ hd)
    rw [hqueue']
    refine ⟨hhandlers, ?_⟩
    -- of a connection that has ended only the cancelled routine runs
    have hcancelled : s.phase = .cancelled := by
      rcases hphase with hphase | hphase | hphase
      · rw [hphase] at hready
        cases hready
      · rw [hphase] at hready
        cases hready
      · exact hphase
    unfold SyncState.runRoutine
    simp only [hcancelled]
    exact .inr (.inl rfl)
  · rw [hphase] at hnot
    cases hnot
  · rw [hnone] at hr
    cases hr

/-- **Every step keeps the callbacks in order.** -/
theorem step (h : Ordered s) {event : SyncEvent} (hs : syncStep codec s event = some s') :
    Ordered s' := by
  cases event with
  | connect =>
      simp only [syncStep] at hs
      split at hs <;> cases hs
      exact ⟨rfl, fun _ => rfl, nofun, nofun, nofun⟩
  | readPush push =>
      simp only [syncStep] at hs
      split at hs <;> cases hs
      exact h.logged ‹_› (by simp) rfl
  | readResponse response =>
      simp only [syncStep] at hs
      split at hs <;> cases hs
      exact h.readResponse ‹_› response
  | writeReturns =>
      simp only [syncStep] at hs
      split at hs <;> cases hs
      rename_i request id early hphase
      have hlive : s.live = true :=
        h.live_of_phase (by simp [hphase]) (by simp [hphase]) (by simp [hphase])
      refine h.wake (by rw [hphase]; rfl) rfl hlive nofun ?_
      intro id' read hread
      refine h.recorded id' read ?_
      rw [hphase]
      cases early <;> exact hread
  | writeRaises error =>
      simp only [syncStep] at hs
      split at hs <;> cases hs
      rename_i request id early hphase
      have hlive : s.live = true :=
        h.live_of_phase (by simp [hphase]) (by simp [hphase]) (by simp [hphase])
      exact h.wake (by rw [hphase]; rfl) rfl hlive nofun nofun
  | timeout =>
      simp only [syncStep] at hs
      split at hs <;> cases hs
      · rename_i request id hphase
        have hlive : s.live = true :=
          h.live_of_phase (by simp [hphase]) (by simp [hphase]) (by simp [hphase])
        exact h.wake (by rw [hphase]; rfl) rfl hlive nofun nofun
      · rename_i request id read hphase
        obtain ⟨hroutine, hlive, hdead, -, -⟩ := h
        rw [hphase] at hroutine hdead
        refine ⟨hroutine, hlive, fun hd => ?_, nofun, nofun⟩
        rcases (hdead hd).2 with hp | hp | hp <;> cases hp
  | sleepReturns =>
      simp only [syncStep] at hs
      split at hs <;> cases hs
      rename_i delay hphase
      have hlive : s.live = true :=
        h.live_of_phase (by simp [hphase]) (by simp [hphase]) (by simp [hphase])
      exact h.wake (by rw [hphase]; rfl) rfl hlive nofun nofun
  | cancel =>
      simp only [syncStep] at hs
      split at hs <;> cases hs
      exact cancelTasks s
  | run start now =>
      simp only [syncStep] at hs
      split at hs <;> cases hs
      · exact h.runHandler ‹_›
      · exact h.runRoutine ‹_› start now

end Ordered

/-! ## Steps -/

/-- The steps of the environment: none touches the cache or what was
handled and answered, and the log grows at most. -/
structure Quiet (s s' : SyncState) : Prop where
  cache : s'.cache = s.cache
  handled : s'.history.handled = s.history.handled
  answered : s'.history.answered = s.history.answered
  bootstraps : s'.history.bootstraps = s.history.bootstraps
  log : s.history.log <+: s'.history.log
  phase : s'.phase = .cancelled ∨ s'.phase.request? = s.phase.request? ∧
    (s.phase = .parked → s'.phase = .parked) ∧ (s.phase = .cancelled → s'.phase = .cancelled)

/-- **What a step is**: a connection made, a step of the environment, of a
handler or of the routine. -/
inductive StepCase (codec : Codec) (s : SyncState) : SyncEvent → SyncState → Prop
  | connect : s.phase = .idle ∨ s.phase = .ended → StepCase codec s .connect s.connect
  | quiet {event : SyncEvent} {s' : SyncState} : Quiet s s' → StepCase codec s event s'
  | handler {start : SendStart} {now : DateTime} (push : TydomRequest) (queue : List Ready) :
      s.queue = .handler push :: queue →
      StepCase codec s (.run start now) ({ s with queue }.runHandler push)
  | routine {start : SendStart} {now : DateTime} {s' : SyncState} (queue : List Ready) :
      s.queue = .routine :: queue → RoutineCase codec { s with queue } s' →
      StepCase codec s (.run start now) s'

theorem quiet_wake {phase : Phase} (h : phase.request? = s.phase.request?)
    (hparked : s.phase ≠ .parked) (hcancelled : s.phase ≠ .cancelled) :
    Quiet s (s.wake phase) :=
  ⟨rfl, rfl, rfl, rfl, List.prefix_refl _,
    .inr ⟨h, fun hp => absurd hp hparked, fun hp => absurd hp hcancelled⟩⟩

/-- A response read, in a phase of the same request. -/
theorem quiet_logged (response : Response) {phase : Phase}
    (h : phase.request? = s.phase.request?) (hparked : s.phase ≠ .parked)
    (hcancelled : s.phase ≠ .cancelled) :
    Quiet s { s.logged (.response response) with phase } :=
  ⟨rfl, rfl, rfl, rfl, List.prefix_append _ _,
    .inr ⟨h, fun hp => absurd hp hparked, fun hp => absurd hp hcancelled⟩⟩

theorem quiet_readResponse (response : Response) : Quiet s (s.readResponse response) := by
  have hlogged : Quiet s (s.logged (.response response)) :=
    ⟨rfl, rfl, rfl, rfl, List.prefix_append _ _, .inr ⟨rfl, id, id⟩⟩
  unfold SyncState.readResponse
  dsimp only
  split
  · rename_i request id hphase
    split
    · have hquiet : Quiet s { s.logged (.response response) with
          phase := .woken request id ⟨s.history.log.length, response⟩ } :=
        quiet_logged response (by rw [hphase]; rfl) (by simp [hphase]) (by simp [hphase])
      exact ⟨rfl, rfl, rfl, rfl, hquiet.log, hquiet.phase⟩
    · exact hlogged
  · rename_i request id hphase
    split
    · exact quiet_logged response (by rw [hphase]; rfl) (by simp [hphase]) (by simp [hphase])
    · exact hlogged
  · rename_i request id hphase
    split
    · exact quiet_logged response (by rw [hphase]; rfl) (by simp [hphase]) (by simp [hphase])
    · exact hlogged
  · exact hlogged

theorem quiet_cancelTasks : Quiet s s.cancelTasks := by
  have hlog : s.history.log <+: s.history.log := List.prefix_refl _
  unfold SyncState.cancelTasks
  split
  · exact ⟨rfl, rfl, rfl, rfl, hlog, .inr ⟨rfl, id, id⟩⟩
  · exact ⟨rfl, rfl, rfl, rfl, hlog, .inr ⟨rfl, id, id⟩⟩
  · rename_i hphase
    exact ⟨rfl, rfl, rfl, rfl, hlog,
      .inr ⟨by rw [hphase]; rfl, by simp [hphase], by simp [hphase]⟩⟩
  · exact ⟨rfl, rfl, rfl, rfl, hlog, .inl rfl⟩

/-- Each step is one of these. -/
theorem stepCase_of_step (ho : Ordered s) {event : SyncEvent}
    (hs : syncStep codec s event = some s') : StepCase codec s event s' := by
  cases event with
  | connect =>
      simp only [syncStep] at hs
      split at hs
      · rename_i h
        cases hs
        exact .connect h.2.2
      · cases hs
  | readPush push =>
      simp only [syncStep] at hs
      split at hs <;> cases hs
      exact .quiet ⟨rfl, rfl, rfl, rfl, List.prefix_append _ _, .inr ⟨rfl, id, id⟩⟩
  | readResponse response =>
      simp only [syncStep] at hs
      split at hs <;> cases hs
      exact .quiet (quiet_readResponse response)
  | writeReturns | writeRaises | sleepReturns =>
      simp only [syncStep] at hs
      split at hs <;> cases hs
      rename_i hphase
      exact .quiet (quiet_wake (by rw [hphase]; rfl) (by simp [hphase]) (by simp [hphase]))
  | timeout =>
      simp only [syncStep] at hs
      split at hs <;> cases hs
      · rename_i hphase
        exact .quiet (quiet_wake (by rw [hphase]; rfl) (by simp [hphase]) (by simp [hphase]))
      · rename_i hphase
        exact .quiet ⟨rfl, rfl, rfl, rfl, List.prefix_refl _,
          .inr ⟨by rw [hphase]; rfl, by simp [hphase], by simp [hphase]⟩⟩
  | cancel =>
      simp only [syncStep] at hs
      split at hs <;> cases hs
      exact .quiet quiet_cancelTasks
  | run start now =>
      simp only [syncStep] at hs
      split at hs <;> cases hs
      · exact .handler _ _ ‹_›
      · rename_i queue hqueue
        refine .routine queue hqueue (routineCase_runRoutine start now ?_)
        by_contra hready
        exact ho.not_mem (by simpa using hready) (hqueue ▸ List.mem_cons_self)

end Mcp

end Tydomio
