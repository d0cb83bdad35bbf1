import Tydomio.Client.Group
import Tydomio.Mcp.Model.Run
import Tydomio.Mcp.Reports
import Tydomio.Mcp.Sync

/-!
# A write goes where the cache was synced

The routine of a connection ends with its task group, and a cache is synced
from the end of a bootstrap to the end of its routine. So a cache that is
fresh was synced on the connection that the client has, and a call that finds
it fresh writes on that connection.
-/

namespace Tydomio

open Common Protocol Client

namespace Mcp

section Program

variable {codec : Codec} {cmdPrefix : Bytes} {routines : ℕ} {first : ℤ}
variable {sameLetter : Char → Char → Bool} {secrets : Secrets} {mode : WritesMode}

/-! ## The cache of the calls -/

section Cache

variable {s s' : ServerState} {n w k : ℕ}

/-- A call that begins leaves the cache alone. -/
theorem cache_of_start {calls calls' : CallsState} {tool : Tool}
    {arguments : Dict String JsonValue} {transactionId : ℤ} {clock : ℚ} {sentAt : DateTime}
    (h : callsStep calls (.start k tool arguments transactionId clock sentAt) = some calls') :
    calls'.writes.cache = calls.writes.cache := by
  obtain ⟨-, rfl⟩ := start_of_step h
  rcases start_cases calls k tool arguments transactionId clock sentAt with
    ⟨target, prepared, -, heq⟩ | ⟨phase, heq, -⟩
  · rw [heq]
  · rw [heq]

theorem cache_of_endOf {calls calls' : CallsState} {outcome : Outcome}
    (h : callsStep calls (endOf k outcome) = some calls') :
    calls'.writes.cache = calls.writes.cache := by
  cases outcome <;>
    · simp only [endOf, callsStep] at h
      split at h <;> cases h
      rfl

theorem cache_of_stepClient {event : ClientEvent}
    (h : s.stepClient codec cmdPrefix routines first event = some s') :
    s'.calls.writes.cache = s.calls.writes.cache := by
  obtain ⟨client, -, hcase⟩ := clientCase_of_stepClient h
  cases hcase with
  | alone => rfl
  | goesOn n k target write sentAt outcome calls _ _ _ _ hstep => exact cache_of_endOf hstep

/-- **No step of a server writes its cache but the one that does.** -/
theorem cache_of_move {event : ServerEvent}
    (hm : ServerMove codec cmdPrefix routines first s mode event s')
    (hevent : ∀ cache, event ≠ .cacheChanges cache) :
    s'.calls.writes.cache = s.calls.writes.cache := by
  cases hm with
  | cacheChanges cache => exact absurd rfl (hevent cache)
  | makes | answers => rfl
  | client event _ _ hstep => exact cache_of_stepClient hstep
  | ends k name tool arguments clock sentAt phase calls _ _ hcalls => exact cache_of_start hcalls
  | sends k name tool arguments clock sentAt text prepared calls _ _ _ hcalls _ _ _ hstep =>
      exact (cache_of_stepClient hstep).trans (cache_of_start hcalls)

/-- What a step of the client puts on the wire goes on its connection. -/
theorem wire_of_stepClient {event : ClientEvent}
    (h : s.stepClient codec cmdPrefix routines first event = some s')
    (hnew : (n, w) ∈ s'.client.send.history.wire)
    (hold : (n, w) ∉ s.client.send.history.wire) :
    event = .send (.start n) ∧ s.client.send.websocket = some w := by
  rcases wire_of_step (client_of_stepClient h) with hkept | ⟨c, w', hevent, hw', hwire⟩
  · rw [hkept] at hnew
    exact absurd hnew hold
  · rw [hwire, List.mem_append, List.mem_singleton] at hnew
    obtain ⟨rfl, rfl⟩ := Prod.mk.inj (hnew.resolve_left hold)
    exact ⟨hevent, hw'⟩

/-- **What a step of a server puts on the wire** goes on its connection, and
is a call's where the cache is fresh. -/
theorem fresh_of_move {event : ServerEvent}
    (hm : ServerMove codec cmdPrefix routines first s mode event s')
    (hnew : (n, w) ∈ s'.client.send.history.wire)
    (hold : (n, w) ∉ s.client.send.history.wire) (hmaker : s'.maker? n = some k) :
    s.client.send.websocket = some w ∧ s.calls.writes.cache.fresh = true := by
  cases hm with
  | cacheChanges | makes | answers | ends => exact absurd hnew hold
  | client event _ hallows hstep =>
      obtain ⟨rfl, hw⟩ := wire_of_stepClient hstep hnew hold
      -- a task does not send what a call made
      rw [maker?_of_stepClient hstep] at hmaker
      exact absurd ((maker?_of_allows hallows).2.symm.trans hmaker) (by simp)
  | sends k name tool arguments clock sentAt text prepared calls _ _ _ _ hbegun _ _ hstep =>
      obtain ⟨-, hw⟩ := wire_of_stepClient hstep hnew hold
      exact ⟨hw, (sentSound_of_begin hbegun).fresh⟩

end Cache

/-! ## The routine and its task group -/

section Stopped

variable {s s' : SyncState}

theorem stopped_iff :
    s.stopped = true ↔ s.live = false ∧ s.queue = [] ∧ (s.phase = .idle ∨ s.phase = .ended) := by
  simp [SyncState.stopped, and_assoc]

/-- A `Sync` that is stopped takes no step until a connection is made. -/
theorem syncStep_of_stopped {event : SyncEvent} (hs : s.stopped = true)
    (hevent : event ≠ .connect) : syncStep codec s event = none := by
  obtain ⟨hlive, hqueue, hphase⟩ := stopped_iff.1 hs
  cases event with
  | connect => exact absurd rfl hevent
  | readPush | readResponse | cancel => simp [syncStep, hlive]
  | run => simp [syncStep, hqueue]
  | writeReturns | writeRaises | timeout | sleepReturns =>
      rcases hphase with hphase | hphase <;> simp [syncStep, hphase]

/-- What the read loop reads leaves the cache to the handlers. -/
theorem cache_of_read {event : SyncEvent} (hevent : event.isOwn = false)
    (h : syncStep codec s event = some s') : s'.cache = s.cache := by
  cases event with
  | connect =>
      simp only [syncStep] at h
      split at h <;> cases h
      rfl
  | readPush push =>
      simp only [syncStep] at h
      split at h <;> cases h
      rfl
  | readResponse response =>
      simp only [syncStep] at h
      split at h <;> cases h
      exact (quiet_readResponse response).cache
  | _ => cases hevent

end Stopped

/-! ## Steps of the program -/

variable {s s' : RunState}

variable (codec cmdPrefix first sameLetter secrets mode s) in
/-- **What one step of the program does.** -/
inductive RunMove : RunEvent → RunState → Prop
  | opened (w : ℕ) (sync : SyncState) (server : ServerState) :
      syncStep codec s.sync .connect = some sync →
      serverStep codec cmdPrefix 1 first sameLetter secrets mode s.server (.client (.opened w)) =
        some server →
      RunMove (.opened w) ⟨server, sync, some w⟩
  /-- The read loop reads a message. -/
  | reads {event : RunEvent} (read : SyncEvent) (clientEvent : ClientEvent) (sync : SyncState)
      (server : ServerState) : read.isOwn = false → read ≠ .connect →
      (∀ w, clientEvent ≠ .opened w) → clientEvent ≠ .groupEnds →
      syncStep codec s.sync read = some sync →
      serverStep codec cmdPrefix 1 first sameLetter secrets mode s.server (.client clientEvent) =
        some server →
      RunMove event ⟨server, sync, s.connection⟩
  | sync (event : SyncEvent) (sync : SyncState) (server : ServerState) : event.isOwn = true →
      syncStep codec s.sync event = some sync →
      serverStep codec cmdPrefix 1 first sameLetter secrets mode s.server
        (.cacheChanges sync.cache) = some server →
      RunMove (.sync event) ⟨server, sync, s.connection⟩
  | server (event : ServerEvent) (server : ServerState) : s.allows event = true →
      serverStep codec cmdPrefix 1 first sameLetter secrets mode s.server event = some server →
      RunMove (.server event) { s with server }

theorem both_eq_some {connection : Option ℕ} {syncEvent : SyncEvent}
    {serverEvent : SyncState → ServerEvent}
    (h : s.both codec cmdPrefix first sameLetter secrets mode connection syncEvent serverEvent =
      some s') :
    ∃ sync server, syncStep codec s.sync syncEvent = some sync ∧
      serverStep codec cmdPrefix 1 first sameLetter secrets mode s.server (serverEvent sync) =
        some server ∧ s' = ⟨server, sync, connection⟩ := by
  obtain ⟨sync, hsync, h⟩ := Option.bind_eq_some_iff.1 h
  obtain ⟨server, hserver, rfl⟩ := Option.map_eq_some_iff.1 h
  exact ⟨sync, server, hsync, hserver, rfl⟩

theorem runMove_of_step {event : RunEvent}
    (h : runStep codec cmdPrefix first sameLetter secrets mode s event = some s') :
    RunMove codec cmdPrefix first sameLetter secrets mode s event s' := by
  cases event with
  | opened w =>
      obtain ⟨sync, server, hsync, hserver, rfl⟩ := both_eq_some h
      exact .opened w sync server hsync hserver
  | readPush push =>
      obtain ⟨sync, server, hsync, hserver, rfl⟩ := both_eq_some h
      exact .reads (.readPush push) .taskStarts sync server rfl (by simp) (by simp) (by simp) hsync
        hserver
  | readResponse response =>
      obtain ⟨sync, server, hsync, hserver, rfl⟩ := both_eq_some h
      exact .reads (.readResponse response) (.send (.readResponse response)) sync server rfl
        (by simp) (by simp) (by simp) hsync hserver
  | sync event =>
      simp only [runStep] at h
      split at h
      · obtain ⟨sync, server, hsync, hserver, rfl⟩ := both_eq_some h
        exact .sync event sync server ‹_› hsync hserver
      · cases h
  | server event =>
      simp only [runStep] at h
      split at h
      · obtain ⟨server, hserver, rfl⟩ := Option.map_eq_some_iff.1 h
        exact .server event server ‹_› hserver
      · cases h

/-- A step of the program takes one step of the server. -/
theorem serverMove_of_runMove {event : RunEvent}
    (hm : RunMove codec cmdPrefix first sameLetter secrets mode s event s') :
    ∃ event', ServerMove codec cmdPrefix 1 first s.server mode event' s'.server := by
  cases hm with
  | opened w sync server _ hserver => exact ⟨_, serverMove_of_step hserver⟩
  | reads read clientEvent sync server _ _ _ _ _ hserver => exact ⟨_, serverMove_of_step hserver⟩
  | sync event sync server _ _ hserver => exact ⟨_, serverMove_of_step hserver⟩
  | server event server _ hserver => exact ⟨_, serverMove_of_step hserver⟩

/-! ## Every reachable state -/

/-- **What every state of the program satisfies.** -/
structure RunInv (first : ℤ) (s : RunState) : Prop where
  server : ServerInv first s.server
  ordered : Ordered s.sync
  progress : Progress s.sync
  /-- There is one cache. -/
  shared : s.server.calls.writes.cache = s.sync.cache
  /-- Outside a task group no routine runs. -/
  stopped : s.server.client.control.inGroup = false → s.sync.stopped = true
  /-- In one, the client has the connection the routine was started on. -/
  connected : s.server.client.control.inGroup = true →
    s.connection ≠ none ∧ s.server.client.send.websocket = s.connection

theorem runInv_init {rate clock : ℚ} : RunInv first ⟨.init rate clock, .init, none⟩ where
  server := serverInv_init
  ordered := (@syncInv_init noDocument).ordered
  progress := (@syncInv_init noDocument).progress
  shared := rfl
  stopped _ := rfl
  connected h := absurd h Bool.false_ne_true

theorem client_of_serverStep {t t' : ServerState} {event : ClientEvent}
    (h : serverStep codec cmdPrefix routines first sameLetter secrets mode t (.client event) =
      some t') :
    clientStep codec cmdPrefix (t'.requests first) routines t.client event = some t'.client := by
  simp only [serverStep] at h
  split at h
  · exact client_of_stepClient h
  · cases h

/-- **Every step of the program keeps the routine and its task group
together.** -/
theorem runInv_of_move {event : RunEvent} (hs : RunInv first s)
    (hm : RunMove codec cmdPrefix first sameLetter secrets mode s event s') :
    RunInv first s' := by
  obtain ⟨_, hserver⟩ := serverMove_of_runMove hm
  have hinv := serverInv_of_move hs.server hserver
  have hordered : ∀ {event sync}, syncStep codec s.sync event = some sync →
      Ordered sync ∧ Progress sync := fun hsync =>
    ⟨hs.ordered.step hsync, (stepCase_of_step hs.ordered hsync).progress hs.progress⟩
  -- a step of the `Sync` other than a connection is one of a routine that runs
  have hruns : ∀ {event sync}, syncStep codec s.sync event = some sync → event ≠ .connect →
      s.server.client.control.inGroup = true := by
    intro event sync hsync hevent
    by_contra hout
    have hstopped := hs.stopped (by simpa using hout)
    rw [syncStep_of_stopped hstopped hevent] at hsync
    cases hsync
  cases hm with
  | opened w sync server hsync hstep =>
      obtain ⟨-, hgroup, hwebsocket⟩ := group_of_opened (client_of_serverStep hstep)
      have hshared := cache_of_move (serverMove_of_step hstep) (by simp)
      refine ⟨hinv, (hordered hsync).1, (hordered hsync).2, ?_, fun hout => ?_, fun _ => ?_⟩
      · exact (hshared.trans hs.shared).trans (cache_of_read rfl hsync).symm
      · rw [hgroup] at hout
        cases hout
      · exact ⟨by simp, hwebsocket⟩
  | reads read clientEvent sync server hread hconnect hopened hends hsync hstep =>
      obtain ⟨hgroup, hwebsocket⟩ := group_of_step (client_of_serverStep hstep) hopened hends
      have hrunning := hruns hsync hconnect
      have hshared := cache_of_move (serverMove_of_step hstep) (by simp)
      obtain ⟨hsome, hconnection⟩ := hs.connected hrunning
      refine ⟨hinv, (hordered hsync).1, (hordered hsync).2, ?_, fun hout => ?_, fun _ => ?_⟩
      · exact (hshared.trans hs.shared).trans (cache_of_read hread hsync).symm
      · rw [hgroup, hrunning] at hout
        cases hout
      · exact ⟨hsome, (hwebsocket hrunning).trans hconnection⟩
  | sync event sync server hown hsync hstep =>
      have hrunning := hruns hsync (by rintro rfl; cases hown)
      cases hstep
      refine ⟨hinv, (hordered hsync).1, (hordered hsync).2, rfl, fun hout => ?_,
        fun _ => hs.connected hrunning⟩
      exact absurd (hrunning.symm.trans hout) (by simp)
  | server event server hallows hstep =>
      have hshared := cache_of_move (serverMove_of_step hstep) (by
        rintro cache rfl
        cases hallows)
      have hgroup : (server.client.control.inGroup = false → s.sync.stopped = true) ∧
          (server.client.control.inGroup = true →
            s.connection ≠ none ∧ server.client.send.websocket = s.connection) := by
        rcases client_of_move (serverMove_of_step hstep) with heq | ⟨event', hclient⟩
        · rw [heq]
          exact ⟨hs.stopped, hs.connected⟩
        have hopened : ∀ w, event' ≠ .opened w := by
          rintro w rfl
          rcases hclient.label with rfl | ⟨n, hstart⟩
          · cases hallows
          · cases hstart
        -- a task group ends once its routine has
        by_cases hends : event' = .groupEnds
        · have hout := group_of_groupEnds (hends ▸ hclient.step)
          have hstopped : s.sync.stopped = true := by
            rcases hclient.label with rfl | ⟨n, hstart⟩
            · rw [hends] at hallows
              exact hallows
            · rw [hends] at hstart
              cases hstart
          exact ⟨fun _ => hstopped, fun hin => absurd (hout.symm.trans hin) Bool.false_ne_true⟩
        · obtain ⟨hsame, hwebsocket⟩ := group_of_step hclient.step hopened hends
          refine ⟨fun hout => hs.stopped (hsame ▸ hout), fun hin => ?_⟩
          obtain ⟨hsome, hconnection⟩ := hs.connected (hsame ▸ hin)
          exact ⟨hsome, (hwebsocket (hsame ▸ hin)).trans hconnection⟩
      exact ⟨hinv, hs.ordered, hs.progress, hshared.trans hs.shared, hgroup.1, hgroup.2⟩

variable {rate clock : ℚ} {events : List RunEvent} {ok : RunState → RunEvent → Prop}

theorem runInv_of_run
    (h : (runMachine codec cmdPrefix first sameLetter secrets mode rate clock).Run ok events s) :
    RunInv first s := by
  refine h.invariant (I := RunInv first) runInv_init ?_
  intro s event s' hs _ hstep
  exact runInv_of_move hs (runMove_of_step hstep)

/-- **The server of the program is a server**: what holds of one in every
interleaving holds of it. -/
theorem serverRun_of_run
    (h : (runMachine codec cmdPrefix first sameLetter secrets mode rate clock).Run ok events s) :
    ∃ ks, (serverMachine codec cmdPrefix 1 first sameLetter secrets mode rate clock).Run
      Machine.Free ks s.server := by
  refine h.simulate RunState.server rfl fun s event s' _ hstep => ?_
  have hone : ∀ {event server},
      serverStep codec cmdPrefix 1 first sameLetter secrets mode s.server event = some server →
      ∃ ks, (serverMachine codec cmdPrefix 1 first sameLetter secrets mode rate clock).exec
        s.server ks = some server := fun hserver =>
    ⟨[_], by rw [Machine.exec, Option.bind_eq_some_iff]; exact ⟨_, hserver, rfl⟩⟩
  cases runMove_of_step hstep with
  | opened w sync server _ hserver => exact hone hserver
  | reads read clientEvent sync server _ _ _ _ _ hserver => exact hone hserver
  | sync event sync server _ _ hserver => exact hone hserver
  | server event server _ hserver => exact hone hserver

/-- **Its `Sync` is a `Sync`**, with the same steps in order. -/
theorem syncRun_of_run
    (h : (runMachine codec cmdPrefix first sameLetter secrets mode rate clock).Run RunInOrder
      events s) : ∃ ks, (syncMachine codec).Run InOrder ks s.sync := by
  induction h with
  | nil => exact ⟨[], .nil⟩
  | @snoc _ s _ _ _ hok hstep ih =>
      obtain ⟨ks, hks⟩ := ih
      have hsnoc : ∀ {event sync}, InOrder s.sync event →
          syncStep codec s.sync event = some sync →
          ∃ ks, (syncMachine codec).Run InOrder ks sync := fun {event _} horder hsync =>
        ⟨ks ++ [event], hks.snoc horder hsync⟩
      cases runMove_of_step hstep with
      | opened w sync server hsync => exact hsnoc rfl hsync
      | reads read clientEvent sync server hread _ _ _ hsync =>
          -- only a step of the routine can be out of order
          have horder : InOrder s.sync read := by
            cases read with
            | connect | readPush | readResponse => rfl
            | _ => cases hread
          exact hsnoc horder hsync
      | sync event sync server _ hsync => exact hsnoc hok hsync
      | server => exact ⟨ks, hks⟩

theorem syncInv_of_run
    (h : (runMachine codec cmdPrefix first sameLetter secrets mode rate clock).Run RunInOrder
      events s) : SyncInv codec s.sync := by
  obtain ⟨ks, hks⟩ := syncRun_of_run h
  refine hks.invariant syncInv_init ?_
  intro s event s' hs hok hstep
  exact syncInv_step hs hok hstep

/-! ## The guarantees -/

/-- **What the program guarantees of its cache and its writes.** -/
structure RunSafe (codec : Codec) (cmdPrefix : Bytes) (first : ℤ)
    (sameLetter : Char → Char → Bool) (secrets : Secrets) (mode : WritesMode) (s : RunState) :
    Prop where
  /-- A cache that is fresh was synced on the connection that the client has:
  each request of the bootstrap was answered by a response read on it. -/
  fresh : s.sync.cache.fresh = true → ∃ w, s.connection = some w ∧
    s.server.client.send.websocket = some w ∧
    ∀ request, request ≠ .refresh → ∃ id read, s.sync.history.answered request = some (id, read) ∧
      Recorded s.sync.history.log id read
  /-- A call that writes does so on that connection, and where every push read
  on it was handled, for the cache that its bootstrap and its pushes
  make. -/
  writes : ∀ event s', runStep codec cmdPrefix first sameLetter secrets mode s event = some s' →
    ∀ n w k, (n, w) ∈ s'.server.client.send.history.wire →
      (n, w) ∉ s.server.client.send.history.wire → s'.server.maker? n = some k →
      s.sync.cache.fresh = true ∧ s.connection = some w ∧
        (s.sync.history.handled = pushesOf s.sync.history.log →
          ∃ config, InSync codec s.sync config)
  /-- No connection is opened while a routine of another runs: whenever the
  client can open one, its routine can start. -/
  opens : ∀ w client, clientStep codec cmdPrefix (s.server.requests first) 1 s.server.client
      (.opened w) = some client →
    ∃ s', runStep codec cmdPrefix first sameLetter secrets mode s (.opened w) = some s'

/-- What a bootstrap was answered was read. -/
theorem SyncInv.recorded {t : SyncState} (ht : SyncInv codec t)
    (hsynced : t.cache.synced = true) {request : SyncRequest} (hrequest : request ≠ .refresh) :
    ∃ id read, t.history.answered request = some (id, read) ∧ Recorded t.history.log id read := by
  obtain ⟨-, hanswered⟩ := ht.progress.synced hsynced
  obtain ⟨⟨id, read⟩, hread⟩ := Option.isSome_iff_exists.1 (hanswered request hrequest)
  refine ⟨id, read, hread, ?_⟩
  cases request with
  | config => exact (ht.holds.config id read hread).1
  | devices => exact (ht.holds.devices id read hread).1
  | areas => exact (ht.holds.areas id read hread).1
  | refresh => exact absurd rfl hrequest

/-- A routine that synced the cache runs in the task group. -/
theorem RunInv.connection (hs : RunInv first s) (hfresh : s.sync.cache.fresh = true) :
    ∃ w, s.connection = some w ∧ s.server.client.send.websocket = some w := by
  rw [Cache.fresh, Bool.and_eq_true] at hfresh
  have hgroup : s.server.client.control.inGroup = true := by
    by_contra hout
    -- the routine has ended, and a cache is not synced after that
    obtain ⟨-, -, hphase⟩ := stopped_iff.1 (hs.stopped (by simpa using hout))
    rcases (hs.progress.synced hfresh.2).1 with hp | hp | hp <;>
      rcases hphase with hphase | hphase <;> rw [hphase] at hp <;> cases hp
  obtain ⟨hsome, hconnection⟩ := hs.connected hgroup
  obtain ⟨w, hw⟩ := Option.ne_none_iff_exists'.1 hsome
  exact ⟨w, hw, hconnection.trans hw⟩

/-- **A write goes on the connection that the cache was synced on**, in every
run of the program that takes the answers of its routine in order. -/
theorem run_safe
    (h : (runMachine codec cmdPrefix first sameLetter secrets mode rate clock).Run RunInOrder
      events s) : RunSafe codec cmdPrefix first sameLetter secrets mode s := by
  have hs := runInv_of_run h
  have hsync := syncInv_of_run h
  refine ⟨fun hfresh => ?_, fun event s' hstep n w k hnew hold hmaker => ?_,
    fun w client hclient => ?_⟩
  · obtain ⟨w, hconnection, hwebsocket⟩ := hs.connection hfresh
    rw [Cache.fresh, Bool.and_eq_true] at hfresh
    exact ⟨w, hconnection, hwebsocket, fun request hrequest => hsync.recorded hfresh.2 hrequest⟩
  · obtain ⟨_, hmove⟩ := serverMove_of_runMove (runMove_of_step hstep)
    obtain ⟨hwebsocket, hfresh⟩ := fresh_of_move hmove hnew hold hmaker
    rw [hs.shared] at hfresh
    obtain ⟨w', hconnection, hwebsocket'⟩ := hs.connection hfresh
    obtain rfl : w = w' := Option.some.inj (hwebsocket.symm.trans hwebsocket')
    refine ⟨hfresh, hconnection, fun hall => ?_⟩
    rw [Cache.fresh, Bool.and_eq_true] at hfresh
    exact hsync.inSync hfresh.2 hall
  · -- the client opens a connection outside a task group only
    obtain ⟨hout, -⟩ := group_of_opened hclient
    obtain ⟨hlive, hqueue, hphase⟩ := stopped_iff.1 (hs.stopped hout)
    have hconnect : syncStep codec s.sync .connect = some s.sync.connect :=
      if_pos ⟨hlive, hqueue, hphase⟩
    have hserver : serverStep codec cmdPrefix 1 first sameLetter secrets mode s.server
        (.client (.opened w)) = some { s.server with client } := by
      simp only [serverStep, ServerState.allows, if_true, ServerState.stepClient, hclient,
        Option.map_some, ClientEvent.call?]
    refine ⟨⟨{ s.server with client }, s.sync.connect, some w⟩, ?_⟩
    simp only [runStep, RunState.both, hconnect, hserver, Option.bind_some, Option.map_some]

/-- The program on a Tydom of one shutter. -/
def shutterProgram : Machine RunState RunEvent :=
  runMachine oneShutter [] 0 (fun a b => a = b) ⟨"secret12", none, "001122334455"⟩ .shutters 1 0

/-- A connection opens, the routine syncs the cache, and a shutter is opened
by half. -/
def syncedRun : List RunEvent :=
  [.server (.client .authorized), .opened 7, .sync (.run (.written 1) 0),
    .readResponse (answerTo "/configs/file" "1" configContent), .sync (.run (.written 2) 0),
    .readResponse (answerTo "/devices/data" "2" devicesContent), .sync (.run (.written 3) 0),
    .readResponse (answerTo "/areas/data" "3" (bytesOf "[]")), .sync (.run (.written 4) 0)]

/-- The call that opens it. -/
def openCall : RunEvent := .server (.call 0 "set_shutter" (halfOpen "e:10:1") 0 0)

theorem run_safe_syncedRun : ∃ s s', shutterProgram.step s openCall = some s' ∧
    s'.server.client.send.history.wire = [(0, 7)] ∧ s.sync.cache.fresh = true ∧
    RunSafe oneShutter [] 0 (fun a b => a = b) ⟨"secret12", none, "001122334455"⟩ .shutters s := by
  have hexec : ((shutterProgram.restrict RunInOrder).exec shutterProgram.init syncedRun).bind
      (fun s => (shutterProgram.step s openCall).map fun s' =>
        (s'.server.client.send.history.wire, s.sync.cache.fresh)) = some ([(0, 7)], true) := by
    decide +kernel
  obtain ⟨s, hs, hstep⟩ := Option.bind_eq_some_iff.1 hexec
  obtain ⟨s', hs', heq⟩ := Option.map_eq_some_iff.1 hstep
  obtain ⟨hwire, hfresh⟩ := Prod.mk.inj heq
  exact ⟨s, s', hs', hwire, hfresh, run_safe (Machine.run_of_restrict (Machine.run_of_exec hs))⟩

end Program

end Mcp

end Tydomio
