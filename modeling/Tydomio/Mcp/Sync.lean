import Tydomio.Mcp.Bootstrap

/-!
# The cache is in sync whenever it is fresh

What can go past the order of the pushes is a response read before its
`send` awaits the future: `inOrder` allows the step that takes it only
where the handled pushes are those read before. In runs of such steps a
fresh cache with every push handled is exactly what the last bootstrap and
the pushes after it make.
-/

namespace Tydomio

open Common Protocol

namespace Mcp

variable {codec : Codec} {s s' : SyncState}

/-! ## Every reachable state -/

/-- **What every state reached in order satisfies.** -/
structure SyncInv (codec : Codec) (s : SyncState) : Prop where
  ordered : Ordered s
  progress : Progress s
  holds : Holds codec s.cache s.history

/-- An answer is taken after the pushes read before it and before those
read after it, of the data it is about. -/
theorem handled_of_answers {queue : List Ready} {request : SyncRequest} {id : ℤ}
    {read : ReadResponse} {start : SendStart} {now : DateTime} (ho : Ordered s)
    (hqueue : s.queue = .routine :: queue) (hok : InOrder s (.run start now))
    (hphase : s.phase = .written request id (some read) ∨ s.phase = .woken request id read) :
    s.history.handled.filter request.concerns =
      (pushesOf (s.history.log.take read.place)).filter request.concerns := by
  rcases hphase with hphase | hphase
  · simpa only [InOrder, SyncState.inOrder, hphase, hqueue, decide_eq_true_eq] using hok
  · have hread := ho.woken request id read hphase
    rw [hqueue, ahead, List.append_nil] at hread
    rw [hread]

theorem RoutineCase.holds {queue : List Ready} {start : SendStart} {now : DateTime}
    (h : RoutineCase codec { s with queue } s') (hs : SyncInv codec s)
    (hqueue : s.queue = .routine :: queue) (hok : InOrder s (.run start now)) :
    Holds codec s'.cache s'.history := by
  cases h with
  | bootstrap failures hphase hsettles => exact hsettles.holds (holds_of_not_answered rfl)
  | awaits => exact hs.holds
  | fails request hphase hsettles => exact hsettles.holds hs.holds
  | finishes => exact hs.holds.marks _ _ _ rfl rfl (List.prefix_refl _)
  | answers request id read parsed now hphase hparsed hnext =>
      have hrequest : s.phase.request? = some request := by
        rcases hphase with hp | hp <;> rw [show s.phase = _ from hp] <;> rfl
      have hresponse : s.phase.response? = some (id, read) := by
        rcases hphase with hp | hp <;> rw [show s.phase = _ from hp] <;> rfl
      have hnew := hs.holds.onAnswer (hs.progress.answered request hrequest)
        (hs.ordered.recorded id read hresponse) hparsed
        (handled_of_answers hs.ordered hqueue hok hphase) now
      rcases hnext with ⟨next, -, hsettles⟩ | ⟨-, rfl⟩
      · exact hsettles.holds hnew
      · exact hnew

theorem syncInv_step {event : SyncEvent} (hs : SyncInv codec s) (hok : InOrder s event)
    (hstep : syncStep codec s event = some s') : SyncInv codec s' := by
  have hcase := stepCase_of_step hs.ordered hstep
  refine ⟨hs.ordered.step hstep, hcase.progress hs.progress, ?_⟩
  cases hcase with
  | connect hphase => exact holds_of_not_answered rfl
  | quiet hquiet =>
      rw [hquiet.cache]
      exact hs.holds.marks _ _ _ hquiet.handled hquiet.answered hquiet.log
  | handler push queue hqueue => exact hs.holds.onPush push
  | routine queue hqueue hcase => exact hcase.holds hs hqueue hok

theorem syncInv_init : SyncInv codec .init :=
  ⟨⟨rfl, nofun, fun _ => ⟨rfl, .inl rfl⟩, nofun, nofun⟩, ⟨nofun, nofun⟩,
    holds_of_not_answered rfl⟩

/-! ## A cache in sync -/

/-- With every push handled, those merged since the snapshot are those read
after it. -/
theorem Part.Held.merged_eq {K : Type} [DecidableEq K] {P : Part K} {cache : Cache}
    {history : SyncHistory} {id : ℤ} {read : ReadResponse} (h : P.Held codec cache history)
    (hread : history.answered P.request = some (id, read))
    (hall : history.handled = pushesOf history.log) :
    ∃ parsed items invalid,
      (P.request.toRequest id).parseResponse codec read.response = .ok parsed ∧
      P.snapshot parsed = some (items, invalid) ∧
      P.entities cache = P.merged cache items invalid
        ((pushesOf (history.log.drop (read.place + 1))).filterMap P.pushed) := by
  obtain ⟨hrecorded, parsed, items, invalid, pushes, hparsed, hsnapshot, hpushes, heq⟩ :=
    h id read hread
  rw [hall, hrecorded.pushesOf_eq, List.filterMap_append] at hpushes
  refine ⟨parsed, items, invalid, hparsed, hsnapshot, ?_⟩
  rw [List.append_cancel_left hpushes]
  exact heq

theorem applyAll_cons (op : CacheOp) (ops : List CacheOp) (cache : Cache) :
    applyAll (op :: ops) cache = applyAll ops (op.apply cache) := rfl

theorem endpoints_mergeDevices (pushes : List DevicesData) (cache : Cache) :
    (applyAll (pushes.map .mergeDevices) cache).endpoints =
      (pushes.map deviceItems).foldl
        (fun entities items => mergeEntities cache.endpointUsages items entities)
        cache.endpoints := by
  induction pushes generalizing cache with
  | nil => rfl
  | cons data pushes ih =>
      rw [List.map_cons, applyAll_cons, ih, List.map_cons, List.foldl_cons]
      rfl

theorem areas_mergeAreas (pushes : List AreasData) (cache : Cache) :
    (applyAll (pushes.map .mergeAreas) cache).areas =
      (pushes.map areaItems).foldl
        (fun entities items => mergeEntities cache.areaUsages items entities) cache.areas := by
  induction pushes generalizing cache with
  | nil => rfl
  | cons data pushes ih =>
      rw [List.map_cons, applyAll_cons, ih, List.map_cons, List.foldl_cons]
      rfl

theorem filterMap_devicesPart (pushes : List TydomRequest) :
    pushes.filterMap devicesPart.pushed = (devicesPushes pushes).map deviceItems := by
  rw [devicesPushes, List.map_filterMap]
  congr 1
  funext push
  cases push <;> rfl

theorem filterMap_areasPart (pushes : List TydomRequest) :
    pushes.filterMap areasPart.pushed = (areasPushes pushes).map areaItems := by
  rw [areasPushes, List.map_filterMap]
  congr 1
  funext push
  cases push <;> rfl

/-- **A synced cache with every push handled is in sync.** -/
theorem SyncInv.inSync (h : SyncInv codec s) (hsynced : s.cache.synced = true)
    (hall : s.history.handled = pushesOf s.history.log) : ∃ config, InSync codec s config := by
  obtain ⟨-, hanswered⟩ := h.progress.synced hsynced
  obtain ⟨⟨idC, readC⟩, hreadC⟩ := Option.isSome_iff_exists.1 (hanswered .config nofun)
  obtain ⟨⟨idD, readD⟩, hreadD⟩ := Option.isSome_iff_exists.1 (hanswered .devices nofun)
  obtain ⟨⟨idA, readA⟩, hreadA⟩ := Option.isSome_iff_exists.1 (hanswered .areas nofun)
  obtain ⟨hrecordedC, config, hparsedC, hconfig, husagesD, husagesA⟩ :=
    h.holds.config idC readC hreadC
  obtain ⟨parsedD, itemsD, invalidD, hparsedD, hsnapshotD, hendpoints⟩ :=
    h.holds.devices.merged_eq hreadD hall
  obtain ⟨parsedA, itemsA, invalidA, hparsedA, hsnapshotA, hareas⟩ :=
    h.holds.areas.merged_eq hreadA hall
  have hrecordedD := (h.holds.devices idD readD hreadD).1
  have hrecordedA := (h.holds.areas idA readA hreadA).1
  refine ⟨config, ⟨readC.response, _, ⟨idC, readC.place, readC.response, hreadC, hrecordedC.1,
    hrecordedC.2, hparsedC, rfl⟩, hconfig⟩, ?_, ?_⟩
  · cases parsed_of_parseResponse hparsedD with
    | devices data invalid =>
        -- the usages are those of the config, so applying it first changes nothing
        cases hsnapshotD
        refine ⟨readD.response, data, _, _, ⟨idD, readD.place, readD.response, hreadD,
          hrecordedD.1, hrecordedD.2, hparsedD, rfl⟩, ?_⟩
        rw [applyAll_cons, applyAll_cons, endpoints_mergeDevices, ← filterMap_devicesPart]
        rw [Part.merged, show devicesPart.usages s.cache = _ from husagesD] at hendpoints
        exact hendpoints
  · cases parsed_of_parseResponse hparsedA with
    | areas data invalid =>
        cases hsnapshotA
        refine ⟨readA.response, data, _, _, ⟨idA, readA.place, readA.response, hreadA,
          hrecordedA.1, hrecordedA.2, hparsedA, rfl⟩, ?_⟩
        rw [applyAll_cons, applyAll_cons, areas_mergeAreas, ← filterMap_areasPart]
        rw [Part.merged, show areasPart.usages s.cache = _ from husagesA] at hareas
        exact hareas

/-! ## After the end of a routine -/

/-- No bootstrap completed since the first `n`, and the cache is not
synced; or one did. -/
def Stale (n : ℕ) (s : SyncState) : Prop :=
  n ≤ s.history.bootstraps ∧ (s.history.bootstraps = n → s.cache.synced = false)

theorem Settles.stale {request : SyncRequest} {n : ℕ} (h : Settles request s s')
    (hs : Stale n s) : Stale n s' := by
  cases h with
  | finished => exact ⟨hs.1, fun _ => rfl⟩
  | writing | waiting | backedOff | parked => exact hs

theorem RoutineCase.stale {n : ℕ} (h : RoutineCase codec s s') (hs : Stale n s) :
    Stale n s' := by
  cases h with
  | bootstrap failures hphase hsettles => exact hsettles.stale hs
  | awaits => exact hs
  | fails request hphase hsettles => exact hsettles.stale hs
  | finishes => exact ⟨hs.1, fun _ => rfl⟩
  | answers request id read parsed now hphase hparsed hnext =>
      have hsynced := synced_onAnswer (parsed_of_parseResponse hparsed) now s.cache
      have hnew : Stale n { s with
          cache := onAnswer now parsed s.cache
          history := s.history.record request id read } := by
        obtain ⟨hle, hstale⟩ := hs
        unfold Stale
        simp only [SyncHistory.record, hsynced]
        split
        · exact ⟨by omega, fun h => by omega⟩
        · rename_i hne
          exact ⟨hle, fun h => by rw [hstale h, decide_eq_false hne, Bool.or_self]⟩
      rcases hnext with ⟨next, -, hsettles⟩ | ⟨-, rfl⟩
      · exact hsettles.stale hnew
      · exact hnew

theorem StepCase.stale {n : ℕ} {event : SyncEvent} (h : StepCase codec s event s')
    (hs : Stale n s) : Stale n s' := by
  cases h with
  | connect => exact hs
  | quiet hquiet =>
      unfold Stale
      rw [hquiet.bootstraps, hquiet.cache]
      exact hs
  | handler push queue hqueue =>
      exact ⟨hs.1, fun h => (synced_onPush push s.cache).trans (hs.2 h)⟩
  | routine queue hqueue hcase => exact hcase.stale hs

theorem stale_of_exec {n : ℕ} {events : List SyncEvent} (ho : Ordered s) (hs : Stale n s)
    (h : (syncMachine codec).exec s events = some s') : Stale n s' := by
  -- of any steps: the order of the answers does not matter here
  induction events generalizing s with
  | nil =>
      cases h
      exact hs
  | cons event events ih =>
      obtain ⟨m, hm, hrest⟩ := Option.bind_eq_some_iff.1 h
      exact ih (ho.step hm) ((stepCase_of_step ho hm).stale hs) hrest

theorem fresh_eq_false {cache : Cache} (h : cache.synced = false) : cache.fresh = false := by
  rw [Cache.fresh, h, Bool.and_false]

/-- **The cache is in sync whenever it is fresh and every push was
handled**, in every run whose answers are taken in order: its config,
endpoints and areas are those of the last bootstrap of the connection with
the pushes read after each answer. Once a routine has ended, the cache is
not fresh until a bootstrap completes. -/
theorem fresh_inSync {events : List SyncEvent}
    (h : (syncMachine codec).Run InOrder events s) :
    (s.cache.fresh = true → s.history.handled = pushesOf s.history.log →
      ∃ config, InSync codec s config) ∧
    (s.phase = .ended → ∀ later s', (syncMachine codec).exec s later = some s' →
      s'.history.bootstraps = s.history.bootstraps → s'.cache.fresh = false) := by
  have hinv : SyncInv codec s :=
    h.invariant syncInv_init fun _ _ _ hs hok hstep => syncInv_step hs hok hstep
  refine ⟨fun hfresh hall => ?_, fun hended later s' hlater hsame => ?_⟩
  · rw [Cache.fresh, Bool.and_eq_true] at hfresh
    exact hinv.inSync hfresh.2 hall
  · have hstale : Stale s.history.bootstraps s := by
      refine ⟨le_rfl, fun _ => ?_⟩
      by_contra hsynced
      rcases (hinv.progress.synced (by simpa using hsynced)).1 with hp | hp | hp <;>
        rw [hended] at hp <;> cases hp
    exact fresh_eq_false ((stale_of_exec hinv.ordered hstale hlater).2 hsame)

/-! ## One shutter

A config with the shutter `(10, 1)`, which the snapshot has at `0` and a
push at `100`: the validators are given on these contents. -/

/-- The content of `/configs/file`. -/
def configContent : Bytes := bytesOf <|
  "\x7b\"date\":1,\"version_application\":\"1\",\"endpoints\":[\x7b\"id_endpoint\":1," ++
  "\"first_usage\":\"shutter\",\"skill\":\"\",\"id_device\":10,\"name\":\"Shutter\"," ++
  "\"anticipation_start\":false,\"picto\":\"\",\"last_usage\":\"shutter\"," ++
  "\"widget_behavior\":\x7b\"tutorial_id\":\"\"\x7d\x7d],\"old_tycam\":false,\"moments\":[]," ++
  "\"os\":\"\",\"groups\":[],\"areas\":[],\"scenarios\":[],\"id_catalog\":\"\"," ++
  "\"version\":\"1\",\"zigbee_networks\":[]\x7d"

/-- The content of `/devices/data`. -/
def devicesContent : Bytes := bytesOf <|
  "[\x7b\"id\":10,\"endpoints\":[\x7b\"id\":1,\"error\":0,\"data\":" ++
  "[\x7b\"name\":\"position\",\"validity\":\"upToDate\",\"value\":0\x7d]\x7d]\x7d]"

/-- The content of the push. -/
def pushContent : Bytes := bytesOf <|
  "[\x7b\"id\":10,\"endpoints\":[\x7b\"id\":1,\"error\":0,\"data\":" ++
  "[\x7b\"name\":\"position\",\"validity\":\"upToDate\",\"value\":100\x7d]\x7d]\x7d]"

/-- The shutter at a position. -/
def shutterAt (position : ℚ) : DataEndpoint :=
  ⟨1, 0, [⟨"position", "upToDate", .number (.finite position)⟩]⟩

/-- Its endpoint in the content of `/devices/data`. -/
def rawShutter : RawEntity :=
  ⟨1, .dict [("id", .int 1), ("error", .int 0), ("data", .list [.dict [("name", .str "position"),
    ("validity", .str "upToDate"), ("value", .int 0)]])]⟩

/-- The validators on the contents of this Tydom, which has no area. -/
def oneShutter : Codec where
  loads _ := .error .jsonDecodeError
  devicesData _ := none
  areasData _ := some []
  config _ := some ⟨1, [⟨10, 1, "Shutter", "shutter"⟩], [], []⟩
  devicesEnvelope _ := some [⟨10, [rawShutter]⟩]
  areasEnvelope _ := some []
  endpoint _ := some (shutterAt 0)

/-- The response to a GET. -/
def answerTo (url id : String) (content : Bytes) : Response :=
  ⟨200, Dict.ofList [("uri-origin", url), ("transac-id", id)], some content⟩

/-- The push that opens the shutter. -/
def openPush : TydomRequest :=
  .putDevicesData (receivedRequest "PUT" "/devices/data" ∅ (some pushContent))
    [⟨10, [shutterAt 100]⟩]

/-- A connection whose config is answered, up to the GET of the devices. -/
def untilDevices (start : SendStart) : List SyncEvent :=
  [.connect, .run (.written 1) 0, .readResponse (answerTo "/configs/file" "1" configContent),
    .run start 0]

/-- The areas are answered: the bootstrap completes. -/
def areasAnswered : List SyncEvent :=
  [.readResponse (answerTo "/areas/data" "3" (bytesOf "[]")), .run (.written 4) 0]

/-- The push is read and handled after the answer of its GET is taken. -/
theorem fresh_inSync_openPush :
    ∃ s config, s.cache.fresh = true ∧ s.history.handled = [openPush] ∧
      InSync oneShutter s config := by
  have hexec : ∃ s, ((syncMachine oneShutter).restrict InOrder).exec .init
      (untilDevices (.written 2) ++
        [.readResponse (answerTo "/devices/data" "2" devicesContent), .readPush openPush,
          .run (.written 3) 0, .run (.written 3) 0] ++ areasAnswered) = some s ∧
      s.cache.fresh = true ∧ s.history.handled = [openPush] ∧
      s.history.handled = pushesOf s.history.log :=
    ⟨_, rfl, rfl, rfl, rfl⟩
  obtain ⟨s, hs, hfresh, hhandled, hall⟩ := hexec
  obtain ⟨config, hsync⟩ :=
    (fresh_inSync (Machine.run_of_restrict (Machine.run_of_exec hs))).1 hfresh hall
  exact ⟨s, config, hfresh, hhandled, hsync⟩

/-- **A push handled before the write of the GET returns is lost**: the
response is read before the push, and the snapshot is applied after it. -/
theorem early_response_loses_push :
    ∃ events s, (syncMachine oneShutter).Run Machine.Free events s ∧ s.cache.fresh = true ∧
      s.history.handled = pushesOf s.history.log ∧ ∀ config, ¬ InSync oneShutter s config := by
  have hexec : ∃ s, (syncMachine oneShutter).exec .init
      (untilDevices (.suspended 2) ++
        [.readResponse (answerTo "/devices/data" "2" devicesContent), .readPush openPush,
          .run (.written 3) 0, .writeReturns, .run (.written 3) 0] ++ areasAnswered) = some s ∧
      s.cache.fresh = true ∧ s.history.handled = pushesOf s.history.log ∧
      s.cache.config = oneShutter.config [] ∧
      s.cache.endpoints.get? (10, 1) = some (Entity.empty.merge (shutterAt 0)) ∧
      s.history.answered .devices =
        some (2, ⟨1, answerTo "/devices/data" "2" devicesContent⟩) ∧
      pushesOf (s.history.log.drop 2) = [openPush] :=
    ⟨_, rfl, rfl, rfl, rfl, rfl, rfl, rfl⟩
  obtain ⟨s, hs, hfresh, hall, hconfig, hshutter, hanswered, hlater⟩ := hexec
  refine ⟨_, s, Machine.run_of_exec hs, hfresh, hall, fun config hsync => ?_⟩
  obtain ⟨-, -, -, hconfig'⟩ := hsync.config_eq
  obtain ⟨response, data, invalid, later, ⟨id, place, response', hread, -, -, hparsed, rfl⟩,
    hendpoints⟩ := hsync.endpoints_eq
  cases hconfig.symm.trans hconfig'
  cases hanswered.symm.trans hread
  have hdata : (SyncRequest.devices.toRequest 2).parseResponse oneShutter
      (answerTo "/devices/data" "2" devicesContent) =
        .ok (.devicesData (answerTo "/devices/data" "2" devicesContent)
          [⟨10, [shutterAt 0]⟩] []) := rfl
  cases hdata.symm.trans hparsed
  rw [hlater] at hendpoints
  rw [hendpoints] at hshutter
  revert hshutter
  decide

end Mcp

end Tydomio
