import Tydomio.Mcp.Model.Writes
import Tydomio.Model.Write

/-!
# A write is sent only as asked and allowed

What a call must have passed when it hands a request to `send`: the cache
is fresh, the request is the `PUT` of the target's integer ids, the config
gives the target a usage the tool may write, and the body is the fields
the caller gave. Each check of the write says once what it lets through,
and `begin_sound` chains them.
-/

namespace Tydomio

open Common Protocol

namespace Mcp

/-! ## What is to be sent -/

/-- The url of a target's data. -/
def Target.url : Target → String
  | endpoint deviceId endpointId => endpointUrl deviceId endpointId
  | group groupId => groupUrl groupId
  | area areaId => areaUrl areaId

/-! The texts of the three kinds of url. -/

theorem url_endpoint (deviceId endpointId : ℤ) : (Target.endpoint deviceId endpointId).url =
    "/devices/" ++ toString deviceId ++ "/endpoints/" ++ toString endpointId ++ "/data" := rfl

theorem url_group (groupId : ℤ) :
    (Target.group groupId).url = "/groups/" ++ toString groupId ++ "/data" := rfl

theorem url_area (areaId : ℤ) :
    (Target.area areaId).url = "/areas/" ++ toString areaId ++ "/data" := rfl

/-- **What each tool may write**: a target, its usage in the config, and
the write model of that usage. -/
inductive Allowed : Tool → Target → String → WriteModel → Prop
  | shutter (deviceId endpointId : ℤ) :
      Allowed .setShutter (.endpoint deviceId endpointId) "shutter" .shutterWrite
  | shutterGroup (groupId : ℤ) : Allowed .setShutter (.group groupId) "shutter" .shutterWrite
  | boiler (deviceId endpointId : ℤ) :
      Allowed .setHeating (.endpoint deviceId endpointId) "boiler" .boilerWrite
  | re2020ControlBoiler (deviceId endpointId : ℤ) :
      Allowed .setHeating (.endpoint deviceId endpointId) "re2020ControlBoiler"
        .re2020ControlBoilerWrite
  | area (areaId : ℤ) :
      Allowed .setHeating (.area areaId) "re2020ControlBoiler" .areaWrite

/-- **The fields a caller gives**, by Tydom name: exactly one of a command
and a position, or the fields of a heating write. -/
inductive Given (arguments : Dict String JsonValue) : Tool → Dict String JsonValue → Prop
  | command (value : JsonValue) : arguments.get? "command" = some value →
      arguments.get? "position" = none →
      Given arguments .setShutter (Dict.ofList [("positionCmd", value)])
  | position (value : JsonValue) : arguments.get? "position" = some value →
      arguments.get? "command" = none →
      Given arguments .setShutter (Dict.ofList [("position", value)])
  | fields (items : List (String × JsonValue)) : arguments.get? "fields" = some (.dict items) →
      Given arguments .setHeating (Dict.ofList items)

/-- **What holds of a request that is sent.** -/
structure SentSound (cache : Cache) (tool : Tool) (arguments : Dict String JsonValue)
    (request : WriteRequest) : Prop where
  fresh : cache.fresh = true
  method : request.request.request.method = "PUT"
  content : request.request.request.content = some (dumps request.body)
  /-- The target, its usage in the config, and the fields given. -/
  addressed : ∃ text target config usage model given,
    arguments.get? "target" = some (.str text) ∧ Target.parse text = some target ∧
    request.request.request.url = target.url ∧
    cache.config = some config ∧ target.usage? config = some usage ∧
    Allowed tool target usage model ∧ Given arguments tool given ∧
    BodyOf model given request.body

/-! ## What each check lets through -/

theorem letThrough_eq_ok_iff {α : Type} {x : Except Exc α} {a : α} :
    letThrough x = .ok a ↔ x = .ok a := by
  cases x with
  | error e => exact iff_of_false (by simp [letThrough, Except.mapError]) (by simp)
  | ok b => simp [letThrough, Except.mapError]

theorem usageOfTarget_eq_ok_iff {config : Config} {target : Target} {usage : String} :
    usageOfTarget config target = .ok usage ↔ target.usage? config = some usage := by
  unfold usageOfTarget
  cases target.usage? config with
  | none => simp [refuse]
  | some usage' => simp

theorem checkRef_eq_ok_iff {R : Type} {x : Except Exc R} {ref : R} :
    checkRef x = .ok ref ↔ x = .ok ref := by
  cases x with
  | ok ref' => simp [checkRef]
  | error e => cases e <;> exact iff_of_false (by simp [checkRef, refuse]) (by simp)

theorem validated_eq_ok_iff {model : WriteModel} {fields : Dict String JsonValue}
    {write : UsageWrite} :
    validated model fields = .ok write ↔ modelValidate model false fields = .ok write := by
  unfold validated
  cases modelValidate model false fields with
  | ok write' => simp
  | error e => cases e <;> simp [refuse]

/-- An installation gives a reference only to an endpoint it knows. -/
theorem endpoint_eq_ok {installation : Installation} {deviceId endpointId : ℤ}
    {usage : UsageModel} {ref : EndpointRef}
    (h : installation.endpoint deviceId endpointId usage = .ok ref) :
    ref = ⟨deviceId, endpointId, usage⟩ := by
  unfold Installation.endpoint at h
  split at h
  · cases h
  · obtain ⟨-, -, rfl⟩ := map_eq_ok_iff.1 h
    rfl

theorem group_eq_ok {installation : Installation} {groupId : ℤ} {usage : UsageModel}
    {ref : GroupRef} (h : installation.group groupId usage = .ok ref) :
    ref = ⟨groupId, usage⟩ := by
  unfold Installation.group at h
  split at h
  · cases h
  · obtain ⟨-, -, rfl⟩ := map_eq_ok_iff.1 h
    rfl

theorem area_eq_ok {installation : Installation} {areaId : ℤ} {ref : AreaRef}
    (h : installation.area areaId = .ok ref) : ref = ⟨areaId⟩ := by
  unfold Installation.area at h
  split at h <;> cases h
  rfl

/-- The request of a write carries its body: validating it again changes
nothing. -/
theorem writeRequest_eq_ok {url : String} {usage : UsageModel} {write : UsageWrite}
    {transactionId : ℤ} {request : WriteRequest}
    (h : WriteRequest.init url usage write transactionId = .ok request) :
    request.request.request.method = "PUT" ∧ request.request.request.url = url ∧
      request.request.request.content = some (dumps request.body) ∧
      request.body = write.body := by
  obtain ⟨revalidated, hvalid, hbody⟩ := modelValidate_toDict write
  rw [WriteRequest.init, hvalid] at h
  dsimp only at h
  split at h
  · cases h
  · cases h
    exact ⟨rfl, rfl, rfl, hbody⟩

/-- A request prepared of a target: what `SentSound` says of it. -/
structure Prepares (tool : Tool) (arguments : Dict String JsonValue) (config : Config)
    (target : Target) (request : WriteRequest) : Prop where
  method : request.request.request.method = "PUT"
  content : request.request.request.content = some (dumps request.body)
  url : request.request.request.url = target.url
  addressed : ∃ usage model given, target.usage? config = some usage ∧
    Allowed tool target usage model ∧ Given arguments tool given ∧
    BodyOf model given request.body

theorem Prepares.of_request {tool : Tool} {arguments : Dict String JsonValue} {config : Config}
    {target : Target} {usage : String} {model : WriteModel} {given : Dict String JsonValue}
    {kind : UsageModel} {write : UsageWrite} {transactionId : ℤ} {request : WriteRequest}
    (husage : target.usage? config = some usage) (hallowed : Allowed tool target usage model)
    (hgiven : Given arguments tool given) (hwrite : modelValidate model false given = .ok write)
    (h : WriteRequest.init target.url kind write transactionId = .ok request) :
    Prepares tool arguments config target request := by
  obtain ⟨hmethod, hurl, hcontent, hbody⟩ := writeRequest_eq_ok h
  exact ⟨hmethod, hcontent, hurl, usage, model, given, husage, hallowed, hgiven,
    hbody ▸ bodyOf_of_modelValidate hwrite⟩

/-! ## The two tools -/

/-- A usage model has one Tydom usage name. -/
theorem name_of_usages {name : String} {model : UsageModel}
    (h : usages.get? name = some model) :
    (name, model) ∈ [("boiler", UsageModel.boiler), ("conso", .conso),
      ("re2020ControlBoiler", .re2020ControlBoiler), ("sensorSun", .sensorSun),
      ("shutter", .shutter), ("weather", .weather)] :=
  Dict.get?_eq_some_iff.1 h

/-- The one usage a shutter is. -/
theorem shutter_of_usages {name : String}
    (h : (usages.get? name).any (· ∈ shutterUsages) = true) : name = "shutter" := by
  obtain ⟨model, hmodel, hmem⟩ := (Option.any_eq_true _ _).1 h
  have hshutter : model = .shutter := by simpa [shutterUsages] using hmem
  simpa [hshutter] using name_of_usages hmodel

/-- The usages that take a heating write, each with its write model. -/
theorem heating_of_usages {name : String} {model : UsageModel} {write : WriteModel}
    (h : usages.get? name = some model) (hmem : model ∈ heatingEndpointUsages)
    (hwrite : writeModelOf model = .ok write) (deviceId endpointId : ℤ) :
    Allowed .setHeating (.endpoint deviceId endpointId) name write := by
  have hmodel : model = .boiler ∨ model = .re2020ControlBoiler := by
    simpa [heatingEndpointUsages, heatingUsages] using hmem
  have hname := name_of_usages h
  rcases hmodel with rfl | rfl
  · have hboiler : name = "boiler" := by simpa using hname
    subst hboiler
    cases hwrite
    exact .boiler deviceId endpointId
  · have hcontrol : name = "re2020ControlBoiler" := by simpa using hname
    subst hcontrol
    cases hwrite
    exact .re2020ControlBoiler deviceId endpointId

/-- What is asked of a shutter is a command or a position. -/
theorem given_of_shutterFields {input : SetShutterInput} {arguments fields : Dict String JsonValue}
    (hcommand : input.command = arguments.get? "command")
    (hposition : input.position = arguments.get? "position")
    (h : shutterFields input = .ok fields) : Given arguments .setShutter fields := by
  unfold shutterFields at h
  split at h
  · rename_i value hc hp
    cases h
    exact .command value (hcommand ▸ hc) (hposition ▸ hp)
  · rename_i value hc hp
    cases h
    exact .position value (hposition ▸ hp) (hcommand ▸ hc)
  · cases h

/-- **What `_shutter_write` prepares.** -/
theorem prepares_shutterWrite {installation : Installation} {config : Config}
    {input : SetShutterInput} {arguments : Dict String JsonValue} {transactionId : ℤ}
    {prepared : Prepared} (hcommand : input.command = arguments.get? "command")
    (hposition : input.position = arguments.get? "position")
    (harea : ∀ areaId, input.ids ≠ .area areaId)
    (h : shutterWrite installation config input transactionId = .ok prepared) :
    Prepares .setShutter arguments config input.ids prepared.request := by
  obtain ⟨usage, husage, h⟩ := bind_eq_ok_iff.1 h
  split at h
  · rename_i hany
    obtain ⟨ref, href, h⟩ := bind_eq_ok_iff.1 h
    obtain ⟨fields, hfields, h⟩ := bind_eq_ok_iff.1 h
    obtain ⟨write, hwrite, h⟩ := bind_eq_ok_iff.1 h
    obtain ⟨request, hrequest, h⟩ := bind_eq_ok_iff.1 h
    cases h
    rw [usageOfTarget_eq_ok_iff, shutter_of_usages hany] at husage
    rw [validated_eq_ok_iff] at hwrite
    rw [letThrough_eq_ok_iff] at hrequest
    have hgiven := given_of_shutterFields hcommand hposition hfields
    -- the reference is to the target itself
    cases hids : input.ids with
    | endpoint deviceId endpointId =>
        rw [hids] at husage href
        obtain ⟨ref', href', rfl⟩ := map_eq_ok_iff.1 (checkRef_eq_ok_iff.1 href)
        cases endpoint_eq_ok href'
        exact .of_request husage (.shutter deviceId endpointId) hgiven hwrite hrequest
    | group groupId =>
        rw [hids] at husage href
        obtain ⟨ref', href', rfl⟩ := map_eq_ok_iff.1 (checkRef_eq_ok_iff.1 href)
        cases group_eq_ok href'
        exact .of_request husage (.shutterGroup groupId) hgiven hwrite hrequest
    | area areaId => exact absurd hids (harea areaId)
  · cases h

/-- **What `_heating_write` prepares.** -/
theorem prepares_heatingWrite {installation : Installation} {config : Config}
    {input : SetHeatingInput} {arguments : Dict String JsonValue} {transactionId : ℤ}
    {prepared : Prepared} (hgiven : Given arguments .setHeating input.fields)
    (h : heatingWrite installation config input transactionId = .ok prepared) :
    Prepares .setHeating arguments config input.ids prepared.request := by
  unfold heatingWrite at h
  split at h
  · cases h
  · rename_i areaId hids
    obtain ⟨usage, husage, h⟩ := bind_eq_ok_iff.1 h
    split at h
    · rename_i hmem
      obtain ⟨area, harea, h⟩ := bind_eq_ok_iff.1 h
      obtain ⟨write, hwrite, h⟩ := bind_eq_ok_iff.1 h
      obtain ⟨request, hrequest, h⟩ := bind_eq_ok_iff.1 h
      cases h
      cases area_eq_ok (checkRef_eq_ok_iff.1 harea)
      rw [usageOfTarget_eq_ok_iff, List.mem_singleton.1 hmem] at husage
      rw [validated_eq_ok_iff] at hwrite
      rw [letThrough_eq_ok_iff] at hrequest
      rw [hids]
      exact .of_request husage (.area areaId) hgiven hwrite hrequest
    · cases h
  · rename_i deviceId endpointId hids
    obtain ⟨usage, husage, h⟩ := bind_eq_ok_iff.1 h
    split at h
    · cases h
    · rename_i model hmodel
      split at h
      · rename_i hmem
        obtain ⟨endpoint, hendpoint, h⟩ := bind_eq_ok_iff.1 h
        obtain ⟨writeModel, hwriteModel, h⟩ := bind_eq_ok_iff.1 h
        obtain ⟨write, hwrite, h⟩ := bind_eq_ok_iff.1 h
        obtain ⟨request, hrequest, h⟩ := bind_eq_ok_iff.1 h
        cases h
        cases endpoint_eq_ok (checkRef_eq_ok_iff.1 hendpoint)
        rw [usageOfTarget_eq_ok_iff] at husage
        rw [validated_eq_ok_iff] at hwrite
        rw [letThrough_eq_ok_iff] at hrequest
        rw [hids]
        exact .of_request husage (heating_of_usages hmodel hmem hwriteModel deviceId endpointId)
          hgiven hwrite hrequest
      · cases h

/-! ## A call -/

/-- The input of `set_shutter`: a target other than an area, and what is
given under `command` and `position`. -/
theorem setShutterInput_eq_some {arguments : Dict String JsonValue} {input : SetShutterInput}
    (h : SetShutterInput.modelValidate arguments = some input) :
    arguments.get? "target" = some (.str input.target) ∧
      Target.parse input.target = some input.ids ∧ (∀ areaId, input.ids ≠ .area areaId) ∧
      input.command = arguments.get? "command" ∧
      input.position = arguments.get? "position" := by
  unfold SetShutterInput.modelValidate at h
  split at h
  · split at h
    · rename_i target htarget
      split at h
      · cases h
      · cases h
      · rename_i ids harea hparse
        cases h
        exact ⟨htarget, hparse, harea, rfl, rfl⟩
    · cases h
  · cases h

theorem setHeatingInput_eq_some {arguments : Dict String JsonValue} {input : SetHeatingInput}
    (h : SetHeatingInput.modelValidate arguments = some input) :
    arguments.get? "target" = some (.str input.target) ∧
      Target.parse input.target = some input.ids ∧
      Given arguments .setHeating input.fields := by
  unfold SetHeatingInput.modelValidate at h
  split at h
  · split at h
    · rename_i target items htarget hitems
      obtain ⟨ids, hparse, rfl⟩ := Option.map_eq_some_iff.1 h
      exact ⟨htarget, hparse, .fields items hitems⟩
    · cases h
  · cases h

/-- A write is checked against the config of a fresh cache. -/
theorem syncedConfig_eq_ok {cache : Cache} {installation : Installation} {config : Config}
    (h : cache.syncedConfig = .ok (installation, config)) :
    cache.fresh = true ∧ cache.config = some config := by
  unfold Cache.syncedConfig at h
  split at h
  · rename_i installation' config' hinstallation hconfig
    split at h
    · cases h
      exact ⟨‹_›, hconfig⟩
    · cases h
  · cases h

/-- A send is counted an interval after the last at the earliest. -/
theorem count_eq_ok {interval now now' : ℚ} {lastSend : Option ℚ}
    (h : count interval lastSend now = .ok now') :
    now' = now ∧ ∀ last, lastSend = some last → last + interval ≤ now := by
  unfold count at h
  split at h
  · cases h
    exact ⟨rfl, by simp⟩
  · dsimp only at h
    split at h
    · cases h
    · rename_i last hwait
      cases h
      refine ⟨rfl, ?_⟩
      rintro _ ⟨⟩
      linarith

/-- **How the first step of a call ends**: it passes every check and sends,
or it changes nothing. -/
theorem begin_cases (writes : Writes) (tool : Tool) (arguments : Dict String JsonValue)
    (transactionId : ℤ) (clock : ℚ) :
    (∃ target prepare installation config prepared,
      tool.parse transactionId arguments = some (target, prepare) ∧
      writes.cache.syncedConfig = .ok (installation, config) ∧
      prepare installation config = .ok prepared ∧
      count writes.interval writes.lastSend clock = .ok clock ∧
      writes.begin tool arguments transactionId clock =
        (.sends target prepared, { writes with lastSend := some clock })) ∨
    (∀ target prepared,
      (writes.begin tool arguments transactionId clock).1 ≠ .sends target prepared) ∧
      (writes.begin tool arguments transactionId clock).2 = writes := by
  unfold Writes.begin
  split
  · exact .inr ⟨by simp, rfl⟩
  · rename_i target prepare hparse
    dsimp only
    split
    · exact .inr ⟨by simp, rfl⟩
    · exact .inr ⟨by simp, rfl⟩
    · rename_i prepared now hchecked
      obtain ⟨⟨installation, config⟩, hsynced, hchecked⟩ := bind_eq_ok_iff.1 hchecked
      obtain ⟨prepared', hprepared, hchecked⟩ := bind_eq_ok_iff.1 hchecked
      obtain ⟨now', hcount, hchecked⟩ := bind_eq_ok_iff.1 hchecked
      cases hchecked
      obtain ⟨rfl, -⟩ := count_eq_ok hcount
      exact .inl ⟨target, prepare, installation, config, prepared, hparse, hsynced, hprepared,
        hcount, rfl⟩

/-- What the arguments of a tool are checked into prepares its write. -/
theorem prepares_of_parse {tool : Tool} {arguments : Dict String JsonValue} {transactionId : ℤ}
    {text : String} {prepare : Installation → Config → Checked Prepared}
    {installation : Installation} {config : Config} {prepared : Prepared}
    (hparse : tool.parse transactionId arguments = some (text, prepare))
    (h : prepare installation config = .ok prepared) :
    ∃ target, arguments.get? "target" = some (.str text) ∧ Target.parse text = some target ∧
      Prepares tool arguments config target prepared.request := by
  cases tool with
  | setShutter =>
      obtain ⟨input, hinput, heq⟩ := Option.map_eq_some_iff.1 hparse
      cases heq
      obtain ⟨htext, htarget, harea, hcommand, hposition⟩ := setShutterInput_eq_some hinput
      exact ⟨input.ids, htext, htarget, prepares_shutterWrite hcommand hposition harea h⟩
  | setHeating =>
      obtain ⟨input, hinput, heq⟩ := Option.map_eq_some_iff.1 hparse
      cases heq
      obtain ⟨htext, htarget, hgiven⟩ := setHeatingInput_eq_some hinput
      exact ⟨input.ids, htext, htarget, prepares_heatingWrite hgiven h⟩

/-- **A request is sent only as asked and allowed**, whatever the cache,
the clock and the arguments; where none is sent, the time of the last send
is what it was. -/
theorem begin_sound (writes : Writes) (tool : Tool) (arguments : Dict String JsonValue)
    (transactionId : ℤ) (clock : ℚ) :
    (∀ target prepared,
      (writes.begin tool arguments transactionId clock).1 = .sends target prepared →
        SentSound writes.cache tool arguments prepared.request ∧
        (writes.begin tool arguments transactionId clock).2.lastSend = some clock) ∧
    ((∀ target prepared,
      (writes.begin tool arguments transactionId clock).1 ≠ .sends target prepared) →
        (writes.begin tool arguments transactionId clock).2 = writes) := by
  rcases begin_cases writes tool arguments transactionId clock with
    ⟨text, prepare, installation, config, prepared, hparse, hsynced, hprepared, -, hbegin⟩ |
    ⟨hno, hsame⟩
  · rw [hbegin]
    refine ⟨?_, fun hno => absurd rfl (hno text prepared)⟩
    rintro _ _ ⟨⟩
    obtain ⟨hfresh, hconfig⟩ := syncedConfig_eq_ok hsynced
    obtain ⟨target, htext, htarget, hprepares⟩ := prepares_of_parse hparse hprepared
    obtain ⟨usage, model, given, husage, hallowed, hgiven, hbody⟩ := hprepares.addressed
    exact ⟨⟨hfresh, hprepares.method, hprepares.content, text, target, config, usage, model,
      given, htext, htarget, hprepares.url, hconfig, husage, hallowed, hgiven, hbody⟩, rfl⟩
  · exact ⟨fun target prepared hsends => absurd hsends (hno target prepared), fun _ => hsame⟩

/-- A cache in sync with a config of one shutter. -/
def shutterCache : Cache :=
  ((Cache.init.applyConfig ⟨0, [⟨10, 1, "Kitchen", "shutter"⟩], [], []⟩).markConnected).markSynced 0

/-- The arguments that open a target by half. -/
def halfOpen (target : String) : Dict String JsonValue :=
  Dict.ofList [("target", .str target), ("position", .int 50)]

/-- A shutter opened by half. -/
theorem begin_sound_halfOpen : ∃ prepared writes,
    (⟨shutterCache, 1, none⟩ : Writes).begin .setShutter (halfOpen "e:10:1") 1 0 =
      (.sends "e:10:1" prepared, writes) ∧
    prepared.request.request.request.url = "/devices/10/endpoints/1/data" ∧
    ∃ given, Given (halfOpen "e:10:1") .setShutter given ∧
      BodyOf .shutterWrite given prepared.request.body := by
  refine ⟨_, _, rfl, rfl, ?_⟩
  obtain ⟨hsound, -⟩ :=
    (begin_sound ⟨shutterCache, 1, none⟩ .setShutter (halfOpen "e:10:1") 1 0).1 _ _ rfl
  obtain ⟨text, target, config, usage, model, given, htext, htarget, -, -, -, hallowed, hgiven,
    hbody⟩ := hsound.addressed
  refine ⟨given, hgiven, ?_⟩
  cases hallowed with
  | shutter | shutterGroup => exact hbody

end Mcp

end Tydomio
