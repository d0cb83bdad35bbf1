import Tydomio.Mcp.Model.Server
import Tydomio.Mcp.OnWire
import Tydomio.Mcp.Rate

/-!
# Before the send

Each check of a write refuses the call or lets it go on: no exception leaves
a call before its send. The request a call makes is a write of its target,
and what a call sends it made.
-/

namespace Tydomio

open Common Protocol

namespace Mcp

/-! ## Checks that refuse -/

/-- A check that lets no exception through. -/
def Refuses {α : Type} (x : Checked α) : Prop := ∀ e, x ≠ .error (.raised e)

/-- A check that passes raises nothing. -/
theorem refuses_ok {α : Type} (a : α) : Refuses (.ok a) := by
  intro e h
  cases h

/-- Nor does one that refuses. -/
theorem refuses_refuse {α : Type} (refused : Refused) : Refuses (refuse refused : Checked α) := by
  intro e h
  cases h

/-- Checks one after the other refuse where each does, given what passed the ones
before. -/
theorem Refuses.bind {α β : Type} {x : Checked α} {f : α → Checked β} (hx : Refuses x)
    (hf : ∀ a, x = .ok a → Refuses (f a)) : Refuses (x >>= f) := by
  intro e h
  rcases bind_eq_error_iff.1 h with h | ⟨a, ha, h⟩
  · exact hx e h
  · exact hf a ha e h

/-- An installation refuses a target with `InvalidTarget` only. -/
theorem refuses_checkRef {R : Type} {x : Except Exc R}
    (h : ∀ e, x = .error e → ∃ message, e = .invalidTarget message) : Refuses (checkRef x) := by
  cases x with
  | ok ref => exact refuses_ok ref
  | error e =>
      obtain ⟨message, rfl⟩ := h e rfl
      exact refuses_refuse _

/-- Another usage than the one asked for is an `InvalidTarget`. -/
theorem error_of_checkUsage {kind name : String} {usage : UsageModel} {α : Type} {f : Unit → α}
    {e : Exc} (h : (checkUsage kind name usage).map f = .error e) :
    ∃ message, e = .invalidTarget message := by
  unfold checkUsage at h
  split at h
  · cases h
  · cases h
    exact ⟨_, rfl⟩

/-- So is an endpoint that is not there, or of another usage. -/
theorem error_of_endpoint {installation : Installation} {deviceId endpointId : ℤ}
    {usage : UsageModel} {e : Exc}
    (h : installation.endpoint deviceId endpointId usage = .error e) :
    ∃ message, e = .invalidTarget message := by
  unfold Installation.endpoint at h
  split at h
  · cases h
    exact ⟨_, rfl⟩
  · exact error_of_checkUsage h

/-- A group, likewise. -/
theorem error_of_group {installation : Installation} {groupId : ℤ} {usage : UsageModel} {e : Exc}
    (h : installation.group groupId usage = .error e) : ∃ message, e = .invalidTarget message := by
  unfold Installation.group at h
  split at h
  · cases h
    exact ⟨_, rfl⟩
  · exact error_of_checkUsage h

/-- An area that is not there. -/
theorem error_of_area {installation : Installation} {areaId : ℤ} {e : Exc}
    (h : installation.area areaId = .error e) : ∃ message, e = .invalidTarget message := by
  unfold Installation.area at h
  split at h
  · cases h
  · cases h
    exact ⟨_, rfl⟩

/-- A mapped result has the error of the result. -/
theorem error_of_map {α β : Type} {x : Except Exc α} {f : α → β} {e : Exc}
    (h : x.map f = .error e) : x = .error e := by
  cases x with
  | ok a => cases h
  | error e' =>
      cases h
      rfl

/-- A target that the config does not list is refused. -/
theorem refuses_usageOfTarget (config : Config) (target : Target) :
    Refuses (usageOfTarget config target) := by
  unfold usageOfTarget
  split
  · exact refuses_refuse _
  · exact refuses_ok _

/-- Fields that do not validate are refused. -/
theorem refuses_validated (model : WriteModel) (fields : Dict String JsonValue) :
    Refuses (validated model fields) := by
  unfold validated modelValidate
  dsimp only
  split
  · exact refuses_ok _
  · exact refuses_refuse _
  · rename_i e hmessage herror
    split at herror
    · cases herror
      exact absurd rfl (hmessage _)
    · split at herror
      · cases herror
      · cases herror
        exact absurd rfl (hmessage _)

/-- What validates is a write of the model asked for. -/
theorem model_of_validated {model : WriteModel} {fields : Dict String JsonValue}
    {write : UsageWrite} (h : validated model fields = .ok write) : write.model = model := by
  rw [validated_eq_ok_iff] at h
  unfold modelValidate at h
  dsimp only at h
  split at h
  · cases h
  · split at h
    · cases h
      rfl
    · cases h

/-- A write of its usage's model is let into a request. -/
theorem refuses_init {url : String} {usage : UsageModel} {write : UsageWrite} {transactionId : ℤ}
    (h : writes usage = some write.model) :
    Refuses (letThrough (WriteRequest.init url usage write transactionId)) := by
  obtain ⟨revalidated, hvalid, -⟩ := modelValidate_toDict write
  rw [WriteRequest.init, hvalid, if_neg (not_not.2 h)]
  exact refuses_ok _

/-- **A shutter write is refused or made**: its reference is to a shutter, so the
request takes its fields. -/
theorem refuses_shutterWrite (installation : Installation) (config : Config)
    (input : SetShutterInput) (transactionId : ℤ) :
    Refuses (shutterWrite installation config input transactionId) := by
  refine (refuses_usageOfTarget _ _).bind fun usage _ => ?_
  split
  · have href : Refuses (shutterRef installation input.ids) := by
      unfold shutterRef
      split
      · exact refuses_checkRef fun e he => error_of_endpoint (error_of_map he)
      · exact refuses_checkRef fun e he => error_of_group (error_of_map he)
      · exact refuses_checkRef fun e he => error_of_group (error_of_map he)
    have hfields : Refuses (shutterFields input) := by
      unfold shutterFields
      split
      · exact refuses_ok _
      · exact refuses_ok _
      · exact refuses_refuse _
    refine href.bind fun ref href => hfields.bind fun fields _ =>
      (refuses_validated _ _).bind fun write hwrite => ?_
    have hmodel := model_of_validated hwrite
    refine Refuses.bind ?_ fun request _ => refuses_ok _
    -- the reference is of a shutter
    unfold shutterRef at href
    split at href
    · obtain ⟨ref', href', rfl⟩ := map_eq_ok_iff.1 (checkRef_eq_ok_iff.1 href)
      cases endpoint_eq_ok href'
      exact refuses_init (by rw [hmodel]; rfl)
    · obtain ⟨ref', href', rfl⟩ := map_eq_ok_iff.1 (checkRef_eq_ok_iff.1 href)
      cases group_eq_ok href'
      exact refuses_init (by rw [hmodel]; rfl)
    · obtain ⟨ref', href', rfl⟩ := map_eq_ok_iff.1 (checkRef_eq_ok_iff.1 href)
      cases group_eq_ok href'
      exact refuses_init (by rw [hmodel]; rfl)
  · exact refuses_refuse _

/-- **A heating write is refused or made**: only the usages that have a write
model are let through to it. -/
theorem refuses_heatingWrite (installation : Installation) (config : Config)
    (input : SetHeatingInput) (transactionId : ℤ) :
    Refuses (heatingWrite installation config input transactionId) := by
  unfold heatingWrite
  split
  · exact refuses_refuse _
  · refine (refuses_usageOfTarget _ _).bind fun usage _ => ?_
    split
    · refine (refuses_checkRef fun e he => error_of_area he).bind fun area _ =>
        (refuses_validated _ _).bind fun write hwrite => ?_
      refine Refuses.bind ?_ fun request _ => refuses_ok _
      exact refuses_init (by rw [model_of_validated hwrite]; rfl)
    · exact refuses_refuse _
  · refine (refuses_usageOfTarget _ _).bind fun usage _ => ?_
    split
    · exact refuses_refuse _
    · rename_i model hmodel
      split
      · rename_i hmem
        have hkind : model = .boiler ∨ model = .re2020ControlBoiler := by
          simpa [heatingEndpointUsages, heatingUsages] using hmem
        have hwriteModel : ∃ write, writes model = some write := by
          rcases hkind with rfl | rfl
          · exact ⟨_, rfl⟩
          · exact ⟨_, rfl⟩
        obtain ⟨writeModel, hwrites⟩ := hwriteModel
        have hof : writeModelOf model = .ok writeModel := by
          unfold writeModelOf
          rw [hwrites]
        refine (refuses_checkRef fun e he => error_of_endpoint he).bind fun endpoint hendpoint => ?_
        rw [hof]
        refine (refuses_ok _).bind fun writeModel' hok => ?_
        cases hok
        refine (refuses_validated _ _).bind fun write hwrite => ?_
        refine Refuses.bind ?_ fun request _ => refuses_ok _
        cases endpoint_eq_ok (checkRef_eq_ok_iff.1 hendpoint)
        exact refuses_init (by rw [model_of_validated hwrite]; exact hwrites)
      · exact refuses_refuse _

/-- A cache that is not fresh refuses. -/
theorem refuses_syncedConfig (cache : Cache) : Refuses cache.syncedConfig := by
  unfold Cache.syncedConfig
  split
  · split
    · exact refuses_ok _
    · exact refuses_refuse _
  · exact refuses_refuse _

/-- Too many writes are refused. -/
theorem refuses_count (interval : ℚ) (lastSend : Option ℚ) (now : ℚ) :
    Refuses (count interval lastSend now) := by
  unfold count
  split
  · exact refuses_ok _
  · dsimp only
    split
    · exact refuses_refuse _
    · exact refuses_ok _

/-- What a tool prepares is refused or made. -/
theorem refuses_prepare {tool : Tool} {arguments : Dict String JsonValue} {transactionId : ℤ}
    {text : String} {prepare : Installation → Config → Checked Prepared}
    (h : tool.parse transactionId arguments = some (text, prepare)) (installation : Installation)
    (config : Config) : Refuses (prepare installation config) := by
  cases tool with
  | setShutter =>
      obtain ⟨input, -, heq⟩ := Option.map_eq_some_iff.1 h
      cases heq
      exact refuses_shutterWrite _ _ _ _
  | setHeating =>
      obtain ⟨input, -, heq⟩ := Option.map_eq_some_iff.1 h
      cases heq
      exact refuses_heatingWrite _ _ _ _

/-- **No exception leaves a call before its send.** -/
theorem begin_ne_raised (writes : Writes) (tool : Tool) (arguments : Dict String JsonValue)
    (transactionId : ℤ) (clock : ℚ) (e : Exc) :
    (writes.begin tool arguments transactionId clock).1 ≠ .raised e := by
  intro h
  unfold Writes.begin at h
  split at h
  · cases h
  · rename_i text prepare hparse
    dsimp only at h
    split at h
    · cases h
    · rename_i error hchecked
      rcases bind_eq_error_iff.1 hchecked with h | ⟨⟨installation, config⟩, -, hchecked⟩
      · exact refuses_syncedConfig _ _ h
      rcases bind_eq_error_iff.1 hchecked with h | ⟨prepared, -, hchecked⟩
      · exact refuses_prepare hparse installation config _ h
      rcases bind_eq_error_iff.1 hchecked with h | ⟨now, -, hchecked⟩
      · exact refuses_count _ _ _ _ h
      · cases hchecked
    · cases h

/-! ## The requests made -/

/-- What a call makes is the `PUT` of its target. -/
theorem makes_eq_some {writes : Writes} {tool : Tool} {arguments : Dict String JsonValue}
    {transactionId : ℤ} {request : WriteRequest}
    (h : writes.makes tool arguments transactionId = some request) :
    ∃ target fields, request.request = ⟨putRequest target fields transactionId, .ok⟩ := by
  unfold Writes.makes at h
  obtain ⟨⟨text, prepare⟩, hparse, h⟩ := Option.bind_eq_some_iff.1 h
  obtain ⟨prepared, hprepared, rfl⟩ := Option.map_eq_some_iff.1 h
  obtain ⟨synced, -, hprepared⟩ := Option.bind_eq_some_iff.1 hprepared
  dsimp only at hprepared
  cases hprepare : prepare synced.1 synced.2 with
  | error e =>
      rw [hprepare] at hprepared
      cases hprepared
  | ok prepared' =>
      rw [hprepare] at hprepared
      cases hprepared
      obtain ⟨target, -, hrequest⟩ := request_of_parse hparse hprepare
      exact ⟨target, _, hrequest⟩

/-- What a call sends it made. -/
theorem makes_of_begin {writes : Writes} {tool : Tool} {arguments : Dict String JsonValue}
    {transactionId : ℤ} {clock : ℚ} {text : String} {prepared : Prepared}
    (h : (writes.begin tool arguments transactionId clock).1 = .sends text prepared) :
    writes.makes tool arguments transactionId = some prepared.request := by
  rcases begin_cases writes tool arguments transactionId clock with
    ⟨text', prepare, installation, config, prepared', hparse, hsynced, hprepared, -, hbegin⟩ |
    ⟨hno, -⟩
  · rw [hbegin] at h
    cases h
    simp only [Writes.makes, hparse, hsynced, hprepared, Option.bind_some, Except.toOption,
      Option.map_some]
  · exact absurd h (hno text prepared)

/-- What a call sends is sound for the cache it was checked against. -/
theorem sentSound_of_begin {writes : Writes} {tool : Tool} {arguments : Dict String JsonValue}
    {transactionId : ℤ} {clock : ℚ} {text : String} {prepared : Prepared}
    (h : (writes.begin tool arguments transactionId clock).1 = .sends text prepared) :
    SentSound writes.cache tool arguments prepared.request := by
  rcases begin_cases writes tool arguments transactionId clock with
    ⟨text', prepare, installation, config, prepared', hparse, hsynced, hprepared, -, hbegin⟩ |
    ⟨hno, -⟩
  · rw [hbegin] at h
    cases h
    obtain ⟨hfresh, hconfig⟩ := syncedConfig_eq_ok hsynced
    obtain ⟨target, htext, htarget, hprepares⟩ := prepares_of_parse hparse hprepared
    obtain ⟨usage, model, given, husage, hallowed, hgiven, hbody⟩ := hprepares.addressed
    exact ⟨hfresh, hprepares.method, hprepares.content, text, target, config, usage, model,
      given, htext, htarget, hprepares.url, hconfig, husage, hallowed, hgiven, hbody⟩
  · exact absurd h (hno text prepared)

end Mcp

end Tydomio
