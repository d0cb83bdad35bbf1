import Tydomio.Mcp.Cache
import Tydomio.Protocol.Model.Message

/-!
# Snapshots

A response to a read lists endpoints or areas, each of which validates or
not. The response splits them, the cache joins them again: what it holds
after is read off the list (`SnapshotLaw`), whatever it held before.
-/

namespace Tydomio

open Common

namespace Mcp

open Protocol

/-! ## The two lists of a response -/

section Split

variable {K : Type}

/-- **Occurrences split in two**: the items of those that validate, the keys
of those that do not, both in order. -/
inductive Split : List (K × Option DataEndpoint) → List (K × DataEndpoint) → List K → Prop
  | nil : Split [] [] []
  | valid {key item occurrences items invalid} : Split occurrences items invalid →
      Split ((key, some item) :: occurrences) ((key, item) :: items) invalid
  | failed {key occurrences items invalid} : Split occurrences items invalid →
      Split ((key, none) :: occurrences) items (key :: invalid)

variable {occurrences : List (K × Option DataEndpoint)} {items : List (K × DataEndpoint)}
  {invalid : List K} {key : K}

theorem Split.append {occurrences' items' invalid'} (h : Split occurrences items invalid)
    (h' : Split occurrences' items' invalid') :
    Split (occurrences ++ occurrences') (items ++ items') (invalid ++ invalid') := by
  induction h with
  | nil => exact h'
  | valid _ ih => exact .valid ih
  | failed _ ih => exact .failed ih

theorem Split.mem_invalid (h : Split occurrences items invalid) :
    key ∈ invalid ↔ (key, none) ∈ occurrences := by
  induction h with
  | nil => exact iff_of_false List.not_mem_nil List.not_mem_nil
  | valid _ ih => simp [ih]
  | failed _ ih => simp [ih]

variable [DecidableEq K]

/-- What is valid under a key is in order what validated. -/
theorem Split.itemsOf_occurrences (h : Split occurrences items invalid)
    (hvalid : (key, none) ∉ occurrences) :
    Dict.itemsOf key occurrences = (Dict.itemsOf key items).map some := by
  induction h with
  | nil => rfl
  | @valid key' item occurrences items invalid _ ih =>
      have ih' := ih fun hmem => hvalid (List.mem_cons_of_mem _ hmem)
      rw [Dict.itemsOf] at ih' ⊢
      by_cases hkey : key' = key <;> simp [Dict.itemsOf, hkey, ih']
  | @failed key' occurrences items invalid _ ih =>
      have ih' := ih fun hmem => hvalid (List.mem_cons_of_mem _ hmem)
      have hkey : key' ≠ key := fun heq => hvalid (heq ▸ List.mem_cons_self)
      rw [Dict.itemsOf] at ih' ⊢
      simp [hkey, ih']

end Split

/-! ## The cache after -/

section Law

variable {K : Type} [DecidableEq K]

/-- **What a snapshot leaves of each key**: of a configured one that occurs
an entity, marked where an occurrence failed, and otherwise with the fields
and the error of the last one alone. -/
structure SnapshotLaw (configured : K → Prop) (occurrences : List (K × Option DataEndpoint))
    (entities : Dict K Entity) : Prop where
  held : ∀ key, (entities.get? key).isSome = true ↔
    configured key ∧ ∃ data, (key, data) ∈ occurrences
  invalid : ∀ key entity, entities.get? key = some entity →
    (entity.invalid = true ∧ entity.fields = ∅ ↔ (key, none) ∈ occurrences)
  last : ∀ key entity, entities.get? key = some entity → (key, none) ∉ occurrences →
    ∃ item, (Dict.itemsOf key occurrences).getLast? = some (some item) ∧
      entity.invalid = false ∧ entity.error = item.error ∧
      ∀ name, entity.fields.get? name = lastDatum name [item]

variable {usages : Dict K String} {configured : K → Prop}
  {occurrences : List (K × Option DataEndpoint)} {items : List (K × DataEndpoint)}
  {invalid : List K}

/-- The entity of a key after a snapshot. -/
theorem get?_snapshot (hconfigured : ∀ key, configured key ↔ key ∈ usages) (key : K) :
    ((replaceEntities usages items invalid).get? key = none ∧ ¬ configured key) ∨
    configured key ∧ (replaceEntities usages items invalid).get? key =
      if key ∈ invalid then some .invalidState
      else (Dict.itemsOf key items).getLast?.map Entity.empty.merge := by
  rw [get?_replaceEntities items invalid key none, snapshotEvent, keyStep]
  by_cases husage : (usages.get? key).isSome = true
  · refine .inr ⟨(hconfigured key).2 (Dict.contains_iff.1 husage), ?_⟩
    rw [if_pos husage]
    simp only [decide_eq_true_eq]
  · refine .inl ⟨if_neg husage, fun h => husage ?_⟩
    exact Dict.contains_iff.2 ((hconfigured key).1 h)

/-- An entity is that of a configured key, and is marked or is the last item
that validated. -/
theorem Split.get?_eq_some (h : Split occurrences items invalid)
    (hconfigured : ∀ key, configured key ↔ key ∈ usages) {key : K} {entity : Entity}
    (hentity : (replaceEntities usages items invalid).get? key = some entity) :
    (key, none) ∈ occurrences ∧ entity = .invalidState ∨
    (key, none) ∉ occurrences ∧ ∃ item,
      (Dict.itemsOf key occurrences).getLast? = some (some item) ∧
        entity = Entity.empty.merge item := by
  rcases get?_snapshot hconfigured key with ⟨hnone, -⟩ | ⟨-, hget⟩
  · rw [hnone] at hentity
    cases hentity
  · rw [hget] at hentity
    by_cases hinvalid : key ∈ invalid
    · rw [if_pos hinvalid] at hentity
      exact .inl ⟨h.mem_invalid.1 hinvalid, (Option.some.inj hentity).symm⟩
    · have hvalid : (key, none) ∉ occurrences := fun hmem => hinvalid (h.mem_invalid.2 hmem)
      rw [if_neg hinvalid] at hentity
      obtain ⟨item, hlast, rfl⟩ := Option.map_eq_some_iff.1 hentity
      refine .inr ⟨hvalid, item, ?_, rfl⟩
      rw [h.itemsOf_occurrences hvalid, List.getLast?_map, hlast]
      rfl

/-- **A split list leaves what it lists.** -/
theorem Split.law (h : Split occurrences items invalid)
    (hconfigured : ∀ key, configured key ↔ key ∈ usages) :
    SnapshotLaw configured occurrences (replaceEntities usages items invalid) where
  held key := by
    rcases get?_snapshot hconfigured key with ⟨hnone, hnot⟩ | ⟨hconf, hget⟩
    · rw [hnone]
      exact iff_of_false nofun fun hc => hnot hc.1
    · rw [hget, and_iff_right hconf]
      split
      · rename_i hinvalid
        exact iff_of_true rfl ⟨none, h.mem_invalid.1 hinvalid⟩
      · rename_i hinvalid
        have hvalid : (key, none) ∉ occurrences := fun hmem => hinvalid (h.mem_invalid.2 hmem)
        have hnil : Dict.itemsOf key items = [] ↔ Dict.itemsOf key occurrences = [] := by
          rw [h.itemsOf_occurrences hvalid, List.map_eq_nil_iff]
        rw [Option.isSome_map, List.getLast?_isSome, ne_eq, hnil,
          List.eq_nil_iff_forall_not_mem]
        simp only [Dict.mem_itemsOf, not_forall, not_not]
  invalid key entity hentity := by
    rcases h.get?_eq_some hconfigured hentity with ⟨hfailed, rfl⟩ | ⟨hvalid, item, -, rfl⟩
    · exact iff_of_true ⟨rfl, rfl⟩ hfailed
    · exact iff_of_false (fun hc => Bool.false_ne_true hc.1) hvalid
  last key entity hentity hvalid := by
    rcases h.get?_eq_some hconfigured hentity with ⟨hfailed, -⟩ | ⟨-, item, hlast, rfl⟩
    · exact absurd hfailed hvalid
    · refine ⟨item, hlast, rfl, rfl, fun name => ?_⟩
      rw [get?_merge]
      exact Option.or_none

end Law

/-! ## Responses -/

/-- **The id of a validated endpoint** is the one received: an integer is
taken as it is. -/
def KeepsIds (codec : Codec) : Prop :=
  ∀ raw endpoint, codec.endpoint raw = some endpoint → endpoint.id = raw.id

section Responses

variable (codec : Codec)

/-- The endpoints of a response, by key, with what each validates to. -/
def deviceOccurrences (devices : List RawDevice) : List ((ℤ × ℤ) × Option DataEndpoint) :=
  devices.flatMap fun device =>
    device.endpoints.map fun raw => ((device.id, raw.id), codec.endpoint raw)

/-- The areas of a response. -/
def areaOccurrences (areas : List RawEntity) : List (ℤ × Option DataEndpoint) :=
  areas.map fun raw => (raw.id, codec.endpoint raw)

variable {codec}

/-- The endpoints or areas of one list, under the key of each. -/
theorem split_entities {K : Type} (hcodec : KeepsIds codec) (key : ℤ → K)
    (raws : List RawEntity) :
    Split (raws.map fun raw => (key raw.id, codec.endpoint raw))
      ((raws.filterMap codec.endpoint).map fun endpoint => (key endpoint.id, endpoint))
      ((raws.filter fun raw => (codec.endpoint raw).isNone).map fun raw => key raw.id) := by
  induction raws with
  | nil => exact .nil
  | cons raw raws ih =>
      cases hraw : codec.endpoint raw with
      | none => simpa [hraw] using ih.failed
      | some endpoint => simpa [hraw, hcodec raw endpoint hraw] using ih.valid

theorem split_devices (hcodec : KeepsIds codec) (devices : List RawDevice) :
    Split (deviceOccurrences codec devices)
      (deviceItems (devices.map fun device => ⟨device.id, (splitEndpoints codec device).1⟩))
      (devices.flatMap fun device => (splitEndpoints codec device).2) := by
  induction devices with
  | nil => exact .nil
  | cons device devices ih =>
      exact (split_entities hcodec (fun id => (device.id, id)) device.endpoints).append ih

theorem split_areas (hcodec : KeepsIds codec) (areas : List RawEntity) :
    Split (areaOccurrences codec areas) (areaItems (areas.filterMap codec.endpoint))
      ((areas.filter fun raw => (codec.endpoint raw).isNone).map RawEntity.id) :=
  split_entities hcodec id areas

end Responses

/-! ## Responses in the cache -/

/-- **A cache with a config**: its usages are those of the config. -/
structure Cache.HasConfig (cache : Cache) (config : Config) : Prop where
  held : cache.config = some config
  endpoints : cache.endpointUsages = config.endpointUsages
  areas : cache.areaUsages = config.areaUsages

/-- Any operations leave a cache with its config, if it has one. -/
theorem hasConfig_applyAll {ops : List CacheOp} {config : Config}
    (h : (applyAll ops .init).config = some config) : (applyAll ops .init).HasConfig config := by
  induction ops using List.reverseRecOn with
  | nil => cases h
  | append_singleton ops op ih =>
      rw [applyAll, List.foldl_append] at h ⊢
      cases op with
      | applyConfig config' =>
          cases h
          exact ⟨rfl, rfl, rfl⟩
      | replaceDevices | mergeDevices | replaceAreas | mergeAreas =>
          have hbefore := ih h
          exact ⟨hbefore.held, hbefore.endpoints, hbefore.areas⟩

/-- The config lists an endpoint. -/
def ListsEndpoint (config : Config) (key : ℤ × ℤ) : Prop :=
  ∃ endpoint ∈ config.endpoints, (endpoint.idDevice, endpoint.idEndpoint) = key

/-- It lists an area. -/
def ListsArea (config : Config) (key : ℤ) : Prop := ∃ area ∈ config.areas, area.id = key

theorem listsEndpoint_iff {config : Config} {key : ℤ × ℤ} :
    ListsEndpoint config key ↔ key ∈ config.endpointUsages := by
  rw [Config.endpointUsages, Dict.mem_ofList, List.map_map, List.mem_map]
  rfl

theorem listsArea_iff {config : Config} {key : ℤ} :
    ListsArea config key ↔ key ∈ config.areaUsages := by
  rw [Config.areaUsages, Dict.mem_ofList, List.map_map, List.mem_map]
  rfl

/-- **A snapshot of what a response lists**: it is split in two, and the
entities after it follow from the list and from no entity before. -/
structure SnapshotOf {K : Type} [DecidableEq K] (configured : K → Prop)
    (occurrences : List (K × Option DataEndpoint)) (items : List (K × DataEndpoint))
    (invalid : List K) (replace : Dict K Entity → Dict K Entity) : Prop where
  split : Split occurrences items invalid
  law : ∀ before, SnapshotLaw configured occurrences (replace before)
  fresh : ∀ before before', replace before = replace before'

/-- **A response splits what it lists, and the cache holds just that** of
what its config lists, of endpoints and of areas. -/
theorem snapshotOf_response {codec : Codec} (hcodec : KeepsIds codec) {cache : Cache}
    {config : Config} (hcache : cache.HasConfig config) (response : Response) :
    (∀ data invalid, devicesDataResponse codec response = .ok (data, invalid) →
      ∃ content devices, originContent "/devices/data" response = .ok content ∧
        codec.devicesEnvelope content = some devices ∧
        data.map ModelItem.id = devices.map RawDevice.id ∧
        SnapshotOf (ListsEndpoint config) (deviceOccurrences codec devices) (deviceItems data)
          invalid fun before =>
            ({ cache with endpoints := before }.replaceDevices data invalid).endpoints) ∧
    (∀ data invalid, areasDataResponse codec response = .ok (data, invalid) →
      ∃ content areas, originContent "/areas/data" response = .ok content ∧
        codec.areasEnvelope content = some areas ∧
        SnapshotOf (ListsArea config) (areaOccurrences codec areas) (areaItems data)
          invalid fun before =>
            ({ cache with areas := before }.replaceAreas data invalid).areas) := by
  refine ⟨fun data invalid h => ?_, fun data invalid h => ?_⟩
  · cases hcontent : originContent "/devices/data" response with
    | error e => simp [devicesDataResponse, hcontent, bind, Except.bind] at h
    | ok content =>
        cases hdevices : codec.devicesEnvelope content with
        | none => simp [devicesDataResponse, hcontent, hdevices, validated, bind, Except.bind] at h
        | some devices =>
            simp only [devicesDataResponse, hcontent, hdevices, validated, bind, Except.bind,
              pure, Except.pure, Except.ok.injEq, Prod.mk.injEq] at h
            obtain ⟨rfl, rfl⟩ := h
            have hsplit := split_devices hcodec devices
            refine ⟨content, devices, rfl, hdevices, ?_, hsplit, fun before => ?_, fun _ _ => rfl⟩
            · rw [List.map_map]
              rfl
            · refine hsplit.law fun key => ?_
              rw [listsEndpoint_iff, ← hcache.endpoints]
  · cases hcontent : originContent "/areas/data" response with
    | error e => simp [areasDataResponse, hcontent, bind, Except.bind] at h
    | ok content =>
        cases hareas : codec.areasEnvelope content with
        | none => simp [areasDataResponse, hcontent, hareas, validated, bind, Except.bind] at h
        | some areas =>
            simp only [areasDataResponse, hcontent, hareas, validated, bind, Except.bind,
              pure, Except.pure, Except.ok.injEq, Prod.mk.injEq] at h
            obtain ⟨rfl, rfl⟩ := h
            have hsplit := split_areas hcodec areas
            refine ⟨content, areas, rfl, hareas, hsplit, fun before => ?_, fun _ _ => rfl⟩
            refine hsplit.law fun key => ?_
            rw [listsArea_iff, ← hcache.areas]

/-- A device that lists an endpoint twice, the second time without data. -/
def listing : Bytes :=
  bytesOf ("[\x7b\"id\":1,\"endpoints\":" ++
    "[\x7b\"id\":10,\"error\":0,\"data\":[]\x7d,\x7b\"id\":10\x7d]\x7d]")

/-- A codec that reads it, and takes an endpoint without data items. -/
def listingCodec : Codec where
  loads _ := .error .jsonDecodeError
  devicesData _ := none
  areasData _ := none
  config _ := none
  devicesEnvelope body :=
    if body = listing then
      some [⟨1, [⟨10, .dict [("id", .int 10), ("error", .int 0), ("data", .list [])]⟩,
        ⟨10, .dict [("id", .int 10)]⟩]⟩]
    else none
  areasEnvelope _ := none
  endpoint raw :=
    match raw.raw with
    | .dict [_, ("error", .int error), ("data", .list [])] => some ⟨raw.id, error, []⟩
    | _ => none

/-- The response with it. -/
def listingResponse : Response :=
  ⟨200, Dict.ofList [("uri-origin", "/devices/data")], some listing⟩

theorem snapshotOf_listing :
    ∃ content devices, originContent "/devices/data" listingResponse = .ok content ∧
      listingCodec.devicesEnvelope content = some devices ∧
      [1] = devices.map RawDevice.id ∧
      SnapshotOf (ListsEndpoint ⟨0, [⟨1, 10, "Kitchen", "shutter"⟩], [], []⟩)
        (deviceOccurrences listingCodec devices) [((1, 10), ⟨10, 0, []⟩)] [(1, 10)] fun before =>
          ({ Cache.init.applyConfig ⟨0, [⟨1, 10, "Kitchen", "shutter"⟩], [], []⟩ with
            endpoints := before }.replaceDevices [⟨1, [⟨10, 0, []⟩]⟩] [(1, 10)]).endpoints := by
  have hids : KeepsIds listingCodec := by
    intro raw endpoint h
    simp only [listingCodec] at h
    split at h
    · cases h
      rfl
    · cases h
  have hcontent : originContent "/devices/data" listingResponse = .ok listing := rfl
  have hread : devicesDataResponse listingCodec listingResponse =
      .ok ([⟨1, [⟨10, 0, []⟩]⟩], [(1, 10)]) := by
    simp [devicesDataResponse, hcontent, listingCodec, splitEndpoints, validated, bind,
      Except.bind, pure, Except.pure]
  let config : Config := ⟨0, [⟨1, 10, "Kitchen", "shutter"⟩], [], []⟩
  have hcache : (applyAll [.applyConfig config] .init).HasConfig config := hasConfig_applyAll rfl
  exact (snapshotOf_response hids hcache listingResponse).1 _ _ hread

end Mcp

end Tydomio
