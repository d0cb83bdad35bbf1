import Tydomio.Mcp.Cache
import Tydomio.Readings

/-!
# Two readings of a push

A push is read by the installation, at the first item of an endpoint or
area, and by the cache, which merges all of them. Both read the last datum of
each name: the one of the first item, the other of all. They agree where
these data read alike, and on a push that lists each endpoint once.
-/

namespace Tydomio

open Common

/-- Items under their own names are those by name. -/
theorem byName_values {items : Dict String Data}
    (h : ∀ name item, items.get? name = some item → item.name = name) :
    byName items.values = items := by
  have hentries : items.values.map (fun item => (item.name, item)) = items.entries := by
    rw [Dict.values, List.map_map]
    refine (List.map_congr_left fun e he => ?_).trans (List.map_id _)
    rw [Function.comp_apply, h e.1 e.2 (Dict.get?_eq_some_iff.2 he)]
    rfl
  refine Dict.ext ?_
  rw [byName, hentries, Dict.entries_ofList items.nodup]

namespace Mcp

/-- The last datum of a name, by name. -/
theorem get?_byName_flatMap (items : List DataEndpoint) (name : String) :
    (byName (items.flatMap DataEndpoint.data)).get? name = lastDatum name items := by
  rw [get?_byName, List.getLast?_filter, lastDatum]

/-! ## The first item -/

theorem firstEndpoint_eq (deviceId endpointId : ℤ) (data : DevicesData) :
    Installation.firstEndpoint deviceId endpointId data =
      (Dict.itemsOf (deviceId, endpointId) (deviceItems data)).head? := by
  induction data with
  | nil => rfl
  | cons device data ih =>
      have hitems : Dict.itemsOf (deviceId, endpointId) (deviceItems (device :: data)) =
          Dict.itemsOf (deviceId, endpointId)
            (device.endpoints.map fun endpoint => ((device.id, endpoint.id), endpoint)) ++
          Dict.itemsOf (deviceId, endpointId) (deviceItems data) := by
        rw [deviceItems, List.flatMap_cons, Dict.itemsOf, List.filter_append, List.map_append]
        rfl
      rw [Installation.firstEndpoint, hitems, List.head?_append, Dict.itemsOf_map, List.map_id',
        ← ih, List.head?_filter]
      by_cases hdevice : device.id = deviceId
      · simp [hdevice]
      · rw [if_pos hdevice, List.find?_eq_none.2 (by simp [hdevice]), Option.none_or]

theorem firstArea_eq (areaId : ℤ) (data : AreasData) :
    (data.find? fun area => area.id = areaId) = (Dict.itemsOf areaId (areaItems data)).head? := by
  rw [areaItems, Dict.itemsOf_map, List.map_id', List.head?_filter]

/-! ## All of them -/

section Agree

variable (lax : Lax) (model : UsageModel)

/-- The reading of the first item. -/
def readFirst (items : List DataEndpoint) : Except Exc (Option Typed) :=
  match items.head? with
  | none => .ok none
  | some item => (fromData lax model item.data).map some

/-- **Two readings agree**: the one is of nothing where the other is, and
otherwise they are one model or one exception. -/
structure ReadingsAgree (read : Except Exc (Option Typed)) (entity : Option Entity) : Prop where
  none : read = .ok none ↔ entity = none
  some : ∀ x, entity = some x → ∃ result, read = result.map some ∧
    SameResult result (fromData lax model x.fields.values)

/-- What is read of an entity merged from items. -/
theorem fromData_merged {items : List DataEndpoint} (hne : items ≠ []) :
    ∃ x, items.foldl (fun v a => some ((v.getD Entity.empty).merge a)) none = some x ∧
      ∀ name, (byName x.fields.values).get? name = lastDatum name items := by
  obtain ⟨x, hx, -, -, hfields⟩ := foldl_merge items none hne
  have hempty : ∀ name, x.fields.get? name = lastDatum name items := by
    intro name
    rw [hfields]
    exact Option.or_none
  refine ⟨x, hx, fun name => ?_⟩
  rw [byName_values, hempty]
  intro name item hitem
  rw [hempty, ← get?_byName_flatMap] at hitem
  exact (name_of_get?_byName hitem).1

/-- **The readings agree** where the last datum of each name, in the first
item and in all of them, reads alike. -/
theorem readingsAgree_iff_readAlike (items : List DataEndpoint) :
    ReadingsAgree lax model (readFirst lax model items)
      (items.foldl (fun v a => some ((v.getD Entity.empty).merge a)) none) ↔
    ReadAlike lax model (lastDatum · items.head?.toList) (lastDatum · items) := by
  cases items with
  | nil =>
      exact iff_of_true ⟨iff_of_true rfl rfl, nofun⟩
        ⟨fun _ _ => Iff.rfl, fun _ _ _ => rfl, fun _ _ _ => rfl⟩
  | cons item items =>
      obtain ⟨x, hx, hfields⟩ := fromData_merged (List.cons_ne_nil item items)
      have hfirst : ∀ name, (byName item.data).get? name = lastDatum name [item] := by
        intro name
        rw [← get?_byName_flatMap, List.flatMap_singleton]
      have halike := @sameResult_fromData_iff lax model item.data x.fields.values
      rw [funext hfirst, funext hfields] at halike
      rw [hx]
      refine Iff.trans ?_ halike
      constructor
      · intro hagree
        obtain ⟨result, hresult, hsame⟩ := hagree.some x rfl
        have heq : fromData lax model item.data = result := by
          have hmap : Function.Injective (Except.map (ε := Exc) (some : Typed → Option Typed)) := by
            rintro (_ | _) (_ | _) h <;> cases h <;> rfl
          exact hmap hresult
        rwa [heq]
      · intro hsame
        refine ⟨iff_of_false ?_ nofun, ?_⟩
        · intro hread
          change (fromData lax model item.data).map some = .ok none at hread
          cases hdata : fromData lax model item.data <;> rw [hdata] at hread <;> cases hread
        · rintro _ ⟨⟩
          exact ⟨_, rfl, hsame⟩

end Agree

/-! ## A push -/

/-- The items of an endpoint in a push. -/
def endpointItems (data : DevicesData) (deviceId endpointId : ℤ) : List DataEndpoint :=
  Dict.itemsOf (deviceId, endpointId) (deviceItems data)

/-- Those of an area. -/
def areaItemsOf (data : AreasData) (areaId : ℤ) : List DataEndpoint :=
  Dict.itemsOf areaId (areaItems data)

/-- What a push leaves in a cache that holds a config alone. -/
theorem get?_mergeEntities_empty {K : Type} [DecidableEq K] {usages : Dict K String}
    {entities : Dict K Entity} {items : List (K × DataEndpoint)} {key : K}
    (hkey : key ∈ usages) (hnone : entities.get? key = none) :
    (mergeEntities usages items entities).get? key =
      (Dict.itemsOf key items).foldl (fun v a => some ((v.getD Entity.empty).merge a)) none := by
  have husage : (usages.get? key).isSome = true := Dict.contains_iff.2 hkey
  rw [get?_mergeEntities, pushEvent, keyStep, if_pos husage, hnone]

/-- **The typed readings of a push agree** on an endpoint or area exactly
where the last datum of each name in its first item, and in all its items,
read alike. -/
theorem readingsAgree_iff (lax : Lax) (config : Config) :
    (∀ (data : DevicesData) (deviceId endpointId : ℤ) (usage : String) (model : UsageModel),
      config.endpointUsages.get? (deviceId, endpointId) = some usage →
      usages.get? usage = some model →
      (ReadingsAgree lax model
        ((Installation.fromConfig config).readEndpoint lax data deviceId endpointId)
        (((Cache.init.applyConfig config).mergeDevices data).endpoints.get?
          (deviceId, endpointId)) ↔
      ReadAlike lax model
        (lastDatum · (endpointItems data deviceId endpointId).head?.toList)
        (lastDatum · (endpointItems data deviceId endpointId)))) ∧
    (∀ (data : AreasData) (areaId : ℤ), areaId ∈ config.areas.map ConfigArea.id →
      (ReadingsAgree lax .area ((Installation.fromConfig config).readArea lax data areaId)
        (((Cache.init.applyConfig config).mergeAreas data).areas.get? areaId) ↔
      ReadAlike lax .area (lastDatum · (areaItemsOf data areaId).head?.toList)
        (lastDatum · (areaItemsOf data areaId)))) := by
  refine ⟨fun data deviceId endpointId usage model husage hmodel => ?_, fun data areaId harea => ?_⟩
  · have hread : (Installation.fromConfig config).readEndpoint lax data deviceId endpointId =
        readFirst lax model (endpointItems data deviceId endpointId) := by
      have hname : (Installation.fromConfig config).usage deviceId endpointId = .ok usage := by
        rw [Installation.usage, Installation.fromConfig, husage]
      rw [Installation.readEndpoint, hname, readFirst, endpointItems, ← firstEndpoint_eq]
      cases Installation.firstEndpoint deviceId endpointId data with
      | none => simp only [bind, Except.bind, pure, Except.pure]
      | some endpoint => simp only [bind, Except.bind, parseUsage, hmodel]
    have hentity : ((Cache.init.applyConfig config).mergeDevices data).endpoints.get?
        (deviceId, endpointId) = (endpointItems data deviceId endpointId).foldl
          (fun v a => some ((v.getD Entity.empty).merge a)) none :=
      get?_mergeEntities_empty (Dict.mem_iff.2 ⟨usage, husage⟩) rfl
    rw [hread, hentity]
    exact readingsAgree_iff_readAlike lax model _
  · have hread : (Installation.fromConfig config).readArea lax data areaId =
        readFirst lax .area (areaItemsOf data areaId) := by
      have hknown : (Installation.fromConfig config).area areaId = .ok ⟨areaId⟩ := if_pos harea
      rw [Installation.readArea, hknown, readFirst, areaItemsOf, ← firstArea_eq]
      cases data.find? fun area => area.id = areaId with
      | none => simp only [bind, Except.bind, pure, Except.pure]
      | some area => simp only [bind, Except.bind]
    have hkey : areaId ∈ config.areaUsages := by
      rw [Config.areaUsages, Dict.mem_ofList, List.map_map]
      exact harea
    have hentity : ((Cache.init.applyConfig config).mergeAreas data).areas.get? areaId =
        (areaItemsOf data areaId).foldl (fun v a => some ((v.getD Entity.empty).merge a)) none :=
      get?_mergeEntities_empty hkey rfl
    rw [hread, hentity]
    exact readingsAgree_iff_readAlike lax .area _

/-! ### A shutter listed twice -/

/-- A config of one shutter. -/
def loneShutter : Config := ⟨0, [⟨1, 10, "Kitchen", "shutter"⟩], [], []⟩

/-- A shutter at a position. -/
def positioned (position : ℚ) : DataEndpoint :=
  ⟨10, 0, [⟨"position", "upToDate", .number (.finite position)⟩]⟩

/-- It is listed at two of them. -/
def listedTwice : DevicesData := [⟨1, [positioned 10, positioned 90]⟩]

/-- No text is a number or a flag. -/
def noLax : Lax := ⟨fun _ => none, fun _ => none⟩

/-- A shutter at a position, with a field that no model knows. -/
def leveled (position : ℚ) : DataEndpoint :=
  ⟨10, 0, [⟨"position", "upToDate", .number (.finite position)⟩,
    ⟨"level", "upToDate", .number (.finite 3)⟩]⟩

/-- It is listed twice, at one position. -/
def listedAgain : DevicesData := [⟨1, [leveled 10, positioned 10]⟩]

/-- A push that lists it twice at one position reads alike. -/
theorem readingsAgree_iff_listedAgain : ReadingsAgree noLax .shutter
    ((Installation.fromConfig loneShutter).readEndpoint noLax listedAgain 1 10)
    (((Cache.init.applyConfig loneShutter).mergeDevices listedAgain).endpoints.get? (1, 10)) := by
  have hsame : ∀ name,
      lastDatum name [leveled 10] = lastDatum name [leveled 10, positioned 10] := by
    intro name
    by_cases hposition : name = "position"
    · rw [hposition]
      rfl
    · simp [lastDatum, leveled, positioned, Ne.symm hposition]
  have halike : ReadAlike noLax .shutter (lastDatum · [leveled 10])
      (lastDatum · [leveled 10, positioned 10]) := by
    simp only [hsame]
    exact ⟨fun _ _ => Iff.rfl, fun _ _ _ => rfl, fun _ _ _ => rfl⟩
  exact ((readingsAgree_iff noLax loneShutter).1 listedAgain 1 10 "shutter" .shutter rfl rfl).2
    halike

/-- **The installation reads the first position**, the cache the last. -/
theorem listedTwice_not_agree : ¬ ReadingsAgree noLax .shutter
    ((Installation.fromConfig loneShutter).readEndpoint noLax listedTwice 1 10)
    (((Cache.init.applyConfig loneShutter).mergeDevices listedTwice).endpoints.get? (1, 10)) := by
  intro h
  have hread : (Installation.fromConfig loneShutter).readEndpoint noLax listedTwice 1 10 =
      .ok (some ⟨.shutter, [("position", ⟨.number (.finite 10), "upToDate"⟩)], ∅⟩) := by
    rfl
  have hentity : ((Cache.init.applyConfig loneShutter).mergeDevices listedTwice).endpoints.get?
      (1, 10) = some (Entity.empty.merge (positioned 90)) := by
    rfl
  have hmerged : fromData noLax .shutter (Entity.empty.merge (positioned 90)).fields.values =
      .ok ⟨.shutter, [("position", ⟨.number (.finite 90), "upToDate"⟩)], ∅⟩ := by
    rfl
  obtain ⟨result, hresult, hsame⟩ := h.some _ hentity
  rw [hread] at hresult
  rw [hmerged] at hsame
  cases result with
  | error e => cases hresult
  | ok typed =>
      cases hresult
      exact absurd hsame.readings (by decide)

end Mcp

end Tydomio
