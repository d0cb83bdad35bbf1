import Tydomio.Capture.Lookup

/-!
# The rules of the devices and the areas

In each policy of a devices or an areas url the rules of ids stand before
those of what is listed under a start, and no path of the first goes on into
the second. So the rule of a field of a descriptor, a command or a data item
is that of its path under the start.
-/

namespace Tydomio

open Common

namespace Capture

/-! ## The rules of the data urls -/

section Policies

open Rule

/-- A rule acts where the table of rules finds it by the path. -/
theorem acts_of_lookup {policy : EndpointPolicy} (h : Without anyKey policy.rules)
    (hnoPaths : policy.opaquePaths = []) {path : List Step} {rule : Rule} {action : Action}
    (hrule : (tableOf policy.rules).lookup (path.map Step.text) = some rule)
    (haction : rule.action = action) : Acts policy path action :=
  ⟨rule, (completeRule_eq_lookup h.literal hnoPaths path).trans hrule, haction⟩

/-- A rule of an id is found before the others. -/
theorem lookup_append_left {ids : List Rule} {path : List String} {rule : Rule} (rules : List Rule)
    (h : (tableOf ids).lookup path = some rule) :
    (tableOf (ids ++ rules)).lookup path = some rule := by
  rw [tableOf, List.map_append, List.lookup_append, ← tableOf, h]
  rfl

/-- Where no rule of an id is, the others are found. -/
theorem lookup_append_right {ids : List Rule} {path : List String} (rules : List Rule)
    (h : (tableOf ids).lookup path = none) :
    (tableOf (ids ++ rules)).lookup path = (tableOf rules).lookup path := by
  rw [tableOf, List.map_append, List.lookup_append, ← tableOf, h]
  rfl

/-- **Rules of ids before those of what stands under a start.** -/
structure IdsBefore (ids : List Rule) (start : String) : Prop where
  plain : Without anyKey ids
  noValue : ∀ rule ∈ ids, rule.action ≠ .value
  plainStart : anyKey ∉ start.toList
  last : start.toList.getLast? ≠ some '\\'
  apart : ∀ rest, (tableOf ids).lookup (parsePath start ++ rest) = none

section Under

variable {ids : List Rule} {start : String} (h : IdsBefore ids start) {path : List Step}

include h

theorem IdsBefore.without_data : Without anyKey (ids ++ data start) :=
  h.plain.append (Capture.without_data (.inr rfl) h.plainStart)

theorem IdsBefore.without_descriptor : Without anyKey (ids ++ descriptor start) :=
  h.plain.append (Capture.without_descriptor (.inr rfl) h.plainStart)

/-- The rule of a field of a descriptor. -/
theorem IdsBefore.acts_descriptor (hpath : path.map Step.text = parsePath start)
    {rest : List Step} {rule : Rule} {action : Action}
    (hrule : (descriptorFields start).lookup (rest.map Step.text) = some rule)
    (haction : rule.action = action) :
    Acts ⟨ids ++ descriptor start, []⟩ (path ++ rest) action := by
  refine acts_of_lookup h.without_descriptor rfl ?_ haction
  rw [List.map_append, hpath, lookup_append_right _ (h.apart _), lookup_descriptor h.last]
  exact hrule

/-- The rule of a field of a data item. -/
theorem IdsBefore.acts_data (hpath : path.map Step.text = parsePath start)
    {rest : List Step} {rule : Rule} {action : Action}
    (hrule : (dataFields start).lookup (rest.map Step.text) = some rule)
    (haction : rule.action = action) : Acts ⟨ids ++ data start, []⟩ (path ++ rest) action := by
  refine acts_of_lookup h.without_data rfl ?_ haction
  rw [List.map_append, hpath, lookup_append_right _ (h.apart _), lookup_data h.last]
  exact hrule

/-- What a data value reads of its descriptor is kept. -/
theorem IdsBefore.descriptorKept (hpath : path.map Step.text = parsePath start) :
    DescriptorKept ⟨ids ++ descriptor start, []⟩ path where
  name := h.acts_descriptor hpath rfl rfl
  min := h.acts_descriptor hpath rfl rfl
  enum := by
    rw [List.append_assoc]
    exact h.acts_descriptor hpath rfl rfl

/-- The rule of an id. -/
theorem IdsBefore.acts_id {rules : List Rule} (hrules : Without anyKey rules) {rule : Rule}
    (hrule : (tableOf ids).lookup (path.map Step.text) = some rule) (haction : rule.action = .id) :
    Acts ⟨ids ++ rules, []⟩ path .id :=
  acts_of_lookup (h.plain.append hrules) rfl (lookup_append_left rules hrule) haction

/-- A VALUE rule completes at the values alone. -/
theorem IdsBefore.text_of_value {rule : Rule}
    (hrule : (Position.along ⟨ids ++ data start, []⟩ path).completeRule = some rule)
    (haction : rule.action = .value) : path.map Step.text = parsePath start ++ ["value"] := by
  rw [completeRule_eq_lookup h.without_data.literal rfl] at hrule
  have hmem : (path.map Step.text, rule) ∈ tableOf (ids ++ data start) := by
    obtain ⟨before, after, htable, -⟩ := List.lookup_eq_some_iff.1 hrule
    rw [htable]
    exact List.mem_append_right _ List.mem_cons_self
  rw [tableOf, List.map_append, List.mem_append] at hmem
  rcases hmem with hmem | hmem
  · obtain ⟨found, hfound, heq⟩ := List.mem_map.1 hmem
    obtain ⟨-, rfl⟩ := Prod.mk.inj heq
    exact absurd haction (h.noValue found hfound)
  · rw [← tableOf, table_data h.last] at hmem
    obtain ⟨field, hfield, heq⟩ := List.mem_map.1 hmem
    obtain ⟨hpath, rfl⟩ := Prod.mk.inj heq
    rw [← hpath]
    simp only [dataFields, List.mem_cons, List.not_mem_nil, or_false] at hfield
    rcases hfield with rfl | rfl | rfl
    · cases haction
    · cases haction
    · rfl

end Under

/-- The keys of the leaves that the catalog reads of a descriptor. -/
def descriptorKeys : List String :=
  ["name", "type", "permission", "validity", "unit", "min", "max", "step", "size"]

/-- **The rules of what the catalog reads of a descriptor.** -/
structure DescriptorRead (policy : EndpointPolicy) (path : List Step) : Prop where
  field : ∀ key ∈ descriptorKeys, Acts policy (path ++ [.key key]) .keep
  enum : Acts policy (path ++ [.key "enum_values"] ++ [.item]) .keep

/-- The rules of what it reads of a command. -/
structure CommandRead (policy : EndpointPolicy) (path : List Step) : Prop where
  name : Acts policy (path ++ [.key "name"]) .keep
  permission : Acts policy (path ++ [.key "permission"]) .keep
  parameters : DescriptorRead policy (path ++ [.key "parameters"] ++ [.item])

section Catalog

variable {ids : List Rule} {start : String} (h : IdsBefore ids start) {path : List Step}

include h

/-- What the catalog reads of a descriptor is kept. -/
theorem IdsBefore.descriptorRead (hpath : path.map Step.text = parsePath start) :
    DescriptorRead ⟨ids ++ descriptor start, []⟩ path where
  field key hkey := by
    simp only [descriptorKeys, List.mem_cons, List.not_mem_nil, or_false] at hkey
    rcases hkey with rfl | rfl | rfl | rfl | rfl | rfl | rfl | rfl | rfl <;>
      exact h.acts_descriptor hpath rfl rfl
  enum := by
    rw [List.append_assoc]
    exact h.acts_descriptor hpath rfl rfl

/-- The rules of a command before those of its parameters. -/
def commandRules (start : String) : List Rule :=
  [keeping (start ++ ".name") .word, keeping (start ++ ".permission") .word]

omit h in
theorem append_cmeta : ids ++ cmeta start =
    ids ++ commandRules start ++ descriptor (start ++ ".parameters[]") := by
  rw [List.append_assoc]
  rfl

theorem IdsBefore.table_commandRules : tableOf (commandRules start) = [
    (parsePath start ++ ["name"], keeping (start ++ ".name") .word),
    (parsePath start ++ ["permission"], keeping (start ++ ".permission") .word)] := by
  have hkey := parsePath_key h.last
  simp only [tableOf, commandRules, keeping, List.map_cons, List.map_nil]
  rw [hkey ".name" "name" ["name"] rfl rfl, hkey ".permission" "permission" ["permission"] rfl rfl]

theorem IdsBefore.parsePath_parameters :
    parsePath (start ++ ".parameters[]") = parsePath start ++ ["parameters", "[]"] :=
  parsePath_key h.last ".parameters[]" "parameters[]" ["parameters", "[]"] rfl rfl

/-- The rules before those of the parameters of a command. -/
theorem IdsBefore.parameters :
    IdsBefore (ids ++ commandRules start) (start ++ ".parameters[]") where
  plain := by
    refine h.plain.append ?_
    have hstart := h.plainStart
    simp_all [Without, commandRules, keeping, anyKey]
  noValue rule hrule := by
    rcases List.mem_append.1 hrule with hrule | hrule
    · exact h.noValue rule hrule
    · simp only [commandRules, List.mem_cons, List.not_mem_nil, or_false] at hrule
      rcases hrule with rfl | rfl <;> simp [keeping]
  plainStart := by
    have hstart := h.plainStart
    simp_all [anyKey]
  last := by
    rw [String.toList_append, List.getLast?_append_of_ne_nil _ (by simp)]
    simp
  apart rest := by
    rw [h.parsePath_parameters, List.append_assoc, lookup_append_right _ (h.apart _),
      h.table_commandRules]
    simp

theorem IdsBefore.without_cmeta : Without anyKey (ids ++ cmeta start) :=
  h.plain.append (Capture.without_cmeta (.inr rfl) h.plainStart)

/-- And of a command. -/
theorem IdsBefore.commandRead (hpath : path.map Step.text = parsePath start) :
    CommandRead ⟨ids ++ cmeta start, []⟩ path := by
  have hrule : ∀ {key : String} {rule : Rule},
      (tableOf (commandRules start)).lookup (parsePath start ++ [key]) = some rule →
      rule.action = .keep → Acts ⟨ids ++ cmeta start, []⟩ (path ++ [.key key]) .keep := by
    intro key rule hlookup haction
    refine acts_of_lookup h.without_cmeta rfl ?_ haction
    rw [List.map_append, hpath, append_cmeta, List.append_assoc,
      lookup_append_right _ (h.apart _)]
    exact lookup_append_left _ hlookup
  refine ⟨?_, ?_, ?_⟩
  · refine @hrule "name" (keeping (start ++ ".name") .word) ?_ rfl
    rw [h.table_commandRules, List.lookup_cons_self]
  · refine @hrule "permission" (keeping (start ++ ".permission") .word) ?_ rfl
    rw [h.table_commandRules]
    simp [List.lookup_cons]
  · rw [append_cmeta]
    refine h.parameters.descriptorRead ?_
    rw [h.parsePath_parameters, List.append_assoc, List.map_append, hpath]
    rfl

end Catalog

/-- **A url of data**, with the url of its descriptors. -/
structure DataSource (url source : String) (levels : List String)
    (policy sourcePolicy : EndpointPolicy) : Prop where
  data : policyTable.get? url = some policy
  source : policyTable.get? source = some sourcePolicy
  keyed : Keyed policy levels []
  indexed : Indexed sourcePolicy levels []
  value : ∀ path rule, (Position.along policy path).completeRule = some rule →
    rule.action = .value → path.map Step.text = (dataSteps levels).map Step.text
  levels : .key listItem ∉ dataSteps levels

/-- No rule of a device's ids goes on into what an endpoint lists. -/
theorem idsBefore_deviceIds {start last : String}
    (hpath : parsePath start = ["[]", "endpoints", "[]", last, "[]"])
    (hlast : last ≠ "link" ∧ anyKey ∉ start.toList ∧ start.toList.getLast? ≠ some '\\') :
    IdsBefore deviceIds start where
  plain := without_deviceIds (.inr rfl)
  noValue := by simp [deviceIds, ofId, keeping]
  plainStart := hlast.2.1
  last := hlast.2.2
  apart rest := by
    rw [hpath, table_deviceIds]
    simp [hlast.1]

/-- Nor one of an area's id into what the area lists. -/
theorem idsBefore_areaIds {start last : String} (hpath : parsePath start = ["[]", last, "[]"])
    (hlast : anyKey ∉ start.toList ∧ start.toList.getLast? ≠ some '\\') :
    IdsBefore areaIds start where
  plain := without_areaIds (.inr rfl)
  noValue := by simp [areaIds, ofId, keeping]
  plainStart := hlast.1
  last := hlast.2
  apart rest := by
    rw [hpath, table_areaIds]
    simp

/-- The data of the endpoints, and their descriptors. -/
theorem dataSource_devices : DataSource "/devices/data" "/devices/meta" ["endpoints"]
    ⟨deviceIds ++ data "[].endpoints[].data[]", []⟩
    ⟨deviceIds ++ descriptor "[].endpoints[].metadata[]", []⟩ := by
  have hdata : parsePath "[].endpoints[].data[]" = ["[]", "endpoints", "[]", "data", "[]"] := rfl
  have hmeta : parsePath "[].endpoints[].metadata[]" =
      ["[]", "endpoints", "[]", "metadata", "[]"] := rfl
  have hids := idsBefore_deviceIds hdata (by simp [anyKey])
  have hids' := idsBefore_deviceIds hmeta (by simp [anyKey])
  have hid : (tableOf deviceIds).lookup ["[]", "id"] = some (ofId "[].id") := rfl
  have hid' : (tableOf deviceIds).lookup ["[]", "endpoints", "[]", "id"] =
      some (ofId "[].endpoints[].id") := rfl
  have hpath : [.item, .key "endpoints", .item, .key "data", .item].map Step.text =
      parsePath "[].endpoints[].data[]" := hdata.symm
  refine ⟨rfl, rfl, ⟨?_, ?_, ?_⟩, ⟨?_, ?_, ?_⟩, ?_, by simp [dataSteps, listItem]⟩
  · exact hids.acts_id (without_data (.inr rfl) hids.plainStart) hid rfl
  · exact hids.acts_id (without_data (.inr rfl) hids.plainStart) hid' rfl
  · exact hids.acts_data hpath rfl rfl
  · exact hids'.acts_id (without_descriptor (.inr rfl) hids'.plainStart) hid rfl
  · exact hids'.acts_id (without_descriptor (.inr rfl) hids'.plainStart) hid' rfl
  · exact hids'.descriptorKept hmeta.symm
  · intro path rule hrule haction
    rw [hids.text_of_value hrule haction, hdata]
    rfl

/-- Those of the areas. -/
theorem dataSource_areas : DataSource "/areas/data" "/areas/meta" []
    ⟨areaIds ++ data "[].data[]", []⟩ ⟨areaIds ++ descriptor "[].metadata[]", []⟩ := by
  have hdata : parsePath "[].data[]" = ["[]", "data", "[]"] := rfl
  have hmeta : parsePath "[].metadata[]" = ["[]", "metadata", "[]"] := rfl
  have hids := idsBefore_areaIds hdata (by simp [anyKey])
  have hids' := idsBefore_areaIds hmeta (by simp [anyKey])
  have hid : (tableOf areaIds).lookup ["[]", "id"] = some (ofId "[].id") := rfl
  have hpath : [.item, .key "data", .item].map Step.text = parsePath "[].data[]" := hdata.symm
  refine ⟨rfl, rfl, ⟨?_, ?_⟩, ⟨?_, ?_⟩, ?_, by simp [dataSteps, listItem]⟩
  · exact hids.acts_id (without_data (.inr rfl) hids.plainStart) hid rfl
  · exact hids.acts_data hpath rfl rfl
  · exact hids'.acts_id (without_descriptor (.inr rfl) hids'.plainStart) hid rfl
  · exact hids'.descriptorKept hmeta.symm
  · intro path rule hrule haction
    rw [hids.text_of_value hrule haction, hdata]
    rfl

theorem exists_dataSource {url source : String} {levels : List String}
    (h : descriptorSources.get? url = some (source, levels)) :
    ∃ policy sourcePolicy, DataSource url source levels policy sourcePolicy := by
  have hmem := Dict.mem_of_get?_ofList h
  simp only [List.mem_cons, Prod.mk.injEq, List.not_mem_nil, or_false] at hmem
  rcases hmem with ⟨rfl, rfl, rfl⟩ | ⟨rfl, rfl, rfl⟩
  · exact ⟨_, _, dataSource_devices⟩
  · exact ⟨_, _, dataSource_areas⟩

end Policies

end Capture

end Tydomio
