import Tydomio.Common.Dict
import Tydomio.Capture.Model.Policy
import Tydomio.Model.Data

/-!
# The reviewed rules

The table `POLICY` of `capture/policy.py`, and the constraints of kept
values with `passes` of `capture/anonymize.py`. The patterns of the table
are all one class of characters with bounds on their number.
-/

namespace Tydomio

open Common

namespace Capture

/-! ## Constraints -/

/-- The class of a pattern, read after its `[`, as ranges, and what follows
its `]`. A `-` before the `]` stands for itself. -/
def readClass : List Char → List (Char × Char) × List Char
  | [] => ([], [])
  | ']' :: rest => ([], rest)
  | low :: '-' :: high :: rest =>
      if high = ']' then ([(low, low), ('-', '-')], rest)
      else ((low, high) :: (readClass rest).1, (readClass rest).2)
  | c :: rest => ((c, c) :: (readClass rest).1, (readClass rest).2)

/-- A decimal number, and what follows it. -/
def readCount (cs : List Char) : ℕ × List Char :=
  ((cs.takeWhile Char.isDigit).foldl (fun n c => 10 * n + (c.toNat - '0'.toNat)) 0,
    cs.dropWhile Char.isDigit)

/-- The bounds of a pattern, `{low,high}`. -/
def readBounds (cs : List Char) : ℕ × ℕ :=
  let low := readCount (cs.drop 1)
  (low.1, (readCount (low.2.drop 1)).1)

/-- `re.fullmatch(pattern, value) is not None`, for a class with bounds. -/
def fullmatch (pattern value : String) : Bool :=
  let ranges := readClass (pattern.toList.drop 1)
  let bounds := readBounds ranges.2
  decide (bounds.1 ≤ value.toList.length) && decide (value.toList.length ≤ bounds.2) &&
    value.toList.all fun c => ranges.1.any fun range => decide (range.1 ≤ c) && decide (c ≤ range.2)

/-- `type(value)`, of the types a constraint may name. -/
def jsonTypeOf : JsonValue → Option JsonType
  | .bool _ => some .bool
  | .int _ => some .int
  | .float _ => some .float
  | .str _ => some .str
  | _ => none

/-- `passes`. -/
def passes (value : JsonValue) (keep : Keep) : Bool :=
  ((jsonTypeOf value).any fun type => keep.jsonTypes.contains type) &&
    match keep.pattern, value with
    | none, _ => true
    | some pattern, .str text => fullmatch pattern text
    | some _, _ => false

namespace Keep

/-- `WORD`. -/
def word : Keep := ⟨[.str], some "[A-Za-z0-9_]{1,64}"⟩

/-- `SHORT_WORD`. -/
def shortWord : Keep := ⟨[.str], some "[A-Za-z0-9_]{1,32}"⟩

/-- `VERSION`. -/
def version : Keep := ⟨[.str], some "[0-9A-Za-z._-]{1,32}"⟩

/-- `PROTOCOL`. -/
def protocol : Keep := ⟨[.str], some "[A-Za-z0-9_-]{1,32}"⟩

/-- `BOOL`. -/
def bool : Keep := ⟨[.bool], none⟩

/-- `INT`. -/
def int : Keep := ⟨[.int], none⟩

/-- `NUMBER`. -/
def number : Keep := ⟨[.int, .float], none⟩

/-- `ENUM_VALUE`. -/
def enumValue : Keep := ⟨[.str], some "[A-Za-z0-9_.-]{1,64}"⟩

end Keep

/-! ## Rules -/

namespace Rule

/-- `_keep`. -/
def keeping (path : String) (keep : Keep) : Rule := ⟨path, .keep, some keep, none⟩

/-- `_id`. -/
def ofId (path : String) : Rule := ⟨path, .id, none, none⟩

/-- `_name`. -/
def ofName (path kind : String) : Rule := ⟨path, .name, none, some kind⟩

/-- `_redact`. -/
def redacting (path : String) : Rule := ⟨path, .redact, none, none⟩

/-- `_descriptor`. -/
def descriptor (start : String) : List Rule := [
  keeping (start ++ ".name") .word,
  keeping (start ++ ".type") .word,
  keeping (start ++ ".permission") .word,
  keeping (start ++ ".validity") .word,
  keeping (start ++ ".unit") ⟨[.str], some "[A-Za-z0-9_%°/.-]{1,32}"⟩,
  keeping (start ++ ".shared") .bool,
  keeping (start ++ ".min") .number,
  keeping (start ++ ".max") .number,
  keeping (start ++ ".step") .number,
  keeping (start ++ ".size") .int,
  keeping (start ++ ".enum_values[]") .enumValue]

/-- `_protocols`. -/
def protocols (start : String) : List Rule := [
  keeping (start ++ ".protocol") .protocol,
  keeping (start ++ ".available") .bool,
  keeping (start ++ ".installed") .bool,
  keeping (start ++ ".ready") .bool,
  keeping (start ++ ".status") .protocol,
  keeping (start ++ ".installStatus") .protocol]

/-- `_cmeta`. -/
def cmeta (start : String) : List Rule :=
  keeping (start ++ ".name") .word :: keeping (start ++ ".permission") .word ::
    descriptor (start ++ ".parameters[]")

/-- `_data`. -/
def data (start : String) : List Rule := [
  keeping (start ++ ".name") .word,
  keeping (start ++ ".validity") .word,
  ⟨start ++ ".value", .value, none, none⟩]

/-- `_DEVICE_IDS`. -/
def deviceIds : List Rule := [
  ofId "[].id",
  ofId "[].endpoints[].id",
  keeping "[].endpoints[].error" .int,
  keeping "[].endpoints[].link.type" .word,
  keeping "[].endpoints[].link.subtype" .word,
  ofId "[].endpoints[].link.id"]

/-- `_AREA_IDS`. -/
def areaIds : List Rule := [ofId "[].id", keeping "[].error" .int]

end Rule

open Rule

/-- `_CONFIGS_FILE`. -/
def configsFile : EndpointPolicy := ⟨[
  keeping "version" .version,
  keeping "version_application" .version,
  keeping "os" .version,
  keeping "old_tycam" .bool,
  keeping "endpoints[].picto" .word,
  keeping "endpoints[].first_usage" .word,
  keeping "endpoints[].last_usage" .word,
  keeping "endpoints[].skill" .word,
  keeping "endpoints[].anticipation_start" .bool,
  keeping "endpoints[].widget_behavior.tutorial_id" ⟨[.str], some "[A-Za-z0-9_+]{1,64}"⟩,
  keeping "scenarios[].picto" .word,
  keeping "scenarios[].type" .word,
  keeping "groups[].picto" .word,
  keeping "groups[].usage" .word,
  keeping "groups[].group_all" .bool,
  keeping "groups[].is_group_user" .bool,
  keeping "areas[].picto" .word,
  keeping "areas[].first_usage" .word,
  keeping "areas[].last_usage" .word,
  keeping "areas[].anticipation_start" .bool,
  keeping "moments[].color" .int,
  keeping "zigbee_networks[].is_connected" .bool,
  keeping "zigbee_networks[].type" .word,
  ofId "endpoints[].id_device",
  ofId "endpoints[].id_endpoint",
  ofId "endpoints[].space_id",
  ofId "scenarios[].id",
  ofId "scenarios[].rule_id",
  ofId "groups[].id",
  ofId "areas[].id",
  ofId "moments[].id",
  ofId "moments[].rule_id",
  ofName "endpoints[].name" "endpoint",
  ofName "scenarios[].name" "scenario",
  ofName "groups[].name" "group",
  ofName "areas[].name" "area",
  ofName "moments[].name" "moment",
  ofName "zigbee_networks[].name" "zigbee",
  redacting "date",
  redacting "id_catalog",
  redacting "zigbee_networks[].extended_pan_id"], []⟩

/-- `_INFO`. -/
def info : EndpointPolicy := ⟨[
  keeping "productName" ⟨[.str], some "[A-Za-z0-9 ._-]{1,32}"⟩,
  keeping "apiMode" .bool,
  keeping "config" .version,
  keeping "bddStatus" .int,
  keeping "local_claim.status" .shortWord,
  keeping "clock.source" .shortWord,
  keeping "bddEmpty" .bool,
  keeping "pltRegistered" .bool,
  keeping "updateAvailable" .bool,
  keeping "passwordEmpty" .bool,
  keeping "clock.summerOffset" .shortWord] ++
  protocols "protocols[]" ++ [
  keeping "mainReference" .version,
  keeping "keyReference" .version,
  keeping "zigbeeReference" .version,
  keeping "bootReference" .version,
  keeping "javaVersion" .version,
  keeping "bootVersion" .version,
  keeping "oryxVersion" .version,
  keeping "*VersionSW" .version,
  keeping "*VersionHW" .version,
  keeping "*VersionStack" .version,
  keeping "*\\.json" .int,
  keeping "*\\.dat" .int,
  ofId "weather.*.devId",
  ofId "weather.*.epId",
  redacting "mac",
  redacting "mainId",
  redacting "urlMediation",
  redacting "maintenance.id",
  redacting "geoloc.*",
  redacting "clock.clock",
  redacting "clock.timezone",
  redacting "local_claim.lastAccess",
  redacting "moments.suspend.to"], ["geoloc", "weather"]⟩

/-- `POLICY`. -/
def policyTable : Dict String EndpointPolicy := .ofList [
  ("/configs/file", configsFile),
  ("/devices/meta", ⟨deviceIds ++ descriptor "[].endpoints[].metadata[]", []⟩),
  ("/devices/cmeta", ⟨deviceIds ++ cmeta "[].endpoints[].cmetadata[]", []⟩),
  ("/devices/data", ⟨deviceIds ++ data "[].endpoints[].data[]", []⟩),
  ("/areas/meta", ⟨areaIds ++ descriptor "[].metadata[]", []⟩),
  ("/areas/cmeta", ⟨areaIds ++ cmeta "[].cmetadata[]", []⟩),
  ("/areas/data", ⟨areaIds ++ data "[].data[]", []⟩),
  ("/groups/file", ⟨[
    ofId "groups[].id",
    ofId "groups[].devices[].id",
    ofId "groups[].devices[].endpoints[].id",
    ofId "groups[].areas[].id"], []⟩),
  ("/scenarios/file", ⟨[
    ofId "scn[].id",
    ofId "scn[].grpAct[].id",
    keeping "scn[].grpAct[].state[].name" .word,
    keeping "scn[].grpAct[].state[].value" .enumValue], []⟩),
  ("/moments/file", ⟨[
    ofId "prog[].id",
    ofId "event[].progId",
    ofId "rdv[].id",
    ofId "mom[].id"], ["prog[]", "rdv[]", "mom[]", "event[]"]⟩),
  ("/protocols", ⟨protocols "[]", []⟩),
  ("/info", info)]

/-- `DESCRIPTOR_SOURCES`: for the data of a url, the url of its descriptors
and the keys of the lists between their ids. -/
def descriptorSources : Dict String (String × List String) := .ofList [
  ("/devices/data", ("/devices/meta", ["endpoints"])),
  ("/areas/data", ("/areas/meta", []))]

end Capture

end Tydomio
