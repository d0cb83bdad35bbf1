import Tydomio.Model.Usages

/-!
# The installation

`installation.py`: the usage of each endpoint and group of a config, and
the references a write is addressed to. An id is an integer here, so the
checks of `__post_init__` hold by construction.
-/

namespace Tydomio

open Common

/-- `EndpointRef`. -/
structure EndpointRef where
  deviceId : ℤ
  endpointId : ℤ
  usage : UsageModel
  deriving DecidableEq

/-- `GroupRef`. -/
structure GroupRef where
  groupId : ℤ
  usage : UsageModel
  deriving DecidableEq

/-- `AreaRef`. -/
structure AreaRef where
  areaId : ℤ
  deriving DecidableEq

/-- `_check_usage`. -/
def checkUsage (kind name : String) (usage : UsageModel) : Except Exc Unit :=
  if usages.get? name = some usage then .ok ()
  else .error (.invalidTarget
    ("The " ++ kind ++ " is a " ++ name ++ ", not a " ++ usage.className))

/-! The usages of a config's endpoints, groups and areas, by id: the last
entry of an id counts. -/

/-- The `last_usage` of each endpoint of a config. -/
def Config.endpointUsages (config : Config) : Dict (ℤ × ℤ) String :=
  Dict.ofList (config.endpoints.map fun e => ((e.idDevice, e.idEndpoint), e.lastUsage))

/-- The usage of each group. -/
def Config.groupUsages (config : Config) : Dict ℤ String :=
  Dict.ofList (config.groups.map fun g => (g.id, g.usage))

/-- The `last_usage` of each area. -/
def Config.areaUsages (config : Config) : Dict ℤ String :=
  Dict.ofList (config.areas.map fun a => (a.id, a.lastUsage))

/-- `Installation`. -/
structure Installation where
  endpoints : Dict (ℤ × ℤ) String
  areas : List ℤ
  groups : Dict ℤ String
  deriving DecidableEq

namespace Installation

/-- `from_config`. -/
def fromConfig (config : Config) : Installation :=
  ⟨config.endpointUsages, config.areas.map ConfigArea.id, config.groupUsages⟩

variable (installation : Installation)

/-- `endpoint`. -/
def endpoint (deviceId endpointId : ℤ) (usage : UsageModel) : Except Exc EndpointRef :=
  match installation.endpoints.get? (deviceId, endpointId) with
  | none => .error (.invalidTarget "Unknown endpoint")
  | some name => (checkUsage "endpoint" name usage).map fun _ => ⟨deviceId, endpointId, usage⟩

/-- `group`. -/
def group (groupId : ℤ) (usage : UsageModel) : Except Exc GroupRef :=
  match installation.groups.get? groupId with
  | none => .error (.invalidTarget "Unknown group")
  | some name => (checkUsage "group" name usage).map fun _ => ⟨groupId, usage⟩

/-- `area`. -/
def area (areaId : ℤ) : Except Exc AreaRef :=
  if areaId ∈ installation.areas then .ok ⟨areaId⟩
  else .error (.invalidTarget "Unknown area")

end Installation

end Tydomio
