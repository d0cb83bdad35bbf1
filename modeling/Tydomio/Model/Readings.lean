import Tydomio.Model.Installation

/-!
# Readings

The typed fields of the usage models, and `from_data`, which reads them from
generic data: `model/usages`. A value that a field does not take makes the
whole model invalid; what is not a field of the model is kept as received.
How a number or a flag is read from a text is outside the repository.
-/

namespace Tydomio

open Common

/-- **The validation library**, in its lax mode: a number read from a text,
and a flag from a number or a text. -/
structure Lax where
  float : String → Option PyFloat
  bool : DataValue → Option Bool

/-! ## Fields -/

/-- The type of a field. A text is also that of an enum, which keeps what is
none of its members. -/
inductive ReadKind where
  | float
  | bool
  | text
  deriving DecidableEq

/-- A field of a usage model, under its Tydom name. -/
structure ReadField where
  /-- `alias`. -/
  aliasName : String
  kind : ReadKind
  deriving DecidableEq

namespace UsageModel

/-- `Reading[float]`. -/
def number (aliasName : String) : ReadField := ⟨aliasName, .float⟩

/-- `Reading[bool]`. -/
def flag (aliasName : String) : ReadField := ⟨aliasName, .bool⟩

/-- `Reading[str]`, and that of an enum. -/
def text (aliasName : String) : ReadField := ⟨aliasName, .text⟩

/-- `ThermicZone`. -/
def thermicZone : List ReadField := [
  number "ambientTemperature",
  text "authorization",
  number "heatSetpoint",
  text "localMode",
  number "maxHeatSetpoint",
  number "maxSetpoint",
  number "minHeatSetpoint",
  number "minSetpoint",
  flag "openingDetected",
  number "overrideRemainingTime",
  number "overrideSetpoint",
  text "overrideThermicLevel",
  number "setpoint",
  text "thermicLevel",
  text "useMode"]

/-- `model_fields`, without `unknown`. -/
def fields : UsageModel → List ReadField
  | area => thermicZone ++ [number "anticipCoeff", number "hygroIn"]
  | boiler => thermicZone ++ [
      flag "batteryCmdDefect",
      flag "loadSheddingOn",
      flag "productionDefect",
      flag "tempSensorDefect",
      flag "tempSensorOpenCirc",
      flag "tempSensorShortCut",
      number "temperature"]
  | conso => [
      number "energyIndexTi1",
      number "energyInstantTi1I",
      number "energyInstantTi1I_Max",
      number "energyInstantTi1I_Min",
      number "energyInstantTi1P",
      number "energyInstantTi1P_Max",
      number "energyInstantTi1P_Min",
      number "energyInstantTotElec",
      number "energyInstantTotElec_Max",
      number "energyInstantTotElec_Min",
      number "energyInstantTotElecP",
      number "energyInstantTotElec_P_Max",
      number "energyInstantTotElec_P_Min",
      number "energyScaleTi1I_Max",
      number "energyScaleTi1I_Min",
      number "energyScaleTi1P_Max",
      number "energyScaleTi1P_Min",
      number "energyScaleTotElec_Max",
      number "energyScaleTotElec_Min",
      number "energyScaleTotElec_P_Max",
      number "energyScaleTotElec_P_Min",
      number "energyTotIndexWatt",
      number "jobsMP",
      text "softPlan",
      text "softVersion"]
  | re2020ControlBoiler => [
      number "ambientTemperature",
      number "battLevel",
      number "hygroIn",
      flag "isReference",
      number "jobs",
      number "jobsMP",
      number "jobsRM",
      number "nbRFActuators",
      number "selectedProg",
      text "shutterCmd",
      text "softPlan",
      text "softVersion",
      flag "synchroRadio",
      text "uid"]
  | sensorSun => [
      flag "battDefect",
      number "configSensor",
      number "configTemp",
      number "lightPower"]
  | shutter => [
      flag "battDefect",
      flag "downDefect",
      flag "intrusion",
      flag "obstacleDefect",
      flag "onFavPos",
      number "position",
      flag "thermicDefect",
      flag "upDefect"]
  | weather => [
      number "currentPower",
      number "dailyPower",
      number "maxDailyOutTemp",
      number "outTemperature",
      text "weather"]

/-- The Tydom names of the fields. -/
def aliases (model : UsageModel) : List String := model.fields.map ReadField.aliasName

/-- No name is that of two fields. -/
theorem nodup_aliases (model : UsageModel) : model.aliases.Nodup := by
  cases model <;> decide

end UsageModel

/-! ## Values -/

/-- The value of a reading. -/
inductive TypedValue where
  | number (value : PyFloat)
  | flag (value : Bool)
  | text (value : String)
  | none
  deriving DecidableEq

/-- A value as received. -/
def DataValue.typed : DataValue → TypedValue
  | number value => .number value
  | text value => .text value
  | none => .none

/-- The value a field takes, `none` where it takes no such value. -/
def ReadKind.read (lax : Lax) : ReadKind → DataValue → Option TypedValue
  | _, .none => some .none
  | float, .number value => some (.number value)
  | float, .text value => (lax.float value).map .number
  | bool, value => (lax.bool value).map .flag
  | text, .text value => some (.text value)
  | text, .number _ => none

/-- `Reading`. -/
structure Reading where
  value : TypedValue
  validity : String
  deriving DecidableEq

/-- **A usage model with its values**: the readings of the fields that are
set, in the order of the fields, and the unknown fields. -/
structure Typed where
  model : UsageModel
  readings : List (String × Reading)
  unknown : Dict String Data
  deriving DecidableEq

section FromData

variable (lax : Lax) (model : UsageModel)

/-- The known fields of some data, by name: the last item of a name counts. -/
def knownOf (data : List Data) : Dict String Data :=
  .ofList ((data.filter fun item => item.name ∈ model.aliases).map fun item => (item.name, item))

/-- The unknown fields. -/
def unknownOf (data : List Data) : Dict String Data :=
  .ofList ((data.filter fun item => item.name ∉ model.aliases).map fun item => (item.name, item))

/-- A field takes what is known of it. -/
def ReadField.accepts (known : Dict String Data) (field : ReadField) : Bool :=
  match known.get? field.aliasName with
  | none => true
  | some item => (field.kind.read lax item.value).isSome

/-- The reading of a field. -/
def ReadField.reading (known : Dict String Data) (field : ReadField) : Option (String × Reading) :=
  (known.get? field.aliasName).bind fun item =>
    (field.kind.read lax item.value).map fun value => (field.aliasName, ⟨value, item.validity⟩)

/-- `UsageModel.from_data`. -/
def fromData (data : List Data) : Except Exc Typed :=
  let known := knownOf model data
  let invalid := (model.fields.filter fun field => !field.accepts lax known).map
    ReadField.aliasName
  if invalid = [] then
    .ok ⟨model, model.fields.filterMap (ReadField.reading lax known), unknownOf model data⟩
  else
    .error (.invalidResponse (model.className ++ ": invalid fields " ++
      ", ".intercalate (invalid.dedup.mergeSort fun a b => decide (a ≤ b))))

/-- `parse_usage`. -/
def parseUsage (usage : String) (data : List Data) : Except Exc (Option Typed) :=
  match usages.get? usage with
  | none => .ok none
  | some model => (fromData lax model data).map some

end FromData

/-! ## Readings of a push -/

namespace Installation

variable (installation : Installation) (lax : Lax)

/-- `_usage`. -/
def usage (deviceId endpointId : ℤ) : Except Exc String :=
  match installation.endpoints.get? (deviceId, endpointId) with
  | none => .error (.invalidTarget "Unknown endpoint")
  | some name => .ok name

/-- The endpoint at which `read_endpoint` stops: the first of the id in the
devices of the id. -/
def firstEndpoint (deviceId endpointId : ℤ) : DevicesData → Option DataEndpoint
  | [] => none
  | device :: devices =>
      if device.id ≠ deviceId then firstEndpoint deviceId endpointId devices
      else (device.endpoints.find? fun endpoint => endpoint.id = endpointId).or
        (firstEndpoint deviceId endpointId devices)

/-- `read_endpoint`. -/
def readEndpoint (data : DevicesData) (deviceId endpointId : ℤ) : Except Exc (Option Typed) := do
  let usage ← installation.usage deviceId endpointId
  match firstEndpoint deviceId endpointId data with
  | none => return none
  | some endpoint => parseUsage lax usage endpoint.data

/-- `read_area`. -/
def readArea (data : AreasData) (areaId : ℤ) : Except Exc (Option Typed) := do
  let _ ← installation.area areaId
  match data.find? fun area => area.id = areaId with
  | none => return none
  | some area => (fromData lax .area area.data).map some

end Installation

end Tydomio
