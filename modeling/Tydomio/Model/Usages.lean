import Tydomio.Model.Data
import Tydomio.Model.Error
import Mathlib.Algebra.Order.Ring.Rat
import Mathlib.Data.List.Dedup

/-!
# Usages and their write models

`model/usages`: the model of each Tydom usage, and the write model of those
that may be written. A write model is a list of fields with their bounds;
`UsageWrite` carries the proof that its values are inside them.
-/

namespace Tydomio

open Common

/-- `UsageModel`: its subclasses. -/
inductive UsageModel where
  | area
  | boiler
  | conso
  | re2020ControlBoiler
  | sensorSun
  | shutter
  | weather
  deriving DecidableEq

/-- `__name__`. -/
def UsageModel.className : UsageModel → String
  | area => "Area"
  | boiler => "Boiler"
  | conso => "Conso"
  | re2020ControlBoiler => "Re2020ControlBoiler"
  | sensorSun => "SensorSun"
  | shutter => "Shutter"
  | weather => "Weather"

/-- `USAGES`: the model of each `last_usage`. -/
def usages : Dict String UsageModel :=
  Dict.ofList
    [("boiler", .boiler), ("conso", .conso), ("re2020ControlBoiler", .re2020ControlBoiler),
      ("sensorSun", .sensorSun), ("shutter", .shutter), ("weather", .weather)]

/-! ## Fields to write -/

/-- The type of a write field, with its bounds. -/
inductive FieldKind where
  | int (ge le : ℤ)
  | float (ge le multipleOf : ℚ)
  | enum (members : List String)
  deriving DecidableEq

/-- A value of a write field. -/
inductive WriteValue where
  | int (value : ℤ)
  | float (value : ℚ)
  | enum (member : String)
  deriving DecidableEq

/-- **A value is of the type and inside the bounds.** `multiple_of` is exact
here; pydantic also accepts a double that is off by a billionth of itself,
and of such a one nothing is said. -/
def FieldKind.Valid : FieldKind → WriteValue → Prop
  | int ge le, .int n => ge ≤ n ∧ n ≤ le
  | float ge le multipleOf, .float q => ge ≤ q ∧ q ≤ le ∧ (q / multipleOf).isInt = true
  | enum members, .enum member => member ∈ members
  | _, _ => False

instance : ∀ kind value, Decidable (FieldKind.Valid kind value)
  | .int ge le, .int n => inferInstanceAs (Decidable (ge ≤ n ∧ n ≤ le))
  | .float ge le multipleOf, .float q =>
      inferInstanceAs (Decidable (ge ≤ q ∧ q ≤ le ∧ (q / multipleOf).isInt = true))
  | .enum members, .enum member => inferInstanceAs (Decidable (member ∈ members))
  | .int .., .float _ | .int .., .enum _ | .float .., .int _ | .float .., .enum _
  | .enum _, .int _ | .enum _, .float _ => .isFalse id

/-- A JSON value taken for a field's type, strictly: a number with a
fraction is no integer, a boolean no number. -/
def FieldKind.convert : FieldKind → JsonValue → Option WriteValue
  | int .., .int n => some (.int n)
  | float .., .int n => some (.float n)
  | float .., .float (.finite q) => some (.float q)
  | enum _, .str member => some (.enum member)
  | _, _ => none

/-- A JSON value read into a field, `none` where it is refused. -/
def FieldKind.read (kind : FieldKind) (value : JsonValue) : Option WriteValue :=
  (kind.convert value).filter fun v => kind.Valid v

theorem FieldKind.valid_of_read {kind : FieldKind} {value : JsonValue} {v : WriteValue}
    (h : kind.read value = some v) : kind.Valid v := by
  rw [read, Option.filter_eq_some_iff] at h
  exact of_decide_eq_true h.2

/-- The value as JSON. -/
def WriteValue.toJson : WriteValue → JsonValue
  | int n => .int n
  | float q => .float (.finite q)
  | enum member => .str member

/-- A value inside its bounds is read back. -/
theorem FieldKind.read_toJson {kind : FieldKind} {v : WriteValue} (h : kind.Valid v) :
    kind.read v.toJson = some v := by
  have hconvert : kind.convert v.toJson = some v := by
    cases kind <;> cases v <;> first | rfl | exact h.elim
  rw [read, hconvert, Option.filter_some, if_pos (decide_eq_true h)]

/-- A field of a write model. -/
structure WriteField where
  name : String
  /-- `alias`: its Tydom name. -/
  aliasName : String
  kind : FieldKind
  deriving DecidableEq

/-- The subclasses of `UsageWrite`. -/
inductive WriteModel where
  | areaWrite
  | boilerWrite
  | re2020ControlBoilerWrite
  | shutterWrite
  deriving DecidableEq

namespace WriteModel

/-- `__name__`. -/
def className : WriteModel → String
  | areaWrite => "AreaWrite"
  | boilerWrite => "BoilerWrite"
  | re2020ControlBoilerWrite => "Re2020ControlBoilerWrite"
  | shutterWrite => "ShutterWrite"

/-- A setpoint, in degrees. -/
def setpoint : FieldKind := .float 1 50 (1 / 2)

/-- `ThermicWrite`. -/
def thermicFields : List WriteField :=
  [⟨"comfort_mode", "comfortMode", .enum ["HEATING", "STOP"]⟩,
    ⟨"heat_setpoint", "heatSetpoint", setpoint⟩,
    ⟨"local_mode", "localMode", .enum ["ABSENCE", "ANTI_FROST", "NORMAL", "STOP"]⟩,
    ⟨"override_remaining_time", "overrideRemainingTime", .int 0 720⟩,
    ⟨"override_setpoint", "overrideSetpoint", setpoint⟩,
    ⟨"override_thermic_level", "overrideThermicLevel", .enum ["ANTI_FROST", "STOP"]⟩,
    ⟨"setpoint", "setpoint", setpoint⟩,
    ⟨"thermic_level", "thermicLevel", .enum ["ANTI_FROST", "STOP"]⟩,
    ⟨"use_mode", "useMode", .enum ["MANUAL", "OVERRIDE", "SCHED"]⟩]

/-- `PositionCmd`. -/
def positionCmd : List String :=
  ["DOWN", "DOWN_SLOW", "FAVORIT1", "FAVORIT2", "STOP", "UP", "UP_SLOW"]

/-- `model_fields`. -/
def fields : WriteModel → List WriteField
  | areaWrite | boilerWrite => thermicFields
  | re2020ControlBoilerWrite => [⟨"selected_prog", "selectedProg", .int 0 4⟩]
  | shutterWrite =>
      [⟨"position", "position", .int 0 100⟩, ⟨"position_cmd", "positionCmd", .enum positionCmd⟩]

end WriteModel

/-- `WRITES`: the write model of each usage that may be written. -/
def writes : UsageModel → Option WriteModel
  | .area => some .areaWrite
  | .boiler => some .boilerWrite
  | .re2020ControlBoiler => some .re2020ControlBoilerWrite
  | .shutter => some .shutterWrite
  | _ => none

/-! ## Writes -/

/-- A Tydom body: the name and the value of each field set. -/
abbrev WriteBody : Type := List (String × WriteValue)

/-- `body()`, for the values of a model's fields. -/
def bodyOf (fields : List WriteField) (values : WriteField → Option WriteValue) : WriteBody :=
  fields.filterMap fun field => (values field).map fun value => (field.aliasName, value)

/-- **`UsageWrite`**: fields to write, inside their bounds, at least
one. -/
structure UsageWrite where
  model : WriteModel
  values : WriteField → Option WriteValue
  valid : ∀ field value, values field = some value → field.kind.Valid value
  nonempty : bodyOf model.fields values ≠ []

/-- `body()`. -/
def UsageWrite.body (write : UsageWrite) : WriteBody := bodyOf write.model.fields write.values

section Validate

variable (model : WriteModel) (byName : Bool) (given : Dict String JsonValue)

/-- The keys a field is given under. -/
def WriteField.keys (field : WriteField) : List String :=
  if byName then [field.aliasName, field.name] else [field.aliasName]

/-- The value given for a field. -/
def WriteField.lookup (field : WriteField) : Option JsonValue :=
  (field.keys byName).findSome? given.get?

/-- The field accepts what is given for it: nothing, null, or a value it
reads. -/
def WriteField.accepts (field : WriteField) : Bool :=
  match field.lookup byName given with
  | none | some .null => true
  | some value => (field.kind.read value).isSome

/-- The keys of the errors of the validation: the fields that accept no
value given, then the keys of no field. -/
def errorKeys : List String :=
  ((model.fields.filter fun field => !field.accepts byName given).map WriteField.aliasName) ++
    given.keys.filter fun key => key ∉ model.fields.flatMap (WriteField.keys byName)

/-- `_describe`: a name the model does not have is not echoed. -/
def describe (locations : List String) : String :=
  let known := model.fields.map WriteField.name ++ model.fields.map WriteField.aliasName
  let fields := (locations.filter fun location => location ∈ known).dedup.mergeSort
    fun a b => decide (a ≤ b)
  let unknown := locations.any fun location => location ∉ known
  let parts := (if fields = [] then [] else ["invalid fields " ++ ", ".intercalate fields]) ++
    if unknown ∨ locations = [] then ["unknown fields or invalid input"] else []
  model.className ++ ": " ++ "; ".intercalate parts

/-- The values read from what is given. -/
def readValues (field : WriteField) : Option WriteValue :=
  (field.lookup byName given).bind field.kind.read

/-- `model_validate` of a mapping: by Tydom name only, or by field name
too. -/
def modelValidate : Except Exc UsageWrite :=
  let errors := errorKeys model byName given
  if errors ≠ [] then .error (.invalidWrite (describe model errors))
  else if h : bodyOf model.fields (readValues byName given) ≠ [] then
    .ok ⟨model, readValues byName given, fun field value hvalue => by
      obtain ⟨json, -, hread⟩ := Option.bind_eq_some_iff.1 hvalue
      exact field.kind.valid_of_read hread, h⟩
  else .error (.invalidWrite (model.className ++ ": nothing to write"))

end Validate

/-- `dict(write)`: the values by field name. -/
def UsageWrite.toDict (write : UsageWrite) : Dict String JsonValue :=
  Dict.ofList (write.model.fields.map fun field =>
    (field.name, ((write.values field).map WriteValue.toJson).getD .null))

end Tydomio
