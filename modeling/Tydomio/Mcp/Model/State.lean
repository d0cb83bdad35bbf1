import Tydomio.Mcp.Model.View
import Tydomio.Model.Readings

/-!
# The state of an item

`_typed_state` of `mcp_server/view.py`, and what `_item` shows of an entity
with it: the values of the fields and the validities that are not up to
date, by name, or `invalid_state`.
-/

namespace Tydomio

open Common

namespace Mcp

/-- `_UP_TO_DATE`. -/
def upToDate : String := "upToDate"

/-- `_finite`. -/
def finite : TypedValue → Bool
  | .number (.finite _) => true
  | .number _ => false
  | _ => true

/-- The values and the validities of a state. -/
structure Values where
  values : Dict String TypedValue
  validity : Dict String String
  deriving DecidableEq

/-- What an item shows beside its name. -/
inductive Shown where
  /-- No state: its usage has no model. -/
  | plain
  /-- `"error": "invalid_state"`. -/
  | invalidState
  /-- A state; without validities where all are up to date, and without an
  error of the Tydom where there is none. -/
  | state (values : Dict String TypedValue) (validity : Option (Dict String String))
      (tydomError : Option ℤ)
  deriving DecidableEq

section State

variable (sameLetter : Char → Char → Bool) (secrets : Secrets)

/-- `_value`. -/
def shownValue : TypedValue → TypedValue
  | .text text => .text (sanitize sameLetter secrets text)
  | value => value

/-- A name with its value, and with its validity if it is not up to date. -/
def Values.put (shown : Values) (name : String) (reading : Reading) : Values where
  values := shown.values.set name (shownValue sameLetter secrets reading.value)
  validity :=
    if reading.validity ≠ upToDate then
      shown.validity.set name (sanitize sameLetter secrets reading.validity)
    else shown.validity

/-- The loop over the dumped fields. -/
def putTyped (shown : Values) : List (String × Reading) → Option Values
  | [] => some shown
  | (name, reading) :: readings =>
      if finite reading.value then putTyped (shown.put sameLetter secrets name reading) readings
      else none

/-- The loop over the unknown fields. -/
def putUnknown (aliases : List String) (shown : Values) : List (String × Data) → Option Values
  | [] => some shown
  | (name, field) :: fields =>
      let key := sanitize sameLetter secrets name
      -- a raw name never takes the place of a typed field, present or not
      if key ∈ aliases ∨ key ∈ shown.values.keys then putUnknown aliases shown fields
      else if finite field.value.typed then
        putUnknown aliases (shown.put sameLetter secrets key ⟨field.value.typed, field.validity⟩)
          fields
      else none

/-- `_typed_state`. -/
def typedState (typed : Typed) : Option Values :=
  (putTyped sameLetter secrets ⟨∅, ∅⟩ typed.readings).bind fun shown =>
    putUnknown sameLetter secrets typed.model.aliases shown typed.unknown.entries

variable (lax : Lax)

/-- `_item`, from the model of the usage on. -/
def Item.shown (item : Item) : Shown :=
  match item.reads with
  | none => .plain
  | some (model, entity) =>
      if entity.invalid then .invalidState
      else
        match fromData lax model entity.fields.values with
        | .error _ => .invalidState
        | .ok typed =>
            match typedState sameLetter secrets typed with
            | none => .invalidState
            | some shown =>
                .state shown.values
                  (if shown.validity.entries = [] then none else some shown.validity)
                  (if entity.error ≠ 0 then some entity.error else none)

end State

end Mcp

end Tydomio
