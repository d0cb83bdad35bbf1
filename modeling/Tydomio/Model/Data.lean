import Tydomio.Common.Dict
import Mathlib.Data.Rat.Defs

/-!
# Values exchanged with the Tydom

JSON values as the parsers return them, and the data models of
`model/data.py` and `model/config.py`. A double is a rational number, an
infinity or not a number. The records keep the fields that some modelled
function reads.
-/

namespace Tydomio

open Common

/-- A byte string. -/
abbrev Bytes : Type := List UInt8

/-- The bytes of an ASCII text. -/
def bytesOf (text : String) : Bytes := text.toList.map fun c => UInt8.ofNat c.toNat

/-- **A double.** -/
inductive PyFloat where
  | finite (value : ℚ)
  | infinity (negative : Bool)
  | nan
  deriving DecidableEq

/-- **A JSON value**, `JsonValue` of `capture/jsonvalue.py`. An object is
its items in document order. -/
inductive JsonValue where
  | null
  | bool (value : Bool)
  | int (value : ℤ)
  | float (value : PyFloat)
  | str (value : String)
  | list (items : List JsonValue)
  | dict (items : List (String × JsonValue))

namespace JsonValue

/-- Neither a list nor an object. -/
def isLeaf : JsonValue → Bool
  | list _ | dict _ => false
  | _ => true

/-- **Induction over a JSON value**, through its items and the values under
its keys. -/
theorem induction {value : JsonValue → Prop} {items : List JsonValue → Prop}
    {fields : List (String × JsonValue) → Prop}
    (leaf : ∀ v, v.isLeaf = true → value v)
    (list : ∀ xs, items xs → value (.list xs))
    (dict : ∀ fs, fields fs → value (.dict fs))
    (nil : items []) (cons : ∀ x xs, value x → items xs → items (x :: xs))
    (noField : fields [])
    (field : ∀ k x fs, value x → fields fs → fields ((k, x) :: fs)) :
    ∀ v, value v :=
  fun v => @JsonValue.rec value items fields (fun e => value e.2) (leaf _ rfl)
    (fun _ => leaf _ rfl) (fun _ => leaf _ rfl) (fun _ => leaf _ rfl) (fun _ => leaf _ rfl)
    list dict nil cons noField (fun e fs he hfs => field e.1 e.2 fs he hfs) (fun _ _ h => h) v

mutual

/-- **No object has a key twice**, as of every value of the language. -/
def distinctKeys : JsonValue → Bool
  | list items => distinctItems items
  | dict items => decide (items.map Prod.fst).Nodup && distinctFields items
  | _ => true

/-- No object in a list has a key twice. -/
def distinctItems : List JsonValue → Bool
  | [] => true
  | item :: items => distinctKeys item && distinctItems items

/-- No object under the keys of an object has a key twice. -/
def distinctFields : List (String × JsonValue) → Bool
  | [] => true
  | (_, value) :: items => distinctKeys value && distinctFields items

end

end JsonValue

/-! ## Pushed and answered data -/

/-- The value of a data item: `float | str | None`. -/
inductive DataValue where
  | number (value : PyFloat)
  | text (value : String)
  | none
  deriving DecidableEq

/-- `Data`: one field as received. -/
structure Data where
  name : String
  validity : String
  value : DataValue
  deriving DecidableEq

/-- `Endpoint` of `model/data.py`: the data of one endpoint or area. -/
structure DataEndpoint where
  id : ℤ
  error : ℤ
  data : List Data
  deriving DecidableEq

/-- `ModelItem`: the endpoints of one device. -/
structure ModelItem where
  id : ℤ
  endpoints : List DataEndpoint
  deriving DecidableEq

/-- The content of `/devices/data`. -/
abbrev DevicesData : Type := List ModelItem

/-- The content of `/areas/data`. -/
abbrev AreasData : Type := List DataEndpoint

/-! ## The config -/

/-- `Endpoint` of `model/config.py`. -/
structure ConfigEndpoint where
  idDevice : ℤ
  idEndpoint : ℤ
  name : String
  lastUsage : String
  deriving DecidableEq

/-- `Group` of `model/config.py`. -/
structure ConfigGroup where
  id : ℤ
  name : String
  usage : String
  groupAll : Bool
  deriving DecidableEq

/-- `Area` of `model/config.py`. -/
structure ConfigArea where
  id : ℤ
  name : String
  lastUsage : String
  deriving DecidableEq

/-- `Config`: the content of `/configs/file`. -/
structure Config where
  date : ℤ
  endpoints : List ConfigEndpoint
  groups : List ConfigGroup
  areas : List ConfigArea
  deriving DecidableEq

end Tydomio
