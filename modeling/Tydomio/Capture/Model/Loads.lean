import Tydomio.Common.Dict
import Tydomio.Capture.Model.Json

/-!
# The hooks of the JSON parser

`json.loads` reads a text and converts its numbers in the order they stand
there: with `float` and `int`, or with the hooks it is given. The hooks of
`parse_json` are `_reject_constant` and `_finite_float`. How a text is read
is outside the repository, a `JsonReader`; an exception of a hook, or of
`int`, ends the reading where the number stands.
-/

namespace Tydomio

open Common

namespace Capture

/-! ## What is read -/

/-- The numbers that `json.loads` reads and JSON has not. -/
inductive Constant where
  | nan
  | infinity
  | minusInfinity
  deriving DecidableEq

/-- A number of a text, as it stands there. -/
inductive Numeral where
  | constant (name : Constant)
  | float (text : String)
  | int (text : String)
  deriving DecidableEq

/-- **A text that was read**: its numbers are not converted, and an object
has a key as often as the text. -/
inductive Tree where
  | null
  | bool (value : Bool)
  | str (value : String)
  | number (numeral : Numeral)
  | list (items : List Tree)
  | dict (items : List (String × Tree))

/-- Why a text is read no further. -/
inductive Refusal where
  /-- Bad syntax. -/
  | badSyntax
  /-- Too deep a nesting for the parser itself. -/
  | tooDeep

/-- The exception of it. -/
def Refusal.error : Refusal → StrictError
  | badSyntax => .jsonDecodeError
  | tooDeep => .recursionError

/-- What is read of a text: all of it, or the numbers up to where it stops. -/
inductive Reading where
  | value (tree : Tree)
  | stopped (before : List Numeral) (refusal : Refusal)

/-- **The parser outside the repository.** -/
structure JsonReader where
  /-- How `json.loads` reads a text. -/
  read : String → Reading
  /-- `float(text)`. -/
  float : String → PyFloat

/-! ## Conversion -/

/-- The digits `int` converts at most. -/
def maxStrDigits : ℕ := 4300

/-- The digits of an integer numeral. -/
def digitsOf (text : String) : ℕ := (text.toList.filter Char.isDigit).length

/-- `int(text)`. -/
def intOf (text : String) : Except StrictError ℤ :=
  if maxStrDigits < digitsOf text then .error .valueError else .ok (text.toInt?.getD 0)

/-- `parse_constant` and `parse_float`. -/
structure Hooks where
  parseConstant : Constant → Except StrictError PyFloat
  parseFloat : String → Except StrictError PyFloat

namespace Hooks

variable (hooks : Hooks)

/-- A number converted. -/
def number : Numeral → Except StrictError JsonValue
  | .constant name => (hooks.parseConstant name).map .float
  | .float text => (hooks.parseFloat text).map .float
  | .int text => (intOf text).map .int

mutual

/-- The value of a text. -/
def value : Tree → Except StrictError JsonValue
  | .null => .ok .null
  | .bool value => .ok (.bool value)
  | .str value => .ok (.str value)
  | .number numeral => hooks.number numeral
  | .list items => (valueItems items).map .list
  | .dict items => (valueFields [] items).map .dict

/-- The items of a list, in order. -/
def valueItems : List Tree → Except StrictError (List JsonValue)
  | [] => .ok []
  | item :: items => do
      let item ← value item
      let items ← valueItems items
      return item :: items

/-- The values of an object, in order, written into the object. -/
def valueFields (written : List (String × JsonValue)) :
    List (String × Tree) → Except StrictError (List (String × JsonValue))
  | [] => .ok written
  | (key, item) :: items => do
      let item ← value item
      valueFields (Dict.setEntries key item written) items

end

/-- `json.loads`, once the text is read. -/
def loads : Reading → Except StrictError JsonValue
  | .value tree => hooks.value tree
  | .stopped before refusal => do
      let _ ← before.mapM hooks.number
      throw refusal.error

end Hooks

/-! ## Hooks -/

/-- The hooks of `json.loads` where none are given. -/
def plainHooks (float : String → PyFloat) : Hooks where
  parseConstant name :=
    match name with
    | .nan => .ok .nan
    | .infinity => .ok (.infinity false)
    | .minusInfinity => .ok (.infinity true)
  parseFloat text := .ok (float text)

/-- `_reject_constant`. -/
def rejectConstant (_name : Constant) : Except StrictError PyFloat :=
  .error (.notJson "Non-finite number")

/-- `_finite_float`. -/
def finiteFloat (float : String → PyFloat) (text : String) : Except StrictError PyFloat :=
  match float text with
  | .finite q => .ok (.finite q)
  | _ => .error (.notJson "Non-finite number")

/-- Those of `parse_json`. -/
def strictHooks (float : String → PyFloat) : Hooks := ⟨rejectConstant, finiteFloat float⟩

/-- `content.decode("utf-8")`. -/
def decodeUtf8 (content : Bytes) : Option String := String.fromUTF8? ⟨content.toArray⟩

namespace JsonReader

variable (reader : JsonReader)

/-- `json.loads(text)`. -/
def plain (text : String) : Except StrictError JsonValue :=
  (plainHooks reader.float).loads (reader.read text)

/-- The parser of `parse_json`, with its hooks. -/
def strict : StrictParser where
  decode := decodeUtf8
  loads text := (strictHooks reader.float).loads (reader.read text)

end JsonReader

end Capture

end Tydomio
