import Tydomio.Common.Merge
import Tydomio.Common.Json.Print
import Tydomio.Capture.Model.Loads

/-!
# The texts of values

`json.dumps` and `json.loads`, as the repository calls them. How a text is
written and read is that of `Common.Json`; the text of a double and the
double of a text are of the language, a `FloatText`.
-/

namespace Tydomio

open Common

namespace Capture

/-- **Doubles and their texts**, by the language. -/
structure FloatText where
  /-- `repr` of a finite double. -/
  repr : ℚ → String
  /-- `float(text)`. -/
  float : String → PyFloat

/-! ## Writing -/

/-- The arguments of `json.dumps`. -/
structure DumpsOptions where
  style : Json.Style
  allowNan : Bool
  sortKeys : Bool
  deriving DecidableEq

/-- Those of `write_capture`. -/
def storeOptions : DumpsOptions := ⟨⟨false, some 2, 1, 1⟩, false, false⟩

/-- Those of `dump`. -/
def catalogOptions : DumpsOptions := ⟨⟨true, some 2, 1, 1⟩, true, true⟩

/-- Items sorted by their keys. -/
def sortItems {α : Type} (items : List (String × α)) : List (String × α) :=
  items.mergeSort fun item item' => decide (item.1 ≤ item'.1)

mutual

/-- A value with the keys of each object sorted. -/
def sortedKeys : JsonValue → JsonValue
  | .list items => .list (sortedKeysItems items)
  | .dict items => .dict (sortItems (sortedKeysFields items))
  | value => value

/-- Those of the items of a list. -/
def sortedKeysItems : List JsonValue → List JsonValue
  | [] => []
  | item :: items => sortedKeys item :: sortedKeysItems items

/-- Those of the values of an object. -/
def sortedKeysFields : List (String × JsonValue) → List (String × JsonValue)
  | [] => []
  | (key, value) :: items => (key, sortedKeys value) :: sortedKeysFields items

end

/-- The name of a number that is none of JSON. -/
def Constant.text : Constant → List Char
  | nan => "NaN".toList
  | infinity => "Infinity".toList
  | minusInfinity => "-Infinity".toList

section Trees

variable (text : FloatText) (allowNan : Bool)

/-- A double as it is written; none where it raises. -/
def floatNumeral : PyFloat → Option Json.Numeral
  | .finite q => some (.float (text.repr q).toList)
  | .nan => if allowNan then some (.constant Constant.nan.text) else none
  | .infinity negative =>
      if allowNan then
        some (.constant (if negative then Constant.minusInfinity else Constant.infinity).text)
      else none

/-- An integer as it is written: `str` raises over the digit limit. -/
def intNumeral (n : ℤ) : Option Json.Numeral :=
  if maxStrDigits < digitsOf (toString n) then none else some (.int (toString n).toList)

mutual

/-- A value as it is written. -/
def writtenTree : JsonValue → Option Json.Tree
  | .null => some .null
  | .bool value => some (.bool value)
  | .int n => (intNumeral n).map .number
  | .float x => (floatNumeral text allowNan x).map .number
  | .str value => some (.str value)
  | .list items => (writtenItems items).map .list
  | .dict items => (writtenFields items).map .dict

/-- The items of a list. -/
def writtenItems : List JsonValue → Option (List Json.Tree)
  | [] => some []
  | item :: items => do
      let tree ← writtenTree item
      let trees ← writtenItems items
      return tree :: trees

/-- The items of an object. -/
def writtenFields : List (String × JsonValue) → Option (List (String × Json.Tree))
  | [] => some []
  | (key, value) :: items => do
      let tree ← writtenTree value
      let trees ← writtenFields items
      return (key, tree) :: trees

end

end Trees

/-- The value that is written. -/
def DumpsOptions.order (options : DumpsOptions) (value : JsonValue) : JsonValue :=
  if options.sortKeys then sortedKeys value else value

/-- **`json.dumps`**: none where it raises. -/
def dumps (text : FloatText) (options : DumpsOptions) (value : JsonValue) : Option String :=
  (writtenTree text options.allowNan (options.order value)).map fun tree =>
    .ofList (Json.write options.style 0 tree)

/-- `text.encode()`, which encodes UTF-8. -/
def encodeUtf8 (text : String) : Bytes := text.toByteArray.data.toList

/-! ## Reading -/

/-- A number that is none of JSON, by its name. -/
def constantOf (name : List Char) : Constant :=
  if name = Constant.nan.text then .nan
  else if name = Constant.infinity.text then .infinity
  else .minusInfinity

/-- A number that was read. -/
def numeralOf : Json.Numeral → Numeral
  | .int text => .int (.ofList text)
  | .float text => .float (.ofList text)
  | .constant name => .constant (constantOf name)

mutual

/-- A text that was read. -/
def treeOf : Json.Tree → Tree
  | .null => .null
  | .bool value => .bool value
  | .str value => .str value
  | .number numeral => .number (numeralOf numeral)
  | .list items => .list (treesOf items)
  | .dict items => .dict (fieldTreesOf items)

/-- The items of a list. -/
def treesOf : List Json.Tree → List Tree
  | [] => []
  | item :: items => treeOf item :: treesOf items

/-- The items of an object. -/
def fieldTreesOf : List (String × Json.Tree) → List (String × Tree)
  | [] => []
  | (key, value) :: items => (key, treeOf value) :: fieldTreesOf items

end

/-- **The parser of the language.** It goes as deep as `limit`. A text with
half of a surrogate pair reads as what no string of the model is: `unread`
says as what. -/
def scanner (text : FloatText) (limit : ℕ) (unread : String → Reading) : JsonReader where
  read source :=
    match Json.scan limit source.toList with
    | .value tree => .value (treeOf tree)
    | .stopped seen .badSyntax => .stopped (seen.map numeralOf) .badSyntax
    | .stopped seen .tooDeep => .stopped (seen.map numeralOf) .tooDeep
    | .stopped _ .halfPair => unread source
  float := text.float

end Capture

end Tydomio
