import Tydomio.Common.Json.Scan

/-!
# Writing a JSON text

A style says what is escaped, how much each level is indented and what
stands after a comma and a colon. Only blanks and escapes depend on it.
-/

namespace Common

namespace Json

/-- **How a text is written.** -/
structure Style where
  /-- Whether all is escaped that is not ASCII. -/
  ascii : Bool
  /-- The blanks of a level, each item on a line of its own; none for one
  line. -/
  indent : Option ℕ
  /-- The blanks after a comma on one line. -/
  itemBlanks : ℕ
  /-- The blanks after a colon. -/
  keyBlanks : ℕ
  deriving DecidableEq

/-! ## Strings -/

/-- The letter of a short escape. -/
def shortEscape (c : Char) : Option Char :=
  if c = '"' ∨ c = '\\' then some c
  else if c = '\n' then some 'n'
  else if c = '\r' then some 'r'
  else if c = '\t' then some 't'
  else if c = '\x0c' then some 'f'
  else if c = '\x08' then some 'b'
  else none

/-- A hexadecimal digit. -/
def hexChar (n : ℕ) : Char := Char.ofNat (if n < 10 then 48 + n else 87 + n)

/-- A unit as an escape. -/
def unitEscape (n : ℕ) : List Char :=
  ['\\', 'u', hexChar (n / 4096 % 16), hexChar (n / 256 % 16), hexChar (n / 16 % 16),
    hexChar (n % 16)]

/-- A character as an escape of one or two units. -/
def unicodeEscape (c : Char) : List Char :=
  if c.toNat < 0x10000 then unitEscape c.toNat
  else
    unitEscape (0xd800 + (c.toNat - 0x10000) / 0x400) ++
      unitEscape (0xdc00 + (c.toNat - 0x10000) % 0x400)

/-- A character in a string. -/
def writeChar (ascii : Bool) (c : Char) : List Char :=
  match shortEscape c with
  | some letter => ['\\', letter]
  | none => if c.toNat < 32 || (ascii && 126 < c.toNat) then unicodeEscape c else [c]

/-- A string. -/
def writeString (ascii : Bool) (text : String) : List Char :=
  '"' :: text.toList.flatMap (writeChar ascii) ++ ['"']

/-! ## Trees -/

section Write

variable (style : Style)

/-- The start of a line at a level. -/
def newline (level : ℕ) : List Char :=
  match style.indent with
  | none => []
  | some width => '\n' :: List.replicate (width * level) ' '

/-- What stands between two items at a level. -/
def itemSeparator (level : ℕ) : List Char :=
  ',' :: (match style.indent with
    | none => List.replicate style.itemBlanks ' '
    | some _ => newline style level)

/-- A key and its colon. -/
def writeKey (key : String) : List Char :=
  writeString style.ascii key ++ ':' :: List.replicate style.keyBlanks ' '

mutual

/-- **A tree written** at a level. -/
def write (level : ℕ) : Tree → List Char
  | .null => "null".toList
  | .bool true => "true".toList
  | .bool false => "false".toList
  | .str text => writeString style.ascii text
  | .number numeral => numeral.text
  | .list [] => ['[', ']']
  | .list (item :: items) =>
      '[' :: newline style (level + 1) ++ write (level + 1) item ++ writeItems (level + 1) items ++
        newline style level ++ [']']
  | .dict [] => ['{', '}']
  | .dict ((key, value) :: fields) =>
      '{' :: newline style (level + 1) ++ writeKey style key ++ write (level + 1) value ++
        writeFields (level + 1) fields ++ newline style level ++ ['}']

/-- The items after the first. -/
def writeItems (level : ℕ) : List Tree → List Char
  | [] => []
  | item :: items => itemSeparator style level ++ write level item ++ writeItems level items

/-- The fields after the first. -/
def writeFields (level : ℕ) : List (String × Tree) → List Char
  | [] => []
  | (key, value) :: fields =>
      itemSeparator style level ++ writeKey style key ++ write level value ++
        writeFields level fields

end

end Write

end Json

end Common
