import Mathlib.Data.List.Basic
import Mathlib.Logic.Relation

/-!
# Reading a JSON text

A JSON text is read from left to right by a machine with a stack: a mode says
what is expected next, and a frame stands for each list or object that is
open. The numbers are kept as they are written, and those read so far are
known wherever the reading stops. A text that stops the machine is no JSON,
is nested deeper than a limit, or holds half of a surrogate pair, for which
there is no character.
-/

namespace Common

namespace Json

/-! ## What is read -/

/-- A number as it is written; the constants are none of JSON. -/
inductive Numeral where
  | int (text : List Char)
  | float (text : List Char)
  | constant (text : List Char)
  deriving DecidableEq

/-- How it is written. -/
def Numeral.text : Numeral → List Char
  | int text | float text | constant text => text

/-- **A text that was read**: an object has a key as often as the text. -/
inductive Tree where
  | null
  | bool (value : Bool)
  | str (value : String)
  | number (numeral : Numeral)
  | list (items : List Tree)
  | dict (items : List (String × Tree))

/-- Why a text is read no further. -/
inductive Stop where
  | badSyntax
  | tooDeep
  /-- Half of a surrogate pair. -/
  | halfPair
  deriving DecidableEq

/-! ## Blanks and numbers -/

/-- What may stand between two tokens. -/
def isBlank (c : Char) : Bool := c = ' ' || c = '\t' || c = '\n' || c = '\r'

/-- The text from its first token on. -/
def skip (cs : List Char) : List Char := cs.dropWhile isBlank

/-- The digits of a number before its fraction: a zero, or more digits that
do not start with one. -/
def scanDigits (sign : List Char) : List Char → Option (List Char × List Char)
  | [] => none
  | c :: rest =>
      if c = '0' then some (sign ++ ['0'], rest)
      else if c.isDigit then
        some (sign ++ c :: rest.takeWhile Char.isDigit, rest.dropWhile Char.isDigit)
      else none

/-- The digits with their sign. -/
def scanInteger (cs : List Char) : Option (List Char × List Char) :=
  if cs.head? = some '-' then scanDigits ['-'] cs.tail else scanDigits [] cs

/-- A point and digits, if they follow. -/
def scanFraction (cs : List Char) : List Char × List Char :=
  match cs with
  | c :: d :: rest =>
      if c = '.' ∧ d.isDigit = true then
        (c :: d :: rest.takeWhile Char.isDigit, rest.dropWhile Char.isDigit)
      else ([], cs)
  | _ => ([], cs)

/-- The sign of an exponent, if it has one. -/
def exponentSign : List Char → List Char
  | c :: _ => if c = '+' ∨ c = '-' then [c] else []
  | [] => []

/-- An exponent, if it follows. -/
def scanExponent (cs : List Char) : List Char × List Char :=
  match cs with
  | e :: rest =>
      let sign := exponentSign rest
      let digits := (rest.drop sign.length).takeWhile Char.isDigit
      if (e = 'e' ∨ e = 'E') ∧ digits ≠ [] then
        (e :: sign ++ digits, (rest.drop sign.length).dropWhile Char.isDigit)
      else ([], cs)
  | [] => ([], cs)

/-- A number, and what follows it. -/
def scanNumber (cs : List Char) : Option (Numeral × List Char) :=
  (scanInteger cs).map fun integer =>
    let fraction := scanFraction integer.2
    let exponent := scanExponent fraction.2
    (if fraction.1 ++ exponent.1 = [] then .int integer.1
      else .float (integer.1 ++ fraction.1 ++ exponent.1), exponent.2)

/-- The words that are values. -/
def words : List (List Char × Tree) := [
  ("null".toList, .null),
  ("true".toList, .bool true),
  ("false".toList, .bool false),
  ("NaN".toList, .number (.constant "NaN".toList)),
  ("Infinity".toList, .number (.constant "Infinity".toList)),
  ("-Infinity".toList, .number (.constant "-Infinity".toList))]

/-- A word or a number, and what follows it. -/
def scanAtom (cs : List Char) : Option (Tree × List Char) :=
  match words.find? fun word => word.1.isPrefixOf cs with
  | some word => some (word.2, cs.drop word.1.length)
  | none => (scanNumber cs).map fun number => (.number number.1, number.2)

/-! ## Strings -/

/-- The value of a hexadecimal digit. -/
def hexDigit (c : Char) : Option ℕ :=
  if '0' ≤ c ∧ c ≤ '9' then some (c.toNat - 48)
  else if 'a' ≤ c ∧ c ≤ 'f' then some (c.toNat - 87)
  else if 'A' ≤ c ∧ c ≤ 'F' then some (c.toNat - 55)
  else none

/-- The value of four hexadecimal digits. -/
def hexValue (cs : List Char) : Option ℕ :=
  cs.foldl (fun value c => value.bind fun n => (hexDigit c).map (16 * n + ·)) (some 0)

/-- A part of a string: a character, or a unit of UTF-16. -/
inductive Piece where
  | char (c : Char)
  | unit (n : ℕ)
  deriving DecidableEq

/-- What an escape stands for. -/
def escaped (c : Char) : Option Char :=
  if c = '"' ∨ c = '\\' ∨ c = '/' then some c
  else if c = 'b' then some '\x08'
  else if c = 'f' then some '\x0c'
  else if c = 'n' then some '\n'
  else if c = 'r' then some '\r'
  else if c = 't' then some '\t'
  else none

/-- The parts of a string up to its end, and what follows it. -/
def scanPieces : List Char → Option (List Piece × List Char)
  | [] => none
  | c :: cs =>
      if c = '"' then some ([], cs)
      else if c = '\\' then
        match cs with
        | [] => none
        | e :: cs =>
            if e = 'u' then
              match cs with
              | h₁ :: h₂ :: h₃ :: h₄ :: cs => do
                  let n ← hexValue [h₁, h₂, h₃, h₄]
                  let (pieces, rest) ← scanPieces cs
                  return (.unit n :: pieces, rest)
              | _ => none
            else do
              let d ← escaped e
              let (pieces, rest) ← scanPieces cs
              return (.char d :: pieces, rest)
      else if c.toNat < 32 then none
      else do
        let (pieces, rest) ← scanPieces cs
        return (.char c :: pieces, rest)

/-- The first half of a pair. -/
def isHigh (n : ℕ) : Bool := 0xd800 ≤ n && n ≤ 0xdbff

/-- The second half of a pair. -/
def isLow (n : ℕ) : Bool := 0xdc00 ≤ n && n ≤ 0xdfff

/-- The character of a pair. -/
def pairChar (high low : ℕ) : Char :=
  Char.ofNat (0x10000 + (high - 0xd800) * 0x400 + (low - 0xdc00))

/-- The characters of parts; none where half of a pair stands alone. -/
def joinPieces : List Piece → Option (List Char)
  | [] => some []
  | .char c :: pieces => (joinPieces pieces).map (c :: ·)
  | .unit n :: pieces =>
      if isHigh n then
        match pieces with
        | .unit m :: pieces =>
            if isLow m then (joinPieces pieces).map (pairChar n m :: ·) else none
        | _ => none
      else if isLow n then none
      else (joinPieces pieces).map (Char.ofNat n :: ·)

/-- A string after its quote, and what follows it. -/
def scanString (cs : List Char) : Except Stop (String × List Char) :=
  match scanPieces cs with
  | none => .error .badSyntax
  | some (pieces, rest) =>
      match joinPieces pieces with
      | none => .error .halfPair
      | some text => .ok (.ofList text, rest)

/-! ## The machine -/

/-- An open list, or an open object whose last key has no value yet. -/
inductive Frame where
  | items (before : List Tree)
  | fields (before : List (String × Tree)) (key : String)

/-- What is expected next. -/
inductive Mode where
  | value
  /-- The first item of a list, or its end. -/
  | firstItem
  /-- The first key of an object, or its end. -/
  | firstKey
  /-- A key, after these fields. -/
  | key (before : List (String × Tree))
  /-- What may follow a value. -/
  | after (tree : Tree)

/-- **Where the reading is.** -/
structure Config where
  mode : Mode
  stack : List Frame
  /-- The numbers read. -/
  seen : List Numeral
  rest : List Char

/-- What a step gives. -/
inductive Next where
  | more (config : Config)
  | done (tree : Tree)
  | stop (seen : List Numeral) (why : Stop)

/-- The numbers read with a tree that has no parts. -/
def seeing (seen : List Numeral) : Tree → List Numeral
  | .number numeral => seen ++ [numeral]
  | _ => seen

section Steps

variable (limit : ℕ)

/-- A value that starts here. -/
def startValue (stack : List Frame) (seen : List Numeral) (cs : List Char) : Next :=
  if cs.head? = some '"' then
    match scanString cs.tail with
    | .error why => .stop seen why
    | .ok (text, rest) => .more ⟨.after (.str text), stack, seen, rest⟩
  else if cs.head? = some '[' then
    if limit ≤ stack.length then .stop seen .tooDeep
    else .more ⟨.firstItem, stack, seen, cs.tail⟩
  else if cs.head? = some '{' then
    if limit ≤ stack.length then .stop seen .tooDeep
    else .more ⟨.firstKey, stack, seen, cs.tail⟩
  else
    match scanAtom cs with
    | none => .stop seen .badSyntax
    | some (tree, rest) => .more ⟨.after tree, stack, seeing seen tree, rest⟩

/-- A key that starts here, and its colon. -/
def startKey (before : List (String × Tree)) (stack : List Frame) (seen : List Numeral)
    (cs : List Char) : Next :=
  if cs.head? = some '"' then
    match scanString cs.tail with
    | .error why => .stop seen why
    | .ok (key, rest) =>
        if (skip rest).head? = some ':' then
          .more ⟨.value, .fields before key :: stack, seen, (skip rest).tail⟩
        else .stop seen .badSyntax
  else .stop seen .badSyntax

/-- What follows a value. -/
def goOn (tree : Tree) (stack : List Frame) (seen : List Numeral) (cs : List Char) : Next :=
  match stack with
  | [] => if cs = [] then .done tree else .stop seen .badSyntax
  | .items before :: stack =>
      if cs.head? = some ',' then
        .more ⟨.value, .items (before ++ [tree]) :: stack, seen, cs.tail⟩
      else if cs.head? = some ']' then
        .more ⟨.after (.list (before ++ [tree])), stack, seen, cs.tail⟩
      else .stop seen .badSyntax
  | .fields before key :: stack =>
      if cs.head? = some ',' then
        .more ⟨.key (before ++ [(key, tree)]), stack, seen, cs.tail⟩
      else if cs.head? = some '}' then
        .more ⟨.after (.dict (before ++ [(key, tree)])), stack, seen, cs.tail⟩
      else .stop seen .badSyntax

/-- **One step.** -/
def step (c : Config) : Next :=
  let cs := skip c.rest
  match c.mode with
  | .value => startValue limit c.stack c.seen cs
  | .firstItem =>
      if cs.head? = some ']' then .more ⟨.after (.list []), c.stack, c.seen, cs.tail⟩
      else startValue limit (.items [] :: c.stack) c.seen cs
  | .firstKey =>
      if cs.head? = some '}' then .more ⟨.after (.dict []), c.stack, c.seen, cs.tail⟩
      else startKey [] c.stack c.seen cs
  | .key before => startKey before c.stack c.seen cs
  | .after tree => goOn tree c.stack c.seen cs

/-- What the reading ends with. -/
inductive Outcome where
  | value (tree : Tree)
  | stopped (seen : List Numeral) (why : Stop)

/-- At most so many steps. -/
def run : ℕ → Config → Outcome
  | 0, c => .stopped c.seen .badSyntax
  | n + 1, c =>
      match step limit c with
      | .more c => run n c
      | .done tree => .value tree
      | .stop seen why => .stopped seen why

/-- **A text read.** A byte order mark is no blank. -/
def scan (cs : List Char) : Outcome :=
  if cs.head? = some '\ufeff' then .stopped [] .badSyntax
  else run limit (cs.length + 1) ⟨.value, [], [], cs⟩

end Steps

end Json

end Common
