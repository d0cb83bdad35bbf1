import Tydomio.Common.Text

/-!
# The secrets

`scrub.py`: the pattern of the secrets of a run, and their removal from a
text. The pattern is a list of forms, tried in order where they may start.
`sameLetter` tells which characters are one letter when case is ignored; a
MAC is hexadecimal digits, which the pattern need not escape.
-/

namespace Tydomio

/-- `REDACTED`. -/
def redacted : String := "<redacted>"

/-- `Secrets`. -/
structure Secrets where
  password : String
  ip : Option String
  mac : String
  deriving DecidableEq

/-- One step of a form. -/
inductive FormStep where
  /-- A character, in any case. -/
  | letter (c : Char)
  /-- `[:.-]?`. -/
  | separator
  deriving DecidableEq

/-- One alternative of the pattern. -/
abbrev Form : Type := List FormStep

/-- `re.escape` of a text. -/
def Form.literal (text : List Char) : Form := text.map .letter

/-- `"[:.-]?".join` of a text. -/
def Form.separated (text : List Char) : Form := (text.map .letter).intersperse .separator

variable (sameLetter : Char → Char → Bool)

/-- The length of the match of a form at the start of a text. A separator
is taken where it can be, and left where the rest does not match after
it. -/
def Form.matchLength : Form → List Char → Option ℕ
  | [], _ => some 0
  | .letter _ :: _, [] => none
  | .letter c :: form, x :: xs =>
      if sameLetter c x then (matchLength form xs).map (· + 1) else none
  | .separator :: form, [] => matchLength form []
  | .separator :: form, x :: xs =>
      if x ∈ [':', '.', '-'] then
        ((matchLength form xs).map (· + 1)).or (matchLength form (x :: xs))
      else matchLength form (x :: xs)

namespace Secrets

/-- `pattern`: the whole MAC before its last six digits. -/
def pattern (secrets : Secrets) : List Form :=
  let mac := Common.Text.lower secrets.mac.toList
  [.literal secrets.password.toList, .separated mac, .separated (mac.drop (mac.length - 6))] ++
    (secrets.ip.map fun ip => Form.literal ip.toList).toList

/-- The length of the first form's match that is long enough. -/
def matchAt (forms : List Form) (least : ℕ) (text : List Char) : Option ℕ :=
  forms.findSome? fun form => (form.matchLength sameLetter text).filter (least ≤ ·)

/-- The text with every match replaced: `skip` characters of the last match
are still to be passed. After a match of nothing the next one at the same
place takes something. -/
def subFrom (forms : List Form) : ℕ → List Char → List Char
  | skip + 1, _ :: xs => subFrom forms skip xs
  -- at the end only a form of nothing matches
  | _, [] => if (matchAt sameLetter forms 0 []).isSome then redacted.toList else []
  | 0, x :: xs =>
      match matchAt sameLetter forms 0 (x :: xs) with
      | none => x :: subFrom forms 0 xs
      | some (n + 1) => redacted.toList ++ subFrom forms n xs
      | some 0 =>
          redacted.toList ++
            match matchAt sameLetter forms 1 (x :: xs) with
            | some (n + 1) => redacted.toList ++ subFrom forms n xs
            | _ => x :: subFrom forms 0 xs

/-- A form matches somewhere in the text. -/
def searchFrom (forms : List Form) : List Char → Bool
  | [] => (matchAt sameLetter forms 0 []).isSome
  | x :: xs => (matchAt sameLetter forms 0 (x :: xs)).isSome || searchFrom forms xs

/-- `pattern().search`: whether it finds something. -/
def search (secrets : Secrets) (text : String) : Bool :=
  searchFrom sameLetter secrets.pattern text.toList

/-- `scrub`. -/
def scrub (secrets : Secrets) (text : List Char) : List Char :=
  subFrom sameLetter secrets.pattern 0 text

end Secrets

end Tydomio
