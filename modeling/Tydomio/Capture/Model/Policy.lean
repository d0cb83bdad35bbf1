import Tydomio.Common.Text

/-!
# Anonymization rules

`capture/policy.py`: the rules of an endpoint and the paths they are
written with, `.` between keys, `[]` for a list item, `*suffix` for the keys
that end so, `\.` for a dot inside a key.
-/

namespace Tydomio

open Common

namespace Capture

/-- `LIST_ITEM`. -/
def listItem : String := "[]"

/-- `ANY_KEY`. -/
def anyKey : Char := '*'

/-- `Action`. -/
inductive Action where
  | keep
  | id
  | name
  | redact
  | value
  deriving DecidableEq

/-- The types of a kept value. -/
inductive JsonType where
  | bool
  | int
  | float
  | str
  deriving DecidableEq

/-- `Keep`. -/
structure Keep where
  jsonTypes : List JsonType
  pattern : Option String
  deriving DecidableEq

/-- `Rule`. -/
structure Rule where
  path : String
  action : Action
  keep : Option Keep
  kind : Option String
  deriving DecidableEq

/-- `EndpointPolicy`. -/
structure EndpointPolicy where
  rules : List Rule
  opaquePaths : List String
  deriving DecidableEq

/-! ## Paths -/

/-- `re.split(r"(?<!\\)\.", path)`: `escaped` after a backslash, `part` is
read so far, last character first. -/
def splitDots (escaped : Bool) (part : List Char) : List Char → List (List Char)
  | [] => [part.reverse]
  | c :: cs =>
      if c = '.' && !escaped then part.reverse :: splitDots false [] cs
      else splitDots (c = '\\') (c :: part) cs

/-- The key of a part and the number of list marks after it, both read from
the part's last character on. -/
def stripItems : List Char → List Char × ℕ
  | ']' :: '[' :: key => ((stripItems key).1, (stripItems key).2 + 1)
  | key => (key, 0)

/-- `key.replace("\\.", ".")`. -/
def unescapeDots : List Char → List Char
  | '\\' :: '.' :: cs => '.' :: unescapeDots cs
  | c :: cs => c :: unescapeDots cs
  | [] => []

/-- The segments of a part. -/
def partSegments (part : List Char) : List String :=
  let stripped := stripItems part.reverse
  (if stripped.1 = [] then [] else [String.ofList (unescapeDots stripped.1.reverse)]) ++
    List.replicate stripped.2 listItem

/-- `parse_path`. -/
def parsePath (path : String) : List String :=
  (splitDots false [] path.toList).flatMap partSegments

/-- `is_wildcard`. -/
def isWildcard (segment : String) : Bool := segment.toList.head? = some anyKey

/-- `segment_matches`. -/
def segmentMatches (segment key : String) : Bool :=
  if isWildcard segment then
    let suffix := segment.toList.drop 1
    suffix.isSuffixOf key.toList && suffix.length < key.toList.length
  else segment = key

end Capture

end Tydomio
