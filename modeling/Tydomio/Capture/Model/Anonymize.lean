import Tydomio.Common.Dict
import Tydomio.Common.Path
import Tydomio.Capture.Model.Policy
import Tydomio.Model.Data

/-!
# The walk of the anonymizer

`_Position` and the keys of `_Anonymizer._node` of `capture/anonymize.py`.
`walk` is `_node` with its calls recorded, each with the path of its node,
and without what is done at a leaf and the maps that only leaves use.
-/

namespace Tydomio

open Common

namespace Capture

/-! ## Positions -/

/-- `_Position`. -/
structure Position where
  rules : List (Rule × ℕ)
  opaquePaths : List (List String × ℕ)
  /-- `opaque`: the keys of this node are all renamed. -/
  isOpaque : Bool
  generic : List String
  dicts : List (List (String × JsonValue))

/-- `follows`: a path goes on through the key or list item. -/
def follows (segment key : String) (segments : List String) (position : ℕ) : Bool :=
  match segments[position]? with
  | none => false
  | some next =>
      -- a key `[]` of an object comes here as well
      if segment = listItem then next = listItem
      else next ≠ listItem && segmentMatches next key

/-- A path is at its end. -/
def complete (segments : List String) (position : ℕ) : Bool := position = segments.length

namespace Position

/-- The position at the root of a body. -/
def root (policy : EndpointPolicy) : Position :=
  ⟨policy.rules.map fun rule => (rule, 0),
    policy.opaquePaths.map fun path => (parsePath path, 0), false, [], []⟩

variable (position : Position)

/-- `child`. -/
def child (segment key outKey : String) : Position :=
  let opaquePaths := Path.advance (follows segment key) position.opaquePaths
  { position with
    rules := Path.advance (fun rule => follows segment key (parsePath rule.path)) position.rules
    opaquePaths
    isOpaque := position.isOpaque || opaquePaths.any fun path => complete path.1 path.2
    generic := position.generic ++ [outKey] }

/-- `complete_rule`. -/
def completeRule : Option Rule :=
  (position.rules.find? fun rule => complete (parsePath rule.1.path) rule.2).map Prod.fst

end Position

/-! ## Keys -/

/-- `IDENTIFIER`, matched in full. -/
def isIdentifier (key : String) : Bool :=
  match key.toList with
  | [] => false
  | c :: cs =>
      (c.isAlpha || c = '_') && cs.length ≤ 63 && cs.all fun c => c.isAlphanum || c = '_'

/-- `_generic`. -/
def generic (parts : List String) : String :=
  let text := parts.flatMap fun part =>
    if part = listItem then part.toList else '.' :: part.toList
  String.ofList (Text.removePrefix ['.'] text)

/-- `RenamedKey`. -/
structure RenamedKey where
  url : String
  path : String
  deriving DecidableEq

/-- The parts of `_Anonymizer` that the walk uses. -/
structure Anonymizer where
  url : String
  keys : Dict String String
  renamed : List RenamedKey

/-- `_key`: the output key, and the anonymizer after it. -/
def Anonymizer.key (anonymizer : Anonymizer) (key : String) (position : Position) :
    String × Anonymizer :=
  let declared := position.rules.any fun rule =>
    match (parsePath rule.1.path)[rule.2]? with
    | none => false
    | some segment =>
        -- `*` alone goes on through every key, and names none
        segment ≠ String.singleton anyKey && segment ≠ listItem && segmentMatches segment key
  if declared || (!position.isOpaque && isIdentifier key) then (key, anonymizer)
  else
    let fresh := "<key-" ++ toString (anonymizer.keys.entries.length + 1) ++ ">"
    let renamed := (anonymizer.keys.get? key).getD fresh
    let report : RenamedKey := ⟨anonymizer.url, generic (position.generic ++ [renamed])⟩
    (renamed,
      { anonymizer with
        keys := anonymizer.keys.set key renamed
        renamed :=
          if report ∈ anonymizer.renamed then anonymizer.renamed
          else anonymizer.renamed ++ [report] })

/-! ## The walk -/

/-- A step down a body: into an item of a list or under a key of an
object. -/
inductive Step where
  | item
  | key (key : String)
  deriving DecidableEq

/-- A node that the walk is at: its path, and its position. -/
structure Visit where
  path : List Step
  position : Position

mutual

/-- `_node`, with the nodes it is called on. -/
def walk (path : List Step) (position : Position) (anonymizer : Anonymizer) :
    JsonValue → List Visit × Anonymizer
  | .list items =>
      let walked := walkItems path position anonymizer items
      (⟨path, position⟩ :: walked.1, walked.2)
  | .dict items =>
      let position' := { position with dicts := position.dicts ++ [items] }
      let walked := walkKeys path position' anonymizer items
      (⟨path, position⟩ :: walked.1, walked.2)
  | _ => ([⟨path, position⟩], anonymizer)

/-- The items of a list, in order. -/
def walkItems (path : List Step) (position : Position) (anonymizer : Anonymizer) :
    List JsonValue → List Visit × Anonymizer
  | [] => ([], anonymizer)
  | item :: items =>
      let walked := walk (path ++ [.item]) (position.child listItem "" listItem) anonymizer item
      let rest := walkItems path position walked.2 items
      (walked.1 ++ rest.1, rest.2)

/-- The values of an object, in order. -/
def walkKeys (path : List Step) (position : Position) (anonymizer : Anonymizer) :
    List (String × JsonValue) → List Visit × Anonymizer
  | [] => ([], anonymizer)
  | (key, value) :: items =>
      let out := anonymizer.key key position
      let walked := walk (path ++ [.key key]) (position.child key key out.1) out.2 value
      let rest := walkKeys path position walked.2 items
      (walked.1 ++ rest.1, rest.2)

end

/-- The nodes of a body, as `endpoint` walks it. -/
def visits (anonymizer : Anonymizer) (policy : EndpointPolicy) (body : JsonValue) : List Visit :=
  (walk [] (.root policy) anonymizer body).1

end Capture

end Tydomio
