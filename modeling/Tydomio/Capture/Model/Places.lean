import Tydomio.Capture.Model.Redact

/-!
# What the anonymizer is for

The same anonymizer said over the whole capture at once, with no state: a
body is rewritten place by place, a key or a leaf being rewritten by its
path and by what the whole capture holds. The numbers are those of the
order of first occurrence in the list of all places, the trail, and the
reports are the list of what each place reports, each once.
-/

namespace Tydomio

open Common

namespace Capture

/-! ## The places of a body -/

/-- **A leaf**, with the path to it and the objects around it, outermost
first. -/
structure Leaf where
  path : List Step
  dicts : List (List (String × JsonValue))
  value : JsonValue

/-- **A place**: a key of the object at a path, or a leaf. -/
inductive Place where
  | key (path : List Step) (key : String)
  | leaf (leaf : Leaf)

mutual

/-- The places of a node, in document order. -/
def places (path : List Step) (dicts : List (List (String × JsonValue))) :
    JsonValue → List Place
  | .list items => placesItems path dicts items
  | .dict items => placesKeys path (dicts ++ [items]) items
  | value => [.leaf ⟨path, dicts, value⟩]

/-- The places of the items of a list. -/
def placesItems (path : List Step) (dicts : List (List (String × JsonValue))) :
    List JsonValue → List Place
  | [] => []
  | item :: items => places (path ++ [.item]) dicts item ++ placesItems path dicts items

/-- The places of the items of an object. -/
def placesKeys (path : List Step) (dicts : List (List (String × JsonValue))) :
    List (String × JsonValue) → List Place
  | [] => []
  | (key, value) :: items =>
      .key path key :: (places (path ++ [.key key]) dicts value ++ placesKeys path dicts items)

end

/-- The leaf of a place that is one. -/
def Place.leaf? : Place → Option Leaf
  | .leaf found => some found
  | .key _ _ => none

/-- The key of a place that is one, with the path of its object. -/
def Place.key? : Place → Option (List Step × String)
  | .leaf _ => none
  | .key path name => some (path, name)

/-- The leaves of a body, in document order. -/
def leaves (body : JsonValue) : List Leaf := (places [] [] body).filterMap Place.leaf?

/-- The keys of a body, in document order. -/
def keysOf (body : JsonValue) : List (List Step × String) :=
  (places [] [] body).filterMap Place.key?

/-! ## Rewriting a body -/

/-- What becomes of a key of the object at a path, and of a leaf. -/
structure Rewrite where
  key : List Step → String → String
  leaf : Leaf → JsonValue

namespace Rewrite

variable (r : Rewrite)

mutual

/-- The node rewritten. -/
def node (path : List Step) (dicts : List (List (String × JsonValue))) : JsonValue → JsonValue
  | .list items => .list (items' path dicts items)
  | .dict items => .dict (fields path (dicts ++ [items]) items)
  | value => r.leaf ⟨path, dicts, value⟩

/-- The items of a list rewritten. -/
def items' (path : List Step) (dicts : List (List (String × JsonValue))) :
    List JsonValue → List JsonValue
  | [] => []
  | item :: items => node (path ++ [.item]) dicts item :: items' path dicts items

/-- The items of an object rewritten. -/
def fields (path : List Step) (dicts : List (List (String × JsonValue))) :
    List (String × JsonValue) → List (String × JsonValue)
  | [] => []
  | (key, value) :: items =>
      (r.key path key, node (path ++ [.key key]) dicts value) :: fields path dicts items

end

/-- The body rewritten. -/
def body (value : JsonValue) : JsonValue := r.node [] [] value

/-- The steps of a path rewritten, after those of `done`. -/
def steps (done : List Step) : List Step → List Step
  | [] => []
  | .item :: rest => .item :: steps (done ++ [.item]) rest
  | .key key :: rest => .key (r.key done key) :: steps (done ++ [.key key]) rest

/-- The path rewritten. -/
def path (path : List Step) : List Step := r.steps [] path

end Rewrite

/-! ## What a path selects -/

namespace Position

/-- The position one step down. -/
def step (position : Position) : Step → Position
  | .item => position.child listItem "" listItem
  | .key key => position.child key key key

/-- The position at a path, with the raw keys for the output keys. -/
def along (policy : EndpointPolicy) (path : List Step) : Position :=
  path.foldl step (root policy)

/-- A rule names the key, or its suffix, as the next of its path. -/
def declares (position : Position) (key : String) : Bool :=
  position.rules.any fun rule =>
    match (parsePath rule.1.path)[rule.2]? with
    | none => false
    | some segment =>
        segment ≠ String.singleton anyKey && segment ≠ listItem && segmentMatches segment key

/-- The key is not renamed. -/
def keeps (position : Position) (key : String) : Bool :=
  position.declares key || (!position.isOpaque && isIdentifier key)

end Position

/-- The rule that the walk completes at a leaf. -/
def Leaf.rule (policy : EndpointPolicy) (leaf : Leaf) : Option Rule :=
  (Position.along policy leaf.path).completeRule

/-- The text of an id that is numbered. -/
def idText : JsonValue → Option String
  | .int n => some (toString n)
  | .str text => if text = "" then none else some text
  | _ => none

/-- Why a leaf is reported, if it is. -/
def Leaf.reason (policy : EndpointPolicy) (leaf : Leaf) : Option String :=
  match leaf.rule policy with
  | none => some noRule
  | some rule =>
      match rule.action, leaf.value with
      | .keep, value => if rule.keep.any (passes value) then none else some keepConstraint
      | .id, .null | .id, .int _ | .id, .str _ => none
      | .id, _ => some keepConstraint
      | .name, .null | .name, .str _ => none
      | .name, _ => some keepConstraint
      | .value, _ | .redact, _ => none

/-! ## The trail of a capture -/

/-- **A place of a capture**, with its endpoint. -/
structure Stop where
  url : String
  policy : EndpointPolicy
  place : Place

namespace Stop

/-- The key, where it is renamed. -/
def renamedKey (stop : Stop) : Option String :=
  match stop.place with
  | .key path key => if (Position.along stop.policy path).keeps key then none else some key
  | .leaf _ => none

/-- The text of an id, where it is numbered. -/
def idText (stop : Stop) : Option String :=
  match stop.place with
  | .key _ _ => none
  | .leaf leaf =>
      (leaf.rule stop.policy).bind fun rule =>
        if rule.action = .id then Capture.idText leaf.value else none

/-- The kind and the text of a name, where it is numbered. -/
def nameText (stop : Stop) : Option (String × String) :=
  match stop.place with
  | .key _ _ => none
  | .leaf leaf =>
      (leaf.rule stop.policy).bind fun rule =>
        match rule.action, leaf.value with
        | .name, .str text => some (State.kindOf rule, text)
        | _, _ => none

end Stop

/-- The stops at the places of a body. -/
def stopsOf (url : String) (policy : EndpointPolicy) (body : JsonValue) : List Stop :=
  (places [] [] body).map (Stop.mk url policy)

/-- The token of a renamed key. -/
def keyToken (n : ℕ) : String := "<key-" ++ toString n ++ ">"

/-- The token of a name. -/
def nameToken (kind : String) (n : ℕ) : String := "<name:" ++ kind ++ ":" ++ toString n ++ ">"

section Trail

variable (trail : List Stop)

/-- The number of a key among the renamed keys. -/
def keyNumber (key : String) : ℕ := number (trail.filterMap Stop.renamedKey) key

/-- The number of an id. -/
def idNumber (text : String) : ℕ := number (trail.filterMap Stop.idText) text

/-- The number of a name of a kind. -/
def nameNumber (kind text : String) : ℕ :=
  number (Dict.itemsOf kind (trail.filterMap Stop.nameText)) text

/-- What becomes of a key. -/
def outKey (policy : EndpointPolicy) (path : List Step) (key : String) : String :=
  if (Position.along policy path).keeps key then key else keyToken (keyNumber trail key)

/-- What becomes of an id. -/
def outId : JsonValue → JsonValue
  | .null => .null
  | .int n => .int (idNumber trail (toString n))
  | .str text => if text = "" then .str "" else .str (toString (idNumber trail text))
  | value => placeholder value

/-- What becomes of a name. -/
def outName (kind : String) : JsonValue → JsonValue
  | .null => .null
  | .str text => .str (nameToken kind (nameNumber trail kind text))
  | value => placeholder value

variable (texts : Texts) (descriptors : Dict String DescriptorIndex)

/-- What becomes of a leaf; of a data value that raises, nothing is said. -/
def outLeaf (url : String) (policy : EndpointPolicy) (leaf : Leaf) : JsonValue :=
  match leaf.rule policy with
  | none => placeholder leaf.value
  | some rule =>
      match rule.action with
      | .keep => if rule.keep.any (passes leaf.value) then leaf.value else placeholder leaf.value
      | .id => outId trail leaf.value
      | .name => outName trail (State.kindOf rule) leaf.value
      | .value => (valueOf texts descriptors url leaf.dicts leaf.value).toOption.getD .null
      | .redact => placeholder leaf.value

/-- The rewriting of a body. -/
def rewriteOf (url : String) (policy : EndpointPolicy) : Rewrite :=
  ⟨outKey trail policy, outLeaf trail texts descriptors url policy⟩

end Trail

/-- A step in a reported path. -/
def Step.text : Step → String
  | .item => listItem
  | .key name => name

/-- The path of a node by its output keys, as reported. -/
def outPath (trail : List Stop) (policy : EndpointPolicy) (path : List Step) : List String :=
  (Rewrite.path ⟨outKey trail policy, Leaf.value⟩ path).map Step.text

namespace Stop

/-- The exception that the place raises. -/
def failure (texts : Texts) (descriptors : Dict String DescriptorIndex) (stop : Stop) :
    Option Exc :=
  match stop.place with
  | .key _ _ => none
  | .leaf leaf =>
      (leaf.rule stop.policy).bind fun rule =>
        if rule.action = .value then
          match valueOf texts descriptors stop.url leaf.dicts leaf.value with
          | .ok _ => none
          | .error e => some e
        else none

variable (trail : List Stop)

/-- The report of a leaf. -/
def unknownLeaf (stop : Stop) : Option UnknownLeaf :=
  match stop.place with
  | .key _ _ => none
  | .leaf leaf =>
      (leaf.reason stop.policy).map fun reason =>
        ⟨stop.url, generic (outPath trail stop.policy leaf.path), jsonTypeName leaf.value, reason⟩

/-- The report of a renamed key. -/
def renamedReport (stop : Stop) : Option RenamedKey :=
  match stop.place with
  | .leaf _ => none
  | .key path key =>
      if (Position.along stop.policy path).keeps key then none
      else some ⟨stop.url, generic (outPath trail stop.policy path ++
        [keyToken (keyNumber trail key)])⟩

end Stop

namespace Captured

variable (capture : Captured)

/-- **The trail**: every place, in the order they are gone through. -/
def trail : List Stop :=
  capture.order.flatMap fun item => stopsOf item.1 (capture.policyOf item.1) item.2

/-- What becomes of the body of a url. -/
def outBody (texts : Texts) (url : String) (body : JsonValue) : JsonValue :=
  (rewriteOf capture.trail texts (capture.descriptors texts) url (capture.policyOf url)).body body

end Captured

end Capture

end Tydomio
