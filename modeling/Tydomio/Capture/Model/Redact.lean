import Tydomio.Common.Numbering
import Tydomio.Common.Rounding
import Tydomio.Capture.Model.Anonymize
import Tydomio.Capture.Model.Rules
import Tydomio.Model.Error
import Mathlib.Data.Rat.Floor

/-!
# The anonymizer

What `capture/anonymize.py` does at a leaf, and `anonymize` itself: ids and
names are numbered in one pass over all bodies, a data value is made of its
descriptor, and a leaf that no rule keeps is redacted and reported. `node`
is `_node` with its result; `walk` records the same calls.
-/

namespace Tydomio

open Common

namespace Capture

/-! ## Numbers and texts of the language -/

/-- `float(n)`: to 53 bits, ties to even; none where it is too large. -/
def floatOfInt (n : ℤ) : Option PyFloat :=
  let rounded := roundBits 53 n.natAbs
  if rounded < 2 ^ 1024 then some (.finite (n.sign * rounded)) else none

/-- `int(x)`. -/
def intOfFloat : PyFloat → Except Exc ℤ
  | .finite q => .ok (if 0 ≤ q then ⌊q⌋ else ⌈q⌉)
  | .infinity _ => .error (.other "OverflowError")
  | .nan => .error .valueError

/-- **`str` of a double and of a container.** No double has the text of an
integer: it has a point, an exponent or letters. -/
structure Texts where
  float : PyFloat → String
  container : JsonValue → String
  float_ne_int : ∀ x (n : ℤ), float x ≠ toString n

/-- `str(value)`. -/
def Texts.str (texts : Texts) : JsonValue → String
  | .null => "None"
  | .bool value => if value then "True" else "False"
  | .int value => toString value
  | .float value => texts.float value
  | .str value => value
  | value => texts.container value

/-! ## Leaves -/

/-- `REDACTED` of `scrub.py`. -/
def redacted : String := "<redacted>"

/-- `NOT_IN_ENUM`. -/
def notInEnum : String := "<not-in-enum>"

/-- `NO_RULE`. -/
def noRule : String := "no-rule"

/-- `KEEP_CONSTRAINT`. -/
def keepConstraint : String := "keep-constraint"

/-- `UnknownLeaf`. -/
structure UnknownLeaf where
  url : String
  path : String
  jsonType : String
  reason : String
  deriving DecidableEq

/-- `json_type_name`. -/
def jsonTypeName : JsonValue → String
  | .null => "null"
  | .bool _ => "bool"
  | .int _ => "int"
  | .float _ => "float"
  | .str _ => "str"
  | .list _ => "list"
  | .dict _ => "dict"

/-- `placeholder`. -/
def placeholder : JsonValue → JsonValue
  | .bool _ => .bool false
  | .int _ => .int 0
  | .float _ => .float (.finite 0)
  | .str _ => .str redacted
  | _ => .null

/-! ## Descriptors -/

/-- `_Descriptors`: under the ids of the levels and the name, the raw
descriptor. -/
abbrev DescriptorIndex : Type := Dict (List String) (List (String × JsonValue))

/-- `items.get(key)`, a missing value being null. -/
def field (items : List (String × JsonValue)) (key : String) : JsonValue :=
  (items.lookup key).getD .null

/-- The objects of a list; none where it is no list. -/
def objectsOf : JsonValue → List (List (String × JsonValue))
  | .list items => items.filterMap fun item =>
      match item with
      | .dict fields => some fields
      | _ => none
  | _ => []

/-- `index.setdefault((*key, name), descriptor)`, for a descriptor with a
name. -/
def indexOne (key : List String) (index : DescriptorIndex)
    (descriptor : List (String × JsonValue)) : DescriptorIndex :=
  match field descriptor "name" with
  | .str name => (index.setDefault (key ++ [name]) descriptor).2
  | _ => index

/-- `visit` of `_index_descriptors`. -/
def visitItems (texts : Texts) (items : JsonValue) (start : List String) :
    List String → DescriptorIndex → DescriptorIndex
  | [], index => (objectsOf items).foldl (fun index item =>
      (objectsOf (field item "metadata")).foldl
        (indexOne (start ++ [texts.str (field item "id")])) index) index
  | next :: remaining, index => (objectsOf items).foldl (fun index item =>
      visitItems texts (field item next) (start ++ [texts.str (field item "id")])
        remaining index) index

/-- `_index_descriptors`. -/
def indexDescriptors (texts : Texts) (body : JsonValue) (levels : List String) :
    DescriptorIndex :=
  visitItems texts body [] levels ∅

/-! ## The state -/

/-- `_Anonymizer`, without the descriptors, which it only reads. -/
structure State extends Anonymizer where
  ids : Dict String ℕ
  names : Dict String (Dict String ℕ)
  unknown : List UnknownLeaf

namespace State

/-- `_Anonymizer()`. -/
def initial : State := ⟨⟨"", ∅, []⟩, ∅, ∅, []⟩

variable (state : State) (position : Position)

/-- `_key`. -/
def key (key : String) : String × State :=
  let out := state.toAnonymizer.key key position
  (out.1, { state with toAnonymizer := out.2 })

/-- `_unknown_leaf`. -/
def unknownLeaf (value : JsonValue) (reason : String) : JsonValue × State :=
  let report : UnknownLeaf :=
    ⟨state.url, Capture.generic position.generic, jsonTypeName value, reason⟩
  (placeholder value, { state with unknown := insertNew state.unknown report })

/-- The number of an id, from `_id`. -/
def idNumber (text : String) : ℕ × State :=
  let ids := state.ids.setDefault text (state.ids.entries.length + 1)
  (ids.1, { state with ids := ids.2 })

/-- `_id`. -/
def id : JsonValue → JsonValue × State
  | .null => (.null, state)
  | .int n => (.int (state.idNumber (toString n)).1, (state.idNumber (toString n)).2)
  | .str text =>
      if text = "" then (.str "", state)
      else (.str (toString (state.idNumber text).1), (state.idNumber text).2)
  | value => state.unknownLeaf position value keepConstraint

/-- `rule.kind or "name"`. -/
def kindOf (rule : Rule) : String :=
  match rule.kind with
  | some kind => if kind = "" then "name" else kind
  | none => "name"

/-- The number of a name of a kind, from `_name`. -/
def nameNumber (kind text : String) : ℕ × State :=
  let names := (state.names.setDefault kind ∅).1
  let result := names.setDefault text (names.entries.length + 1)
  (result.1, { state with names := state.names.set kind result.2 })

/-- `_name`. -/
def name (rule : Rule) : JsonValue → JsonValue × State
  | .null => (.null, state)
  | .str text =>
      let result := state.nameNumber (kindOf rule) text
      (.str ("<name:" ++ kindOf rule ++ ":" ++ toString result.1 ++ ">"), result.2)
  | value => state.unknownLeaf position value keepConstraint

end State

section Node

variable (texts : Texts) (descriptors : Dict String DescriptorIndex)

/-! ## Data values -/

/-- The key of the descriptor of a data value, in the objects around it. -/
def dataKey (dicts : List (List (String × JsonValue))) : List String :=
  dicts.dropLast.map (fun level => texts.str (field level "id")) ++
    [texts.str (field (dicts.getLast?.getD []) "name")]

/-- The descriptor of a data value, empty where there is none. -/
def descriptorOf (url : String) (dicts : List (List (String × JsonValue))) :
    List (String × JsonValue) :=
  (((descriptors.get? url).getD ∅).get? (dataKey texts dicts)).getD []

/-- An item is the text. -/
def isText (text : String) : JsonValue → Bool
  | .str value => value = text
  | _ => false

/-- The result of a conversion, which raises where there is none. -/
def converted : Option PyFloat → Except Exc JsonValue
  | some x => .ok (.float x)
  | none => .error (.other "OverflowError")

/-- The received type of the number a value becomes, from its descriptor. -/
def numberOf (value minimum : JsonValue) : Except Exc JsonValue :=
  match value, minimum with
  | .float _, .int n => converted (floatOfInt n)
  | .float _, .float x => .ok (.float x)
  | .int _, .int n => .ok (.int n)
  | .int _, .float x => (intOfFloat x).map .int
  | value, _ => .ok (placeholder value)

/-- What a text becomes, from its descriptor. -/
def enumOf (text : String) (enumValues : JsonValue) : String :=
  match enumValues with
  | .list items =>
      if items.any (isText text) && passes (.str text) .enumValue then text else notInEnum
  | _ => redacted

/-- `_value`. -/
def valueOf (url : String) (dicts : List (List (String × JsonValue))) (value : JsonValue) :
    Except Exc JsonValue :=
  let descriptor := descriptorOf texts descriptors url dicts
  match value with
  | .null => .ok .null
  | .bool b => .ok (.bool b)
  | .int _ | .float _ => numberOf value (field descriptor "min")
  | .str text => .ok (.str (enumOf text (field descriptor "enum_values")))
  | value => .ok (placeholder value)

/-! ## The walk -/

/-- `_leaf`. -/
def leaf (position : Position) (state : State) (value : JsonValue) :
    Except Exc (JsonValue × State) :=
  match position.completeRule with
  | none => .ok (state.unknownLeaf position value noRule)
  | some rule =>
      match rule.action with
      | .keep =>
          if rule.keep.any (passes value) then .ok (value, state)
          else .ok (state.unknownLeaf position value keepConstraint)
      | .id => .ok (state.id position value)
      | .name => .ok (state.name position rule value)
      | .value => (valueOf texts descriptors state.url position.dicts value).map (·, state)
      | .redact => .ok (placeholder value, state)

mutual

/-- `_node`. -/
def node (position : Position) (state : State) : JsonValue → Except Exc (JsonValue × State)
  | .list items => do
      let result ← nodeItems position state items
      return (.list result.1, result.2)
  | .dict items => do
      let position' := { position with dicts := position.dicts ++ [items] }
      let result ← nodeKeys position' state [] items
      return (.dict result.1, result.2)
  | value => leaf texts descriptors position state value

/-- The items of a list, in order. -/
def nodeItems (position : Position) (state : State) :
    List JsonValue → Except Exc (List JsonValue × State)
  | [] => .ok ([], state)
  | item :: items => do
      let result ← node (position.child listItem "" listItem) state item
      let rest ← nodeItems position result.2 items
      return (result.1 :: rest.1, rest.2)

/-- The values of an object, in order, written into the output object. -/
def nodeKeys (position : Position) (state : State) (anonymized : List (String × JsonValue)) :
    List (String × JsonValue) → Except Exc (List (String × JsonValue) × State)
  | [] => .ok (anonymized, state)
  | (key, value) :: items => do
      let out := state.key position key
      let result ← node (position.child key key out.1) out.2 value
      nodeKeys position result.2 (Dict.setEntries out.1 result.1 anonymized) items

end

/-- `endpoint`. -/
def State.endpoint (state : State) (url : String) (body : JsonValue) (policy : EndpointPolicy) :
    Except Exc (JsonValue × State) :=
  node texts descriptors (.root policy) { state with url } body

end Node

/-! ## A capture -/

/-- **What is anonymized**: the bodies and the statuses, by url. -/
structure Captured where
  bodies : Dict String JsonValue
  statuses : Dict String ℤ
  distinct : ∀ body ∈ bodies.values, body.distinctKeys = true

/-- `Anonymized`. -/
structure Anonymized where
  bodies : Dict String JsonValue
  unclassified : List UnknownLeaf
  renamedKeys : List RenamedKey

namespace Captured

variable (capture : Captured)

/-- The rules of an endpoint: none without a policy, or for another status
than 200. -/
def policyOf (url : String) : EndpointPolicy :=
  match policyTable.get? url with
  | some policy => if capture.statuses.get? url = some 200 then policy else ⟨[], []⟩
  | none => ⟨[], []⟩

/-- The bodies in the order they are gone through: those of the policy
first, in its order. -/
def order : List (String × JsonValue) :=
  (policyTable.keys.filterMap fun url => (capture.bodies.get? url).map (url, ·)) ++
    capture.bodies.entries.filter fun item => !policyTable.contains item.1

/-- The descriptors of each data url whose source came with status 200. -/
def descriptors (texts : Texts) : Dict String DescriptorIndex :=
  .ofList (descriptorSources.entries.filterMap fun source =>
    if capture.statuses.get? source.2.1 = some 200 then
      (capture.bodies.get? source.2.1).map fun body =>
        (source.1, indexDescriptors texts body source.2.2)
    else none)

/-- The loop over the bodies. -/
def anonymizeAll (texts : Texts) :
    List (String × JsonValue) → Dict String JsonValue → State →
      Except Exc (Dict String JsonValue × State)
  | [], anonymized, state => .ok (anonymized, state)
  | (url, body) :: rest, anonymized, state => do
      let result ← state.endpoint texts (capture.descriptors texts) url body (capture.policyOf url)
      anonymizeAll texts rest (anonymized.set url result.1) result.2

end Captured

/-- `anonymize`. -/
def anonymize (texts : Texts) (capture : Captured) : Except Exc Anonymized :=
  (capture.anonymizeAll texts capture.order ∅ .initial).map fun result =>
    ⟨result.1, result.2.unknown, result.2.renamed⟩

end Capture

end Tydomio
