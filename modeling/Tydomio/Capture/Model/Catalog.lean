import Tydomio.Common.Merge
import Tydomio.Model.Data
import Mathlib.Data.String.Basic

/-!
# The catalog of a capture

`capture/catalog.py`: the fields and commands of each usage, and the merge
of two catalogs. Two descriptions of one entry are compared attribute by
attribute with `==`, under which an integer and a double of the same value
are equal and a NaN is not equal to itself.
-/

namespace Tydomio

open Common

namespace Capture

/-- `Number`. -/
inductive Number where
  | int (value : ℤ)
  | float (value : PyFloat)
  deriving DecidableEq

/-- The number as a double's value, without rounding. -/
def Number.value : Number → PyFloat
  | int n => .finite n
  | float x => x

/-- `==` of two numbers. -/
def Number.eq (known found : Number) : Bool :=
  known.value ≠ .nan && known.value = found.value

/-- `Descriptor`. -/
structure Descriptor where
  name : String
  type : String
  permission : Option String
  validity : Option String
  unit : Option String
  min : Option Number
  max : Option Number
  step : Option Number
  size : Option ℤ
  enumValues : Option (List String)
  deriving DecidableEq

/-- `Command`. -/
structure Command where
  name : String
  permission : String
  parameters : List Descriptor
  deriving DecidableEq

/-- `Usage`. -/
structure Usage where
  fields : List Descriptor
  commands : List Command
  deriving DecidableEq

/-- `Usage()`. -/
def Usage.empty : Usage := ⟨[], []⟩

/-- `Catalog`. -/
abbrev Catalog : Type := Dict String Usage

/-! ## Comparing -/

/-- What a conflict quotes: the value of an attribute, or a command. -/
inductive AttributeValue where
  | text (value : Option String)
  | number (value : Option Number)
  | integer (value : Option ℤ)
  | command (value : Command)
  deriving DecidableEq

/-- `==` of two optional numbers. -/
def optionEq : Option Number → Option Number → Bool
  | none, none => true
  | some known, some found => known.eq found
  | _, _ => false

/-- `==` of two values of one attribute. -/
def AttributeValue.eq : AttributeValue → AttributeValue → Bool
  | number known, number found => optionEq known found
  | known, found => known = found

/-- `Descriptor.model_fields` without `enum_values`, with their values. -/
def Descriptor.attributes (d : Descriptor) : List (String × AttributeValue) := [
  ("name", .text d.name),
  ("type", .text d.type),
  ("permission", .text d.permission),
  ("validity", .text d.validity),
  ("unit", .text d.unit),
  ("min", .number d.min),
  ("max", .number d.max),
  ("step", .number d.step),
  ("size", .integer d.size)]

/-- Two descriptors agree on every attribute but `enum_values`. -/
def Descriptor.agrees (known found : Descriptor) : Bool :=
  (known.attributes.zip found.attributes).all fun pair => pair.1.2.eq pair.2.2

/-- `==` of two descriptors. -/
def Descriptor.eq (known found : Descriptor) : Bool :=
  known.agrees found && known.enumValues = found.enumValues

/-- `==` of two lists of descriptors. -/
def parametersEq : List Descriptor → List Descriptor → Bool
  | [], [] => true
  | known :: knowns, found :: founds => known.eq found && parametersEq knowns founds
  | _, _ => false

/-- `==` of two commands. -/
def Command.eq (known found : Command) : Bool :=
  known.name = found.name && known.permission = found.permission &&
    parametersEq known.parameters found.parameters

/-- `Conflict`. -/
structure Conflict where
  usage : String
  name : String
  attributeName : String
  known : AttributeValue
  found : AttributeValue
  deriving DecidableEq

/-! ## Merging -/

/-- `_sorted_enum`. -/
def sortedEnum (descriptor : Descriptor) : Descriptor :=
  match descriptor.enumValues with
  | none => descriptor
  | some enumValues => { descriptor with enumValues := some (sortedSet enumValues) }

/-- `_sorted_command`. -/
def sortedCommand (command : Command) : Command :=
  { command with parameters := command.parameters.map sortedEnum }

/-- The enum values of two descriptions: none only where both have none. -/
def unionOf (known found : Option (List String)) : Option (List String) :=
  if known = none ∧ found = none then none
  else some (sortedSet (known.getD [] ++ found.getD []))

/-- `_merge_field`. -/
def mergeField (usage : String) (known found : Descriptor) : Descriptor × List Conflict :=
  ({ known with enumValues := unionOf known.enumValues found.enumValues },
    (known.attributes.zip found.attributes).filterMap fun pair =>
      if pair.1.2.eq pair.2.2 then none
      else some ⟨usage, known.name, pair.1.1, pair.1.2, pair.2.2⟩)

/-- What a field found makes of the one known under its name. -/
def mergeFound (usage : String) (known : Option Descriptor) (found : Descriptor) :
    Descriptor × List Conflict :=
  match known with
  | none => (found, [])
  | some known => mergeField usage known found

/-- The same for a command. In a conflict the known one is kept: writing it
back under its name changes nothing. -/
def mergeCommand (usage : String) (known : Option Command) (found : Command) :
    Command × List Conflict :=
  match known with
  | none => (found, [])
  | some known =>
      if known.eq found then (found, [])
      else (known, [⟨usage, found.name, "command", .command known, .command found⟩])

/-- `_merge_usage`. -/
def mergeUsage (name : String) (known found : Usage) : Usage × List Conflict :=
  let fields := Dict.mergeAll Descriptor.name (mergeFound name) found.fields
    (Dict.byKey Descriptor.name known.fields)
  let commands := Dict.mergeAll Command.name (mergeCommand name) found.commands
    (Dict.byKey Command.name known.commands)
  (⟨fields.1.listing, commands.1.listing⟩, fields.2 ++ commands.2)

/-- `merge`. -/
def merge (known found : Catalog) : Catalog × List Conflict :=
  let usages := Dict.mergeAll Prod.fst
    (fun known usage => mergeUsage usage.1 (known.getD .empty) usage.2) found.entries known
  (usages.1.inOrder, usages.2)

/-- The loop of `extract`: the entries merged in turn into the empty
catalog. -/
def mergeEntries (entries : List Catalog) : Catalog × List Conflict :=
  entries.foldl (fun merged entry =>
    let result := merge merged.1 entry
    (result.1, merged.2 ++ result.2)) (∅, [])

/-- `_MetaEndpoint`. -/
structure MetaEndpoint where
  id : ℤ
  metadata : List Descriptor
  cmetadata : List Command
  deriving DecidableEq

/-- A catalog of one usage. -/
def oneUsage (name : String) (usage : Usage) : Catalog := Dict.ofList [(name, usage)]

/-- `_entry`. -/
def entry (name : String) (endpoint : MetaEndpoint) : Catalog :=
  oneUsage name ⟨endpoint.metadata.map sortedEnum, endpoint.cmetadata.map sortedCommand⟩

end Capture

end Tydomio
