import Tydomio.Capture.Model.Dumps
import Tydomio.Capture.Model.Extract

/-!
# The catalog file

`dump`, `read_capture`, `read_catalog` and `main` of `capture/catalog.py`. A
run reads the files of a capture and the catalog file, and writes the catalog
file only where it merged without a conflict. What the files hold, and
whether the catalog file can be written, is the world's.
-/

namespace Tydomio

open Common

namespace Capture

/-! ## The text of a catalog -/

section Values

/-- A field of a model that is left out where it is `None`. -/
def optionalField (key : String) (value : Option JsonValue) : List (String × JsonValue) :=
  match value with
  | none => []
  | some value => [(key, value)]

/-- A number as it is dumped. -/
def Number.json : Number → JsonValue
  | int n => .int n
  | float x => .float x

/-- The fields of a `Descriptor` as they are dumped. -/
def Descriptor.jsonFields (d : Descriptor) : List (String × JsonValue) :=
  ("name", .str d.name) :: ("type", .str d.type) ::
    (optionalField "permission" (d.permission.map .str) ++
    (optionalField "validity" (d.validity.map .str) ++
    (optionalField "unit" (d.unit.map .str) ++
    (optionalField "min" (d.min.map Number.json) ++
    (optionalField "max" (d.max.map Number.json) ++
    (optionalField "step" (d.step.map Number.json) ++
    (optionalField "size" (d.size.map .int) ++
    optionalField "enum_values"
      (d.enumValues.map fun values => .list (values.map .str)))))))))

/-- `model_dump` of a `Descriptor`. -/
def Descriptor.json (d : Descriptor) : JsonValue := .dict d.jsonFields

/-- `model_dump` of a `Command`. -/
def Command.json (c : Command) : JsonValue :=
  .dict [("name", .str c.name), ("permission", .str c.permission),
    ("parameters", .list (c.parameters.map Descriptor.json))]

/-- `model_dump` of a `Usage`. -/
def Usage.json (u : Usage) : JsonValue :=
  .dict [("fields", .list (u.fields.map Descriptor.json)),
    ("commands", .list (u.commands.map Command.json))]

/-- `catalog.model_dump(mode="json", exclude_none=True)`. -/
def catalogJson (catalog : Catalog) : JsonValue :=
  .dict (catalog.entries.map fun entry => (entry.1, entry.2.json))

/-- `dump`: none where it raises. -/
def dump (text : FloatText) (catalog : Catalog) : Option String :=
  (dumps text catalogOptions (catalogJson catalog)).map (· ++ "\n")

end Values

/-! ## Reading -/

/-- What a run raises: `InvalidInput`, or an exception it lets through. -/
inductive CatalogError where
  | invalidInput (e : InvalidInput)
  | raised (e : Exc)
  deriving DecidableEq

section Read

variable (parser : StrictParser) (lax : LaxNumbers)

/-- A file parsed, where it can be read. -/
def parsedFile (content : Option Bytes) : Except JsonError JsonValue :=
  match content with
  -- an `OSError` is caught where `NotJson` is
  | none => .error (.notJson "")
  | some content => parseJson parser content

/-- A document of a capture. -/
def readDocument (files : String → Option Bytes) (name : String) :
    Except CatalogError JsonValue :=
  match parsedFile parser (files name) with
  | .ok value => .ok value
  | .error (.notJson _) => .error (.invalidInput ⟨name ++ ": missing or not JSON"⟩)
  | .error (.raised e) => .error (.raised e)

/-- `read_capture`: the documents, read in turn. -/
def readCapture (files : String → Option Bytes) :
    Except CatalogError (Dict String JsonValue) :=
  (captureFiles.mapM fun name => (readDocument parser files name).map fun value =>
    (name, value)).map Dict.ofList

/-- `Usage`, which forbids any other key. -/
def readUsage : JsonValue → Option Usage := readModel fun items => do
  let fields ← readField (readList (readDescriptor lax)) (some []) "fields" items
  let commands ← readField (readList (readCommand lax)) (some []) "commands" items
  if items.all fun item => item.1 = "fields" || item.1 = "commands" then
    return ⟨fields, commands⟩
  else none

/-- `Catalog`. -/
def catalogOf : JsonValue → Option Catalog := readModel fun items =>
  (items.mapM fun item => (readUsage lax item.2).map fun usage => (item.1, usage)).map Dict.ofList

/-- The catalog file. -/
inductive CatalogFile where
  | absent
  /-- It exists and cannot be read. -/
  | unreadable
  | content (bytes : Bytes)
  deriving DecidableEq

/-- The bytes of it, if it can be read. -/
def CatalogFile.bytes : CatalogFile → Option Bytes
  | content bytes => some bytes
  | _ => none

/-- `read_catalog`. -/
def readCatalog (path : String) (file : CatalogFile) : Except CatalogError Catalog :=
  if file = .absent then .ok ∅
  else
    match parsedFile parser file.bytes with
    | .ok value =>
        match catalogOf lax value with
        | some catalog => .ok catalog
        | none => .error (.invalidInput ⟨path ++ ": not a catalog"⟩)
    | .error (.notJson _) => .error (.invalidInput ⟨path ++ ": not a catalog"⟩)
    | .error (.raised e) => .error (.raised e)

end Read

/-! ## A run -/

/-- **How a run ends.** -/
inductive CatalogEnding where
  | written
  | conflicting (conflicts : List Conflict)
  | invalid (e : InvalidInput)
  /-- An exception that no handler takes. -/
  | raised (e : Exc)
  deriving DecidableEq

/-- **What a run finds**: the files of a capture, and whether the catalog
file can be opened to write. -/
structure CatalogInput where
  files : String → Option Bytes
  opens : Bool

section Main

variable (parser : StrictParser) (lax : LaxNumbers) (text : FloatText) (path : String)

/-- `main` up to the writing: the merged catalog and the conflicts. -/
def mergedCatalog (files : String → Option Bytes) (file : CatalogFile) :
    Except CatalogError (Catalog × List Conflict) := do
  let documents ← readCapture parser files
  let (found, conflicts) ← (extract lax documents).mapError .invalidInput
  let known ← readCatalog parser lax path file
  let (catalog, merged) := merge known found
  return (catalog, conflicts ++ merged)

/-- **`main`**, its arguments parsed: how it ends, and the file after it. -/
def catalogMain (input : CatalogInput) (file : CatalogFile) : CatalogEnding × CatalogFile :=
  match mergedCatalog parser lax path input.files file with
  | .error (.invalidInput e) => (.invalid e, file)
  | .error (.raised e) => (.raised e, file)
  | .ok (catalog, conflicts) =>
      if conflicts ≠ [] then (.conflicting conflicts, file)
      else
        match dump text catalog with
        -- the text is made before the file is opened
        | none => (.raised .valueError, file)
        | some dumped =>
            if input.opens then (.written, .content (encodeUtf8 dumped))
            else (.raised (.other "OSError"), file)

/-- Runs one after the other: how each ends, and the file after all. -/
def catalogRuns (file : CatalogFile) : List CatalogInput → List CatalogEnding × CatalogFile
  | [] => ([], file)
  | input :: inputs =>
      let (ending, file) := catalogMain parser lax text path input file
      let (endings, file) := catalogRuns file inputs
      (ending :: endings, file)

end Main

end Capture

end Tydomio
