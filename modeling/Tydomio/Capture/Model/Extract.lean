import Tydomio.Capture.Model.Catalog
import Tydomio.Capture.Model.Store

/-!
# The catalog of the documents of a capture

`extract` of `capture/catalog.py`. The documents are validated by the shapes
of the file, which ignore the keys they do not name; then the descriptors of
each endpoint whose usage the config gives, and those of each area, are
merged one after the other.
-/

namespace Tydomio

open Common

namespace Capture

/-! ## Validation -/

/-- **The validation library**, in its lax mode: what it reads as a number
where the value is none of the type. -/
structure LaxNumbers where
  /-- An `int` from a boolean, a double or a text. -/
  int : JsonValue → Option ℤ
  /-- An `int | float` from a boolean or a text. -/
  number : JsonValue → Option Number

section Read

variable {α : Type} (lax : LaxNumbers)

/-- `str`. -/
def readStr : JsonValue → Option String
  | .str text => some text
  | _ => none

/-- `int`. -/
def readInt : JsonValue → Option ℤ
  | .int n => some n
  | .null | .list _ | .dict _ => none
  | value => lax.int value

/-- `Number`. -/
def readNumber : JsonValue → Option Number
  | .int n => some (.int n)
  | .float x => some (.float x)
  | .null | .list _ | .dict _ => none
  | value => lax.number value

/-- `T | None`. -/
def readOptional (read : JsonValue → Option α) : JsonValue → Option (Option α)
  | .null => some none
  | value => (read value).map some

/-- `list[T]`, or `tuple[T, ...]`. -/
def readList (read : JsonValue → Option α) : JsonValue → Option (List α)
  | .list items => items.mapM read
  | _ => none

/-- A field of a model, with its default if it has one. -/
def readField (read : JsonValue → Option α) (default : Option α) (key : String)
    (items : List (String × JsonValue)) : Option α :=
  match items.lookup key with
  | none => default
  | some value => read value

/-- A model, read from its fields. -/
def readModel (read : List (String × JsonValue) → Option α) : JsonValue → Option α
  | .dict items => read items
  | _ => none

end Read

/-! ## The shapes -/

/-- `_ConfigEndpoint`. -/
structure UsageEndpoint where
  idDevice : ℤ
  idEndpoint : ℤ
  lastUsage : String
  deriving DecidableEq

/-- `_Device`. -/
structure MetaDevice where
  id : ℤ
  endpoints : List MetaEndpoint
  deriving DecidableEq

section Shapes

variable (lax : LaxNumbers)

/-- The fields of `Descriptor`. -/
def descriptorFieldsOf (items : List (String × JsonValue)) : Option Descriptor := do
  let name ← readField readStr none "name" items
  let type ← readField readStr none "type" items
  let permission ← readField (readOptional readStr) (some none) "permission" items
  let validity ← readField (readOptional readStr) (some none) "validity" items
  let unit ← readField (readOptional readStr) (some none) "unit" items
  let min ← readField (readOptional (readNumber lax)) (some none) "min" items
  let max ← readField (readOptional (readNumber lax)) (some none) "max" items
  let step ← readField (readOptional (readNumber lax)) (some none) "step" items
  let size ← readField (readOptional (readInt lax)) (some none) "size" items
  let enumValues ← readField (readOptional (readList readStr)) (some none) "enum_values" items
  return ⟨name, type, permission, validity, unit, min, max, step, size, enumValues⟩

/-- `Descriptor`. -/
def readDescriptor : JsonValue → Option Descriptor := readModel (descriptorFieldsOf lax)

/-- `Command`. -/
def readCommand : JsonValue → Option Command := readModel fun items => do
  let name ← readField readStr none "name" items
  let permission ← readField readStr none "permission" items
  let parameters ← readField (readList (readDescriptor lax)) (some []) "parameters" items
  return ⟨name, permission, parameters⟩

/-- `_ConfigEndpoint`. -/
def readUsageEndpoint : JsonValue → Option UsageEndpoint := readModel fun items => do
  let idDevice ← readField (readInt lax) none "id_device" items
  let idEndpoint ← readField (readInt lax) none "id_endpoint" items
  let lastUsage ← readField readStr none "last_usage" items
  return ⟨idDevice, idEndpoint, lastUsage⟩

/-- `_Config`: its endpoints. -/
def readConfig : JsonValue → Option (List UsageEndpoint) :=
  readModel (readField (readList (readUsageEndpoint lax)) none "endpoints")

/-- `_MetaEndpoint`. -/
def readMetaEndpoint : JsonValue → Option MetaEndpoint := readModel fun items => do
  let id ← readField (readInt lax) none "id" items
  let metadata ← readField (readList (readDescriptor lax)) (some []) "metadata" items
  let cmetadata ← readField (readList (readCommand lax)) (some []) "cmetadata" items
  return ⟨id, metadata, cmetadata⟩

/-- `_Device`. -/
def readMetaDevice : JsonValue → Option MetaDevice := readModel fun items => do
  let id ← readField (readInt lax) none "id" items
  let endpoints ← readField (readList (readMetaEndpoint lax)) none "endpoints" items
  return ⟨id, endpoints⟩

end Shapes

/-! ## Documents -/

/-- `CONFIG`. -/
def configDocument : String := "configs_file.json"

/-- `DEVICES_META`. -/
def devicesMetaDocument : String := "devices_meta.json"

/-- `DEVICES_CMETA`. -/
def devicesCmetaDocument : String := "devices_cmeta.json"

/-- `AREAS_META`. -/
def areasMetaDocument : String := "areas_meta.json"

/-- `AREAS_CMETA`. -/
def areasCmetaDocument : String := "areas_cmeta.json"

/-- `CAPTURE_FILES`. -/
def captureFiles : List String :=
  [configDocument, devicesMetaDocument, devicesCmetaDocument, areasMetaDocument,
    areasCmetaDocument]

/-- `AREA`. -/
def areaUsage : String := "@area"

/-- `InvalidInput`. -/
structure InvalidInput where
  message : String
  deriving DecidableEq

/-- `_validated`: the body of a document's envelope. -/
def validated {α : Type} (read : JsonValue → Option α) (documents : Dict String JsonValue)
    (name : String) : Except InvalidInput α :=
  match (documents.get? name).bind (readModel (readField read none "body")) with
  | some body => .ok body
  | none => .error ⟨name ++ ": missing or not of the expected shape"⟩

/-- **The five documents**, validated. -/
structure Described where
  config : List UsageEndpoint
  devicesMeta : List MetaDevice
  devicesCmeta : List MetaDevice
  areasMeta : List MetaEndpoint
  areasCmeta : List MetaEndpoint
  deriving DecidableEq

namespace Described

variable (described : Described)

/-- `usages`: the last usage of each endpoint. -/
def usages : Dict (ℤ × ℤ) String :=
  .ofList (described.config.map fun endpoint =>
    ((endpoint.idDevice, endpoint.idEndpoint), endpoint.lastUsage))

/-- The entries of a device: an endpoint missing from the config has none. -/
def deviceEntries (device : MetaDevice) : List Catalog :=
  device.endpoints.filterMap fun endpoint =>
    (described.usages.get? (device.id, endpoint.id)).map fun usage => entry usage endpoint

/-- What `_entries` yields once all is validated. -/
def entries : List Catalog :=
  (described.devicesMeta ++ described.devicesCmeta).flatMap described.deviceEntries ++
    (described.areasMeta ++ described.areasCmeta).map (entry areaUsage)

end Described

section Extract

variable (lax : LaxNumbers) (documents : Dict String JsonValue)

/-- What `_entries` validates, in its order. -/
def describedOf : Except InvalidInput Described := do
  let config ← validated (readConfig lax) documents configDocument
  let devicesMeta ← validated (readList (readMetaDevice lax)) documents devicesMetaDocument
  let devicesCmeta ← validated (readList (readMetaDevice lax)) documents devicesCmetaDocument
  let areasMeta ← validated (readList (readMetaEndpoint lax)) documents areasMetaDocument
  let areasCmeta ← validated (readList (readMetaEndpoint lax)) documents areasCmetaDocument
  return ⟨config, devicesMeta, devicesCmeta, areasMeta, areasCmeta⟩

/-- `extract`. -/
def extract : Except InvalidInput (Catalog × List Conflict) :=
  (describedOf lax documents).map fun described => mergeEntries described.entries

end Extract

/-- **The envelopes of bodies**, by file name. -/
def envelopes (statuses : Dict String ℤ) (bodies : Dict String JsonValue) :
    Dict String JsonValue :=
  .ofList (endpoints.filterMap fun endpoint => (bodies.get? endpoint.url).map fun body =>
    (endpoint.fileName,
      buildEnvelope ⟨endpoint, .ok, statuses.get? endpoint.url, body, none⟩ (some body)))

end Capture

end Tydomio
