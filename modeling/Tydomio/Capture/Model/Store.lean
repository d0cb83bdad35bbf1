import Tydomio.Capture.Model.Fetch
import Tydomio.Capture.Model.Redact
import Tydomio.Model.Secrets

/-!
# The capture on disk

`capture/store.py`: the documents of a capture, the search for secrets in
them, and the directory they are written to. A file system holds directories
by path, each with the texts of its files; an operation of the system or a
print can fail, and an interruption can come at any of them.
-/

namespace Tydomio

open Common

namespace Capture

/-! ## Secrets in documents -/

section FindSecrets

variable (sameLetter : Char → Char → Bool) (secrets : Secrets)

/-- `f"{path}.{key}".removeprefix(".")`. -/
def childPath (path key : String) : String :=
  String.ofList (Text.removePrefix ['.'] (path ++ "." ++ key).toList)

/-- The path of an item of a list. -/
def itemPath (path : String) (index : ℕ) : String := path ++ "[" ++ toString index ++ "]"

/-- What a key that holds a secret shows as. -/
def hiddenKey : String := "<key>"

/-- What such a file name shows as. -/
def hiddenFile : String := "<file>"

mutual

/-- `walk`. -/
def findIn (file path : String) : JsonValue → List (String × String)
  | .dict items => findInFields file path items
  | .list items => findInItems file path 0 items
  | .str text => if secrets.search sameLetter text then [(file, path)] else []
  | _ => []

/-- The items of a list from an index on. -/
def findInItems (file path : String) (index : ℕ) : List JsonValue → List (String × String)
  | [] => []
  | item :: items =>
      findIn file (itemPath path index) item ++ findInItems file path (index + 1) items

/-- The keys of an object and the values under them. -/
def findInFields (file path : String) : List (String × JsonValue) → List (String × String)
  | [] => []
  | (key, value) :: items =>
      (if secrets.search sameLetter key then
        (file, childPath path hiddenKey) :: findIn file (childPath path hiddenKey) value
      else findIn file (childPath path key) value) ++ findInFields file path items

end

/-- What is found in one document. -/
def findInDocument (document : String × JsonValue) : List (String × String) :=
  let shown := if secrets.search sameLetter document.1 then hiddenFile else document.1
  (if shown ≠ document.1 then [(shown, "")] else []) ++
    findIn sameLetter secrets shown "" document.2

/-- `find_secrets`. -/
def findSecrets (documents : Dict String JsonValue) : List (String × String) :=
  documents.entries.flatMap (findInDocument sameLetter secrets)

end FindSecrets

/-! ## Documents -/

/-- `MANIFEST_FILE`. -/
def manifestFile : String := "manifest.json"

/-- `FORMAT_VERSION`. -/
def formatVersion : ℤ := 1

/-- `RULES_VERSION`. -/
def rulesVersion : ℤ := 1

/-- `str(outcome)`. -/
def Outcome.text : Outcome → String
  | ok => "ok"
  | httpError => "http-error"
  | notJson => "not-json"
  | timeout => "timeout"
  | communicationError => "communication-error"
  | notFetched => "not-fetched"

/-- `is_written`. -/
def EndpointResult.isWritten (result : EndpointResult) : Bool :=
  result.outcome = .ok || result.outcome = .httpError

/-- A number, or `None`. -/
def optionalInt : Option ℤ → JsonValue
  | none => .null
  | some n => .int n

/-- `build_envelope`. -/
def buildEnvelope (result : EndpointResult) (body : Option JsonValue) : JsonValue :=
  .dict [("url", .str result.endpoint.url), ("status", optionalInt result.status),
    ("body", body.getD .null)]

/-- `build_manifest`. -/
def buildManifest (results : Dict String EndpointResult) (anonymized : Anonymized)
    (toolVersion capturedOn access : String) : JsonValue :=
  let ordered := endpoints.filterMap fun endpoint => results.get? endpoint.url
  .dict [
    ("format_version", .int formatVersion),
    ("tool", .dict [("name", .str "tydomio-capture"), ("version", .str toolVersion)]),
    ("rules_version", .int rulesVersion),
    ("captured_on", .str capturedOn),
    ("access", .str access),
    ("complete", .bool (ordered.all fun result => result.outcome = .ok)),
    ("endpoints", .list (ordered.map fun result => .dict [
      ("url", .str result.endpoint.url),
      ("file", if result.isWritten then .str result.endpoint.fileName else .null),
      ("outcome", .str result.outcome.text),
      ("status", optionalInt result.status),
      ("body_length", optionalInt (result.bodyLength.map Int.ofNat))])),
    ("unclassified", .list (anonymized.unclassified.map fun item => .dict [
      ("url", .str item.url), ("path", .str item.path), ("type", .str item.jsonType),
      ("reason", .str item.reason)])),
    ("renamed_keys", .list (anonymized.renamedKeys.map fun item => .dict [
      ("url", .str item.url), ("path", .str item.path)]))]

/-! ## The file system -/

/-- The files of a directory, each with its text. -/
abbrev Directory : Type := Dict String String

/-- The directories, by path. -/
abbrev FileSystem : Type := Dict String Directory

/-- What strikes a run: an error of the system, or an interruption. -/
inductive Fault where
  | error
  | interruption
  deriving DecidableEq

/-- Where a run can be struck. -/
inductive Point where
  | mkdir
  | chmod
  /-- The message that the directory cannot be created. -/
  | refusal
  /-- The log handler, before the run is guarded. -/
  | setup
  | client
  | fetch
  | anonymize
  | scan
  /-- The secrets found, printed one by one. -/
  | report
  | write (name : String)
  /-- All is written, and the status is not known yet. -/
  | written
  | summary
  /-- The message of a failure. -/
  | message
  deriving DecidableEq

/-- What struck, and where. -/
structure Strike where
  fault : Fault
  point : Point
  deriving DecidableEq

/-- **What strikes a run**, at each point. -/
structure Faults where
  strike : Point → Option Fault
  /-- How much of a text is on disk where its write is struck; none where
  the file is not even opened. -/
  partly : String → Option ℕ

section Disk

variable (faults : Faults)

/-- Going past a point. -/
def Faults.pass (point : Point) : Except Strike Unit :=
  match faults.strike point with
  | none => .ok ()
  | some fault => .error ⟨fault, point⟩

/-- `create_directory`. -/
def createDirectory (directory : String) (fs : FileSystem) : Except Strike Unit × FileSystem :=
  -- an existing directory is refused
  if directory ∈ fs then (.error ⟨.error, .mkdir⟩, fs)
  else
    match faults.pass .mkdir with
    | .error e => (.error e, fs)
    | .ok () => (faults.pass .chmod, fs.set directory ∅)

/-- `json.dumps`, which raises on a number that is not finite. -/
abbrev Dumps : Type := JsonValue → Option String

/-- The text of a document's file. -/
def fileText (dumped : String) : String := dumped ++ "\n"

/-- A file written in its directory. -/
def writeIn (directory name text : String) (fs : FileSystem) : FileSystem :=
  fs.set directory (((fs.get? directory).getD ∅).set name text)

/-- One document written. -/
def writeDocument (dumps : Dumps) (directory : String) (document : String × JsonValue)
    (fs : FileSystem) : Except Strike Unit × FileSystem :=
  match dumps document.2 with
  | none => (.error ⟨.error, .write document.1⟩, fs)
  | some dumped =>
      if ((fs.get? directory).getD ∅).contains document.1 then
        (.error ⟨.error, .write document.1⟩, fs)
      else
        match faults.strike (.write document.1) with
        | none => (.ok (), writeIn directory document.1 (fileText dumped) fs)
        | some fault =>
            (.error ⟨fault, .write document.1⟩,
              match faults.partly document.1 with
              | none => fs
              | some length =>
                  writeIn directory document.1
                    (String.ofList ((fileText dumped).toList.take length)) fs)

/-- Documents written one after the other. -/
def writeAll (dumps : Dumps) (directory : String) :
    List (String × JsonValue) → FileSystem → Except Strike Unit × FileSystem
  | [], fs => (.ok (), fs)
  | document :: documents, fs =>
      match writeDocument faults dumps directory document fs with
      | (.ok (), fs) => writeAll dumps directory documents fs
      | (.error e, fs) => (.error e, fs)

/-- `write_capture`: the manifest last. -/
def writeCapture (dumps : Dumps) (directory : String) (documents : Dict String JsonValue)
    (fs : FileSystem) : Except Strike Unit × FileSystem :=
  writeAll faults dumps directory
    (documents.entries.filter (fun document => document.1 ≠ manifestFile) ++
      documents.entries.filter fun document => document.1 = manifestFile) fs

/-- `remove_directory`. -/
def removeDirectory (directory : String) (fs : FileSystem) : FileSystem := fs.erase directory

end Disk

end Capture

end Tydomio
