import Tydomio.Capture.Model.Store

/-!
# A run of the capture

`main` of `capture/cli.py`, once its arguments and secrets are read: it
creates the directory, fetches, anonymizes, looks for secrets and writes, and
removes the directory unless it could write. What happens outside the program
is an `Environment`: how the fetching ends, and what strikes the run where.
-/

namespace Tydomio

open Common

namespace Capture

/-! ## The results -/

/-- Results by url, each of an endpoint of the table. Their bodies are values
of the language. -/
structure Results where
  results : Dict String EndpointResult
  listed : ∀ result ∈ results.values, result.endpoint ∈ endpoints
  distinct : ∀ result ∈ results.values, result.body.distinctKeys = true

/-- A fetcher when its pass has ended, or the deadline has passed: it records
results of the endpoints of the table only. -/
structure Fetched where
  fetcher : Fetcher
  listed : ∀ result ∈ fetcher.results.values, result.endpoint ∈ endpoints
  distinct : ∀ result ∈ fetcher.results.values, result.body.distinctKeys = true

/-- How the fetching ends. -/
inductive RunEnd where
  | ended (fetched : Fetched)
  /-- `ClientStopped`. -/
  | clientStopped
  /-- Another exception, or an interruption. -/
  | struck (fault : Fault)

/-- What ends a run early. -/
inductive Raised where
  /-- `_Failure`. -/
  | failure (message : String)
  | struck (strike : Strike)
  deriving DecidableEq

/-- Every endpoint: one never recorded is not fetched. -/
def Fetched.results (fetched : Fetched) : Results where
  results := .ofList (endpoints.map fun endpoint =>
    (endpoint.url, (fetched.fetcher.results.get? endpoint.url).getD
      ⟨endpoint, .notFetched, none, .null, none⟩))
  listed := by
    intro result hresult
    obtain ⟨url, hurl⟩ := Dict.mem_values.1 hresult
    obtain ⟨endpoint, hendpoint, heq⟩ := List.mem_map.1 (Dict.mem_of_get?_ofList hurl)
    obtain ⟨-, rfl⟩ := Prod.mk.inj heq
    cases hrecorded : fetched.fetcher.results.get? endpoint.url with
    | none => exact hendpoint
    | some recorded => exact fetched.listed recorded (Dict.mem_values.2 ⟨_, hrecorded⟩)
  distinct := by
    intro result hresult
    obtain ⟨url, hurl⟩ := Dict.mem_values.1 hresult
    obtain ⟨endpoint, -, heq⟩ := List.mem_map.1 (Dict.mem_of_get?_ofList hurl)
    obtain ⟨-, rfl⟩ := Prod.mk.inj heq
    cases hrecorded : fetched.fetcher.results.get? endpoint.url with
    | none => rfl
    | some recorded => exact fetched.distinct recorded (Dict.mem_values.2 ⟨_, hrecorded⟩)

/-- `run_capture`, its failures as `_capture` raises them again. -/
def runCapture : RunEnd → Except Raised Results
  | .ended fetched =>
      if fetched.fetcher.connected then .ok fetched.results
      else .error (.failure ("Never connected before the deadline:" ++
        " check the password, the IP, the MAC address and the network"))
  | .clientStopped => .error (.failure "the client stopped before the capture ended")
  | .struck fault => .error (.struck ⟨fault, .fetch⟩)

namespace Results

variable (results : Results)

/-- `written`. -/
def written : Dict String EndpointResult :=
  results.results.filter fun _ result => result.isWritten

/-- What is anonymized. -/
def captured : Captured where
  bodies := .ofList (results.written.entries.map fun item => (item.1, item.2.body))
  statuses := .ofList (results.written.entries.map fun item => (item.1, item.2.status.getD 0))
  distinct := by
    intro body hbody
    obtain ⟨url, hurl⟩ := Dict.mem_values.1 hbody
    obtain ⟨item, hitem, heq⟩ := List.mem_map.1 (Dict.mem_of_get?_ofList hurl)
    obtain ⟨-, rfl⟩ := Prod.mk.inj heq
    exact results.distinct item.2 (List.mem_map_of_mem (List.mem_filter.1 hitem).1)

/-- Whether each endpoint answered with JSON. -/
def complete : Bool := results.results.values.all fun result => result.outcome = .ok

end Results

/-! ## The run -/

/-- **What a run depends on**: how the fetching ends, what strikes it, the
texts of the language, and what the manifest says of the run. -/
structure Environment where
  run : RunEnd
  faults : Faults
  texts : Texts
  dumps : Dumps
  toolVersion : String
  /-- The month. -/
  capturedOn : String

section Run

variable (sameLetter : Char → Char → Bool) (env : Environment) (secrets : Secrets)

/-- `_documents`. -/
def documentsOf (results : Results) (anonymized : Anonymized) : Dict String JsonValue :=
  (Dict.ofList (results.written.entries.map fun item =>
    (item.2.endpoint.fileName,
      buildEnvelope item.2 (anonymized.bodies.get? item.2.endpoint.url)))).set manifestFile
    (buildManifest results.results anonymized env.toolVersion env.capturedOn
      (if secrets.ip.isSome then "local" else "remote"))

/-- Going past a point of the guarded part. -/
def guardedPass (point : Point) : Except Raised Unit :=
  match env.faults.pass point with
  | .ok () => .ok ()
  | .error strike => .error (.struck strike)

/-- `_capture` up to the writing: the results and the documents. -/
def prepare : Except Raised (Results × Dict String JsonValue) := do
  let results ← runCapture env.run
  if !results.results.values.any fun result => result.outcome = .ok then
    .error (.failure "no endpoint answered with JSON")
  guardedPass env .anonymize
  match anonymize env.texts results.captured with
  | .error _ => .error (.struck ⟨.error, .anonymize⟩)
  | .ok anonymized =>
      let documents := documentsOf env secrets results anonymized
      guardedPass env .scan
      if findSecrets sameLetter secrets documents ≠ [] then
        guardedPass env .report
        .error (.failure "secrets found, nothing written")
      return (results, documents)

/-- `_capture`: the status, and whether the last document was written. -/
def captureRun (directory : String) (fs : FileSystem) : Except Raised ℕ × Bool × FileSystem :=
  match prepare sameLetter env secrets with
  | .error e => (.error e, false, fs)
  | .ok (results, documents) =>
      match writeCapture env.faults env.dumps directory documents fs with
      | (.error strike, fs) => (.error (.struck strike), false, fs)
      | (.ok (), fs) =>
          match guardedPass env .written with
          | .error e => (.error e, true, fs)
          | .ok () => (.ok (if results.complete then 0 else 1), true, fs)

/-- How a run ends. -/
inductive Ending where
  | returned (status : ℕ)
  | escaped (strike : Strike)
  deriving DecidableEq

/-- A run at its end. -/
structure RunResult where
  ending : Ending
  /-- Whether the last document was written; the program does not know. -/
  wrote : Bool
  fs : FileSystem

/-- A message, after which the status is returned. -/
def saying (point : Point) (status : ℕ) : Ending :=
  match env.faults.pass point with
  | .ok () => .returned status
  | .error strike => .escaped strike

/-- How the guarded part ends, from what `_capture` gives: the handlers of
its exceptions. -/
def guardedEnding : Except Raised ℕ → Ending
  | .ok status =>
      match env.faults.pass .summary with
      | .ok () => .returned status
      | .error ⟨.error, _⟩ => saying env .message status
      | .error strike => .escaped strike
  | .error (.failure _) => saying env .message 2
  | .error (.struck ⟨.error, _⟩) => saying env .message 2
  | .error (.struck strike) => .escaped strike

/-- The guarded part: the directory is removed where the status is still
that of nothing written. -/
def guarded (directory : String) (fs : FileSystem) : RunResult :=
  let (outcome, wrote, fs) :=
    match guardedPass env .client with
    | .error e => (.error e, false, fs)
    | .ok () => captureRun sameLetter env secrets directory fs
  ⟨guardedEnding env outcome, wrote,
    match outcome with
    | .ok _ => fs
    | .error _ => removeDirectory directory fs⟩

/-- **`main`**, its arguments and secrets read. -/
def main (directory : String) (fs : FileSystem) : RunResult :=
  match createDirectory env.faults directory fs with
  | (.error ⟨.error, _⟩, fs) => ⟨saying env .refusal 2, false, fs⟩
  | (.error strike, fs) => ⟨.escaped strike, false, fs⟩
  | (.ok (), fs) =>
      match env.faults.pass .setup with
      | .error strike => ⟨.escaped strike, false, fs⟩
      | .ok () => guarded sameLetter env secrets directory fs

end Run

end Capture

end Tydomio
