import Tydomio.Capture.CatalogRuns
import Tydomio.Capture.ReadBack

/-!
# From Tydom to the catalog

A capture is anonymized, written, read again and merged. What the catalog
accepts in the end is what the bodies that were received describe, although
none of them is in a file as it was received.
-/

namespace Tydomio

open Common

namespace Capture

section Pipeline

variable {env : Environment} {secrets : Secrets} {fetched : Fetched} {anonymized : Anonymized}

/-- **The documents that are read** are the envelopes of the anonymized
bodies, where Tydom answered with status 200. -/
theorem readBack_envelopes {texts : Texts} (hrecorded : Recorded fetched.fetcher)
    (hok : anonymize texts fetched.results.captured = .ok anonymized) {endpoint : Endpoint}
    (hmem : endpoint ∈ endpoints)
    (hexpected : fetched.results.captured.Expected endpoint.url)
    (hshallow : ∀ body ∈ fetched.results.captured.bodies.get? endpoint.url,
      body.depth < maxDepth) :
    ∃ document,
      (envelopes fetched.results.captured.statuses anonymized.bodies).get? endpoint.fileName =
        some document ∧
      readBack anonymized endpoint (fetched.results.written.get? endpoint.url) = .ok document := by
  have hstatus := hexpected.status
  rw [Results.get?_statuses] at hstatus
  obtain ⟨result, hresult, hcode⟩ := Option.map_eq_some_iff.1 hstatus
  have hsome : result.status = some 200 := by
    cases hs : result.status with
    | none =>
        rw [hs] at hcode
        cases hcode
    | some n =>
        rw [hs] at hcode
        exact congrArg some hcode
  have hbody : fetched.results.captured.bodies.get? endpoint.url = some result.body := by
    rw [Results.get?_bodies, hresult, Option.map_some]
  have hurl : result.endpoint.url = endpoint.url := (Fetched.written hrecorded hresult).1
  obtain ⟨out, hout, -, -⟩ := anonymized_body hok hbody
  refine ⟨_, by rw [get?_envelopes _ _ hmem, hout, Option.map_some], ?_⟩
  rw [hresult, readBack, if_pos (hshallow _ hbody), hout, buildEnvelope, buildEnvelope, hsome,
    hurl, hexpected.status]

variable {sameLetter : Char → Char → Bool} {directory : String} {fs : FileSystem}
  {text : FloatText} {limit : ℕ} {accepted : List (String × Usage)}

/-- **A capture reaches the catalog as it was received**: the catalog merges
what the bodies from Tydom describe, read from the files of their anonymized
bodies, where that agrees with what it holds, and reports a conflict where it
does not. -/
theorem capture_catalog (hlimit : maxDepth < limit) (unread : String → Reading)
    {ls : List FetchLabel} {s : FetchState}
    (hrun : (fetching (scanner text limit unread).strict).Run Machine.Free ls s)
    (hfetched : fetched.fetcher = s.fetcher) (henv : env.run = .ended fetched)
    (hdumps : env.dumps = dumps text storeOptions) {status : ℕ}
    (hending : (main sameLetter env secrets directory fs).ending = .returned status)
    (hstatus : status ≠ 2)
    (hdoubles : ∀ anonymized, anonymize env.texts fetched.results.captured = .ok anonymized →
      ∀ body ∈ anonymized.bodies.values, ∀ q, .float (.finite q) ∈ body.scalars →
        text.Writes (.float (.finite q)))
    (hexpected : ∀ endpoint ∈ catalogEndpoints, fetched.results.captured.Expected endpoint.url)
    (hshallow : ∀ endpoint ∈ catalogEndpoints,
      ∀ body ∈ fetched.results.captured.bodies.get? endpoint.url, body.depth < maxDepth)
    (lax : LaxNumbers) {described : Described}
    (hdescribed : describedOf lax (envelopes fetched.results.captured.statuses
      fetched.results.captured.bodies) = .ok described)
    (hapart : described.Apart)
    (hwritable : ∀ e ∈ described.entries.flatMap Dict.entries, e.2.Writable text)
    (path : String) {file : CatalogFile} (hholds : Holds text file accepted) (opens : Bool) :
    descriptionsOf (scanner text limit unread).strict lax
        (filesIn (main sameLetter env secrets directory fs).fs directory) =
      .ok (described.entries.flatMap Dict.entries) ∧
    ((∃ file', Holds text file' (accepted ++ described.entries.flatMap Dict.entries) ∧
      catalogMain (scanner text limit unread).strict lax text path
          ⟨filesIn (main sameLetter env secrets directory fs).fs directory, opens⟩ file =
        if opens then (.written, file') else (.raised (.other "OSError"), file)) ∨
    ¬ Consistent (accepted ++ described.entries.flatMap Dict.entries) ∧
      ∃ conflicts, conflicts ≠ [] ∧
        catalogMain (scanner text limit unread).strict lax text path
            ⟨filesIn (main sameLetter env secrets directory fs).fs directory, opens⟩ file =
          (.conflicting conflicts, file)) := by
  obtain ⟨anonymized, hok, hwrite⟩ := main_written henv hending hstatus
  have hrecorded : Recorded fetched.fetcher := hfetched ▸ recorded_of_run hrun
  have hread : ∀ name ∈ captureFiles, ∃ document,
      (envelopes fetched.results.captured.statuses anonymized.bodies).get? name =
        some document ∧
      readDocument (scanner text limit unread).strict
        (filesIn (main sameLetter env secrets directory fs).fs directory) name = .ok document := by
    intro name hname
    have hlisted : ∀ name ∈ captureFiles, ∃ endpoint ∈ endpoints, endpoint.fileName = name := by
      decide
    obtain ⟨endpoint, hmem, rfl⟩ := hlisted name hname
    have hcatalog : endpoint ∈ catalogEndpoints :=
      List.mem_filter.2 ⟨hmem, decide_eq_true hname⟩
    rw [readDocument_capture hlimit unread hrecorded hdumps hok hwrite (hdoubles anonymized hok)
      hmem]
    exact readBack_envelopes hrecorded hok hmem (hexpected endpoint hcatalog)
      (hshallow endpoint hcatalog)
  obtain ⟨described', hdescribed', halike⟩ :=
    describedOf_anonymized hok lax hexpected hdescribed hapart
  have hdescriptions : descriptionsOf (scanner text limit unread).strict lax
      (filesIn (main sameLetter env secrets directory fs).fs directory) =
        .ok (described.entries.flatMap Dict.entries) := by
    rw [descriptionsOf_eq hread, hdescribed', halike.entries_eq]
    rfl
  have hdeep : catalogDepth ≤ limit := by
    have hsmall : catalogDepth < maxDepth := by decide
    omega
  exact ⟨hdescriptions, catalogMain_ok hdeep unread path hholds hdescriptions hwritable⟩

end Pipeline

/-! ### Five bodies -/

section FiveBodies

/-- What Tydom sends for a body. -/
def bodyBytes (body : JsonValue) : Bytes :=
  encodeUtf8 ((dumps halfText storeOptions body).getD "")

/-- An endpoint answered with a body, under status 200. -/
def answer (endpoint : Endpoint) (body : JsonValue) : EndpointResult :=
  ⟨endpoint, .ok, some 200, body, some (bodyBytes body).length⟩

/-- A request that a timeout ended. -/
def unanswered (endpoint : Endpoint) : EndpointResult := ⟨endpoint, .timeout, none, .null, none⟩

/-- No double is in a value, and it has a text. -/
def isPlain (value : JsonValue) : Bool :=
  (writtenTree halfText false value).isSome && value.distinctKeys &&
    decide (value.depth < maxDepth) && value.scalars.all fun leaf => !isDouble leaf

theorem parseJson_bodyBytes {body : JsonValue} (h : isPlain body = true) :
    parseJson halfScanner (bodyBytes body) = .ok body := by
  simp only [isPlain, Bool.and_eq_true, decide_eq_true_eq, List.all_eq_true,
    Bool.not_eq_true'] at h
  obtain ⟨⟨⟨hwritten, hkeys⟩, hdepth⟩, hdoubles⟩ := h
  obtain ⟨tree, htree⟩ := Option.isSome_iff_exists.1 hwritten
  have hdumpable : Dumpable halfText 65 body :=
    ⟨hkeys, writes_of_writtenTree body tree htree fun q hq =>
      absurd (hdoubles _ hq) (by simp [isDouble]), by have : maxDepth = 64 := rfl; omega⟩
  obtain ⟨source, hsource, hparse⟩ :=
    parseJson_dumps storeOptions (fun _ => .stopped [] .badSyntax) hdumpable
      (show ∀ c ∈ "".toList, Json.isBlank c = true by simp)
  rw [String.append_empty, if_pos hdepth.le] at hparse
  rw [bodyBytes, hsource]
  exact hparse

/-- A step of the fetcher that reads an answer. -/
theorem step_answer {s : FetchState} {pass : Pass} (hpass : s.pass = some pass)
    {body : JsonValue} (h : isPlain body = true) :
    (fetching halfScanner).step s (.ends (.response ⟨200, ∅, some (bodyBytes body)⟩)) =
      some ((s.record (answer pass.current body)).goOn pass.rest) := by
  have hfetch : fetch halfScanner pass.current (.response ⟨200, ∅, some (bodyBytes body)⟩) =
      .ok (answer pass.current body) := by
    rw [fetch, Option.getD_some]
    simp only [parseJson_bodyBytes h]
    rfl
  simp only [fetching, fetchStep, hpass, hfetch]
  rfl

/-- The next request answered with its body, or by a timeout. -/
def receive (s : FetchState) : FetchState :=
  match s.pass with
  | none => s
  | some pass =>
      match endpointField.bodies.get? pass.current.url with
      | some body => (s.record (answer pass.current body)).goOn pass.rest
      | none => (s.record (unanswered pass.current)).goOn pass.rest

/-- A run goes on to the next answer received. -/
theorem run_receive {s : FetchState}
    (h : ∃ ls, (fetching halfScanner).Run Machine.Free ls s) :
    ∃ ls, (fetching halfScanner).Run Machine.Free ls (receive s) := by
  obtain ⟨ls, hrun⟩ := h
  have hplain : ∀ body ∈ endpointField.bodies.values, isPlain body = true := by decide +kernel
  rw [receive]
  cases hpass : s.pass with
  | none => exact ⟨ls, hrun⟩
  | some pass =>
      cases hbody : endpointField.bodies.get? pass.current.url with
      | some body =>
          simp only [hbody]
          exact ⟨_, hrun.snoc trivial
            (step_answer hpass (hplain body (Dict.mem_values.2 ⟨_, hbody⟩)))⟩
      | none =>
          have hstep : (fetching halfScanner).step s
              (.ends (.raised (.communicationError "Timeout") true)) =
                some ((s.record (unanswered pass.current)).goOn pass.rest) := by
            simp only [fetching, fetchStep, hpass]
            rfl
          simp only [hbody]
          exact ⟨_, hrun.snoc trivial hstep⟩

/-- A pass over the table. -/
def receivedState : FetchState :=
  receive^[12] (FetchState.goOn ⟨⟨∅, true, false⟩, none, [[]], []⟩ endpoints)

theorem receivedState_run : ∃ ls, (fetching halfScanner).Run Machine.Free ls receivedState := by
  have hall : ∀ n, ∃ ls, (fetching halfScanner).Run Machine.Free ls
      (receive^[n] (FetchState.goOn ⟨⟨∅, true, false⟩, none, [[]], []⟩ endpoints)) := by
    intro n
    induction n with
    | zero => exact ⟨[.connect], Machine.Run.nil.snoc trivial rfl⟩
    | succ n ih =>
        rw [Function.iterate_succ_apply']
        exact run_receive ih
  exact hall 12

/-- What the fetcher has then. -/
def fiveBodies : Fetched where
  fetcher := receivedState.fetcher
  listed := by decide +kernel
  distinct := by decide +kernel

def fiveBodiesRun : Environment where
  run := .ended fiveBodies
  faults := ⟨fun _ => none, fun _ => none⟩
  texts := .simple
  dumps := dumps halfText storeOptions
  toolVersion := "1.0"
  capturedOn := "2026-01"

theorem main_fiveBodies : (main (· == ·) fiveBodiesRun ⟨"hunter2", none, "001122AABBCC"⟩
    "capture" ∅).ending = .returned 1 := by decide +kernel

/-- The field of the shutter is merged into a catalog that was not there. -/
theorem capture_catalog_fiveBodies : descriptionsOf halfScanner .strict
    (filesIn (main (· == ·) fiveBodiesRun ⟨"hunter2", none, "001122AABBCC"⟩ "capture" ∅).fs
      "capture") = .ok [("shutter", ⟨[positionField], []⟩)] := by
  obtain ⟨ls, hrun⟩ := receivedState_run
  have hdoubles : ∀ anonymized,
      anonymize fiveBodiesRun.texts fiveBodies.results.captured = .ok anonymized →
        ∀ body ∈ anonymized.bodies.values, ∀ q, .float (.finite q) ∈ body.scalars →
          halfText.Writes (.float (.finite q)) := by
    intro anonymized hok body hbody q hq
    have hnone : (anonymize fiveBodiesRun.texts fiveBodies.results.captured).map
        (fun anonymized => anonymized.bodies.values.all fun body =>
          body.scalars.all fun leaf => !isDouble leaf) = .ok true := by
      decide +kernel
    rw [hok] at hnone
    have hleaf := List.all_eq_true.1 (List.all_eq_true.1 (Except.ok.inj hnone) body hbody) _ hq
    exact absurd hleaf (by simp [isDouble])
  have hdescribed : describedOf .strict (envelopes fiveBodies.results.captured.statuses
      fiveBodies.results.captured.bodies) =
        .ok ⟨[⟨7, 9, "shutter"⟩], [⟨7, [⟨9, [positionField], []⟩]⟩], [], [], []⟩ := by
    decide +kernel
  exact (@capture_catalog fiveBodiesRun ⟨"hunter2", none, "001122AABBCC"⟩ fiveBodies (· == ·)
    "capture" ∅ halfText 65 [] (by decide) (fun _ => .stopped [] .badSyntax) ls receivedState hrun
    rfl rfl rfl 1 main_fiveBodies (by decide) hdoubles (by decide +kernel) (by decide +kernel)
    .strict _ hdescribed ⟨by simp, by simp, by simp, by simp⟩ writable_position "catalog.json"
    .absent holds_absent true).1

end FiveBodies

end Capture

end Tydomio
