import Tydomio.Capture.CatalogFile
import Tydomio.Capture.Fetch
import Tydomio.Capture.Main
import Tydomio.Capture.Shape

/-!
# A capture is read back

What `write_capture` wrote, `read_capture` reads as the documents. An
envelope is one level deeper than its body, and anonymizing changes no depth:
a body as deep as `parse_json` lets through gives a file that is not read.
-/

namespace Tydomio

open Common

namespace Capture

/-! ## Depth and shape -/

theorem depthFields_eq (items : List (String × JsonValue)) :
    JsonValue.depthFields items = JsonValue.depthItems (items.map Prod.snd) := by
  induction items with
  | nil => rfl
  | cons item items ih =>
      rw [JsonValue.depthFields, List.map_cons, JsonValue.depthItems, ih]

theorem depthItems_eq {items items' : List JsonValue}
    (h : ∀ value ∈ items, ∀ value', SameShape value value' → value'.depth = value.depth)
    (hshape : List.Forall₂ SameShape items items') :
    JsonValue.depthItems items' = JsonValue.depthItems items := by
  induction hshape with
  | nil => rfl
  | cons hvalue _ ih =>
      rw [JsonValue.depthItems, JsonValue.depthItems, h _ List.mem_cons_self _ hvalue,
        ih fun value hmem => h value (List.mem_cons_of_mem _ hmem)]

/-- **A body of the same shape is as deep.** -/
theorem SameShape.depth_eq (value : JsonValue) :
    ∀ value', SameShape value value' → value'.depth = value.depth := by
  refine @JsonValue.induction
    (fun value => ∀ value', SameShape value value' → value'.depth = value.depth)
    (fun items => ∀ value ∈ items, ∀ value', SameShape value value' → value'.depth = value.depth)
    (fun items => ∀ value ∈ items.map Prod.snd, ∀ value', SameShape value value' →
      value'.depth = value.depth)
    ?leaf ?list ?dict ?nil ?cons ?noField ?field value
  case leaf =>
    intro value hleaf value' h
    cases h with
    | leaf _ htype =>
        rw [JsonValue.depth_of_isLeaf hleaf,
          JsonValue.depth_of_isLeaf (isLeaf_of_jsonTypeName hleaf htype)]
    | list _ => cases hleaf
    | dict _ => cases hleaf
  case list =>
    intro items ih value' h
    cases h with
    | leaf hleaf _ => cases hleaf
    | list hshape => exact congrArg (· + 1) (depthItems_eq ih hshape)
  case dict =>
    intro items ih value' h
    cases h with
    | leaf hleaf _ => cases hleaf
    | dict hshape =>
        rw [JsonValue.depth, JsonValue.depth, depthFields_eq, depthFields_eq,
          depthItems_eq ih hshape]
  case nil => exact fun value hmem => absurd hmem List.not_mem_nil
  case cons => exact fun value values hvalue hvalues => List.forall_mem_cons.2 ⟨hvalue, hvalues⟩
  case noField => exact fun value hmem => absurd hmem List.not_mem_nil
  case field => exact fun key value items hvalue hitems => List.forall_mem_cons.2 ⟨hvalue, hitems⟩

/-- What anonymizing makes of a body. -/
theorem anonymized_body {texts : Texts} {capture : Captured} {result : Anonymized}
    (hok : anonymize texts capture = .ok result) {url : String} {body : JsonValue}
    (hbody : capture.bodies.get? url = some body) :
    ∃ out, result.bodies.get? url = some out ∧ out.depth = body.depth ∧
      out.distinctKeys = true := by
  have htypes := Captured.keepsType hok hbody
  have hplaces : ∀ leaf, .leaf leaf ∈ places [] [] body → (rewriteOf capture.trail texts
      (capture.descriptors texts) url (capture.policyOf url)).KeepsType leaf :=
    fun leaf hleaf => htypes leaf (List.mem_filterMap.2 ⟨_, hleaf, rfl⟩)
  refine ⟨capture.outBody texts url body, ?_, ?_, ?_⟩
  · rw [anonymize_body hok, hbody, Option.map_some]
  · exact SameShape.depth_eq body _ (Rewrite.sameShape_node _ body [] [] hplaces)
  · refine Rewrite.distinctKeys_node _ body ?_ [] [] ?_ hplaces
    · exact capture.distinct body (Dict.mem_values.2 ⟨url, hbody⟩)
    · intro path key key' hkey
      exact outKey_injective (capture.namesNoToken_policyOf url) (Captured.mem_trail hbody hkey)

/-! ## What the fetcher records -/

theorem depth_of_parseJson {parser : StrictParser} {content : Bytes} {value : JsonValue}
    (h : parseJson parser content = .ok value) : value.depth ≤ maxDepth := by
  rw [parseJson] at h
  split at h
  · cases h
  · split at h
    · cases h
    · cases h
    · cases h
    · cases h
    · rename_i loaded _
      rw [checked_eq _ 0 (Nat.zero_le _), Nat.zero_add] at h
      split at h
      · rename_i hdepth
        obtain rfl := Except.ok.inj h
        exact hdepth
      · cases h

/-- **A result is recorded under the url of its endpoint**, with a body as
deep as `parse_json` lets through at most. -/
def Recorded (fetcher : Fetcher) : Prop :=
  ∀ url result, fetcher.results.get? url = some result →
    result.endpoint.url = url ∧ result.body.depth ≤ maxDepth

section Fetching

variable {parser : StrictParser} {s s' : FetchState}

theorem depth_of_fetch {endpoint : Endpoint} {sendEnd : SendEnd} {result : EndpointResult}
    (h : fetch parser endpoint sendEnd = .ok result) : result.body.depth ≤ maxDepth := by
  cases sendEnd with
  | raised e timeoutCause =>
      rw [fetch] at h
      split at h
      · obtain rfl := Except.ok.inj h
        exact Nat.zero_le _
      · cases h
  | response response =>
      rw [fetch] at h
      split at h
      · rename_i body hbody
        obtain rfl := Except.ok.inj h
        exact depth_of_parseJson hbody
      · obtain rfl := Except.ok.inj h
        exact Nat.zero_le _
      · cases h

theorem Recorded.goOn (h : Recorded s.fetcher) (rest : List Endpoint) :
    Recorded (s.goOn rest).fetcher := by
  rcases s.goOn_cases rest with ⟨_, _, _, -, -, -, hgoOn⟩ | ⟨-, hgoOn⟩
  · rw [hgoOn]
    exact h
  · rw [hgoOn]
    exact h

theorem Recorded.record (h : Recorded s.fetcher) {result : EndpointResult}
    (hresult : result.body.depth ≤ maxDepth) : Recorded (s.record result).fetcher := by
  intro url result' hget
  rw [FetchState.record, Dict.get?_set] at hget
  split at hget
  · rename_i hurl
    obtain rfl := Option.some.inj hget
    exact ⟨hurl.symm, hresult⟩
  · exact h url result' hget

/-- **Every step records so.** -/
theorem Recorded.step {l : FetchLabel} (h : Recorded s.fetcher)
    (hstep : fetchStep parser s l = some s') : Recorded s'.fetcher := by
  cases l with
  | connect =>
      rw [fetchStep] at hstep
      split at hstep
      · cases hstep
      · obtain rfl := Option.some.inj hstep
        exact Recorded.goOn (s := ⟨{ s.fetcher with connected := true }, none,
          s.past ++ [s.events], []⟩) h endpoints
  | ends sendEnd =>
      rw [fetchStep] at hstep
      split at hstep
      · cases hstep
      · split at hstep
        · obtain rfl := Option.some.inj hstep
          exact h
        · rename_i result hfetch
          have hrecord := h.record (depth_of_fetch hfetch)
          split at hstep
          · obtain rfl := Option.some.inj hstep
            exact hrecord
          · obtain rfl := Option.some.inj hstep
            exact hrecord.goOn _

theorem recorded_of_run {ls : List FetchLabel} (h : (fetching parser).Run Machine.Free ls s) :
    Recorded s.fetcher :=
  h.invariant (I := fun s => Recorded s.fetcher) (fun _ _ hget => by cases hget)
    fun _ _ _ hrecorded _ hstep => hrecorded.step hstep

/-- The results, with those never recorded. -/
theorem Fetched.recorded {fetched : Fetched} (h : Recorded fetched.fetcher) {url : String}
    {result : EndpointResult} (hget : fetched.results.results.get? url = some result) :
    result.endpoint.url = url ∧ result.body.depth ≤ maxDepth := by
  obtain ⟨endpoint, -, heq⟩ := List.mem_map.1 (Dict.mem_of_get?_ofList hget)
  obtain ⟨rfl, rfl⟩ := Prod.mk.inj heq
  cases hrecorded : fetched.fetcher.results.get? endpoint.url with
  | none => exact ⟨rfl, Nat.zero_le _⟩
  | some recorded => exact h _ recorded hrecorded

end Fetching

/-! ## The documents of a run -/

section Documents

variable {env : Environment} {secrets : Secrets} {results : Results} {anonymized : Anonymized}

/-- The document of an endpoint. -/
theorem get?_documentsOf
    (hurl : ∀ url result, results.results.get? url = some result → result.endpoint.url = url)
    {endpoint : Endpoint} (h : endpoint ∈ endpoints) :
    (documentsOf env secrets results anonymized).get? endpoint.fileName =
      (results.written.get? endpoint.url).map fun result =>
        buildEnvelope result (anonymized.bodies.get? endpoint.url) := by
  have hmanifest : endpoint.fileName ≠ manifestFile := by
    have hall : ∀ endpoint ∈ endpoints, endpoint.fileName ≠ manifestFile := by decide
    exact hall endpoint h
  have hname : ∀ endpoint ∈ endpoints, ∀ endpoint' ∈ endpoints,
      endpoint.fileName = endpoint'.fileName → endpoint = endpoint' := by decide
  -- a result that is written is under the url of its endpoint
  have hmem : ∀ item ∈ results.written.entries,
      item.2.endpoint ∈ endpoints ∧ item.2.endpoint.url = item.1 := by
    intro item hitem
    have hentry := (List.mem_filter.1 hitem).1
    exact ⟨results.listed item.2 (List.mem_map_of_mem hentry),
      hurl item.1 item.2 (Dict.get?_eq_some_iff.2 hentry)⟩
  have hnodup : ((results.written.entries.map fun item => (item.2.endpoint.fileName,
      buildEnvelope item.2 (anonymized.bodies.get? item.2.endpoint.url))).map Prod.fst).Nodup := by
    rw [List.map_map]
    refine List.Nodup.map_on (fun item hitem item' hitem' heq => ?_) results.written.nodup.of_map
    have hendpoint := hname _ (hmem item hitem).1 _ (hmem item' hitem').1 heq
    have hkey : item.1 = item'.1 := by
      rw [← (hmem item hitem).2, ← (hmem item' hitem').2, hendpoint]
    have hget := Dict.get?_eq_some_iff.2 hitem
    have hget' := Dict.get?_eq_some_iff.2 hitem'
    rw [← hkey, hget] at hget'
    exact Prod.ext hkey (Option.some.inj hget')
  rw [documentsOf, Dict.get?_set_of_ne _ _ hmanifest]
  ext document
  rw [Dict.get?_eq_some_iff, Dict.entries_ofList hnodup, List.mem_map, Option.map_eq_some_iff]
  constructor
  · rintro ⟨item, hitem, heq⟩
    obtain ⟨hfile, rfl⟩ := Prod.mk.inj heq
    obtain rfl := hname _ (hmem item hitem).1 _ h hfile
    refine ⟨item.2, ?_, rfl⟩
    rw [(hmem item hitem).2]
    exact Dict.get?_eq_some_iff.2 hitem
  · rintro ⟨result, hget, rfl⟩
    have hitem := Dict.get?_eq_some_iff.1 hget
    have hresult := hmem _ hitem
    -- endpoints of one url are one
    have hurls : ∀ endpoint ∈ endpoints, ∀ endpoint' ∈ endpoints,
        endpoint.url = endpoint'.url → endpoint = endpoint' := by decide
    have hendpoint := hurls _ hresult.1 _ h hresult.2
    exact ⟨_, hitem, by rw [hendpoint]⟩

/-- An envelope is one level deeper than its body. -/
theorem depth_buildEnvelope (result : EndpointResult) (body : JsonValue) :
    (buildEnvelope result (some body)).depth = body.depth + 1 := by
  have hstatus : (optionalInt result.status).depth = 0 := by
    cases result.status <;> rfl
  rw [buildEnvelope, JsonValue.depth, JsonValue.depthFields, JsonValue.depthFields,
    JsonValue.depthFields, JsonValue.depthFields, hstatus, Option.getD_some]
  simp [JsonValue.depth]

theorem distinctKeys_buildEnvelope (result : EndpointResult) {body : JsonValue}
    (h : body.distinctKeys = true) : (buildEnvelope result (some body)).distinctKeys = true := by
  have hstatus : (optionalInt result.status).distinctKeys = true := by
    cases result.status <;> rfl
  rw [buildEnvelope, JsonValue.distinctKeys, distinctFields_iff.2]
  · rfl
  · simp [JsonValue.distinctKeys, hstatus, h]

theorem mem_scalars_buildEnvelope (result : EndpointResult) (body : JsonValue) {x : PyFloat} :
    .float x ∈ (buildEnvelope result (some body)).scalars ↔ .float x ∈ body.scalars := by
  rw [buildEnvelope, JsonValue.scalars, mem_scalarsFields]
  cases result.status <;> simp [JsonValue.scalars, optionalInt]

end Documents

/-! ## A run -/

/-- **The files of a directory**, as they are read. -/
def filesIn (fs : FileSystem) (directory name : String) : Option Bytes :=
  (((fs.get? directory).getD ∅).get? name).map encodeUtf8

section Run

variable {sameLetter : Char → Char → Bool} {env : Environment} {secrets : Secrets}
  {directory : String} {fs : FileSystem}

/-- **The files of a directory that was empty** are the documents, each with
its text. -/
theorem writeCapture_files {documents : Dict String JsonValue} {fs' : FileSystem}
    (h : writeCapture env.faults env.dumps directory documents (fs.set directory ∅) =
      (.ok (), fs')) (name : String) :
    ((fs'.get? directory).getD ∅).get? name =
      (documents.get? name).bind fun document => (env.dumps document).map fileText := by
  cases hdocument : documents.get? name with
  | some document =>
      obtain ⟨dumped, hdumped, hfile⟩ := writeCapture_ok h hdocument
      rw [hfile, Option.bind_some, hdumped, Option.map_some]
  | none =>
      have hnot : name ∉ documents.entries.map Prod.fst := Dict.get?_eq_none_iff.1 hdocument
      have hperm : (documents.entries.filter (fun document => document.1 ≠ manifestFile) ++
          documents.entries.filter fun document => document.1 = manifestFile).Perm
            documents.entries := by
        have hsplit := List.filter_append_perm (fun document : String × JsonValue =>
          decide (document.1 ≠ manifestFile)) documents.entries
        simpa using hsplit
      have hnodup := (hperm.map Prod.fst).nodup_iff.2 documents.nodup
      rw [(writeAll_ok hnodup h).2 name fun hmem => hnot ((hperm.map Prod.fst).mem_iff.1 hmem),
        Dict.get?_set_self]
      rfl

/-- What a run that returns another status than 2 has written. -/
theorem main_returned {status : ℕ}
    (h : (main sameLetter env secrets directory fs).ending = .returned status)
    (hstatus : status ≠ 2) :
    ∃ results documents, prepare sameLetter env secrets = .ok (results, documents) ∧
      writeCapture env.faults env.dumps directory documents (fs.set directory ∅) =
        (.ok (), (main sameLetter env secrets directory fs).fs) := by
  have hcreated : ∀ {fs' : FileSystem},
      createDirectory env.faults directory fs = (.ok (), fs') → fs' = fs.set directory ∅ := by
    intro fs' hcreate
    rw [createDirectory] at hcreate
    split at hcreate
    · cases hcreate
    · split at hcreate
      · cases hcreate
      · exact (Prod.mk.inj hcreate).2.symm
  have hfail : ∀ e, guardedEnding env (.error e) ≠ .returned status := by
    intro e heq
    rcases guardedEnding_error env e with htwo | ⟨strike, hescaped⟩
    · exact hstatus (Ending.returned.inj (heq.symm.trans htwo))
    · cases heq.symm.trans hescaped
  rw [main] at h ⊢
  split at h
  · exact absurd (saying_returned h) hstatus
  · cases h
  · rename_i fs' hcreate
    obtain rfl := hcreated hcreate
    split at h
    · cases h
    · rw [guarded] at h ⊢
      cases hclient : guardedPass env .client with
      | error e =>
          rw [hclient] at h
          exact absurd h (hfail _)
      | ok _ =>
          rw [hclient] at h
          simp only at h ⊢
          rw [captureRun] at h ⊢
          cases hprepare : prepare sameLetter env secrets with
          | error e =>
              rw [hprepare] at h
              exact absurd h (hfail _)
          | ok prepared =>
              obtain ⟨results, documents⟩ := prepared
              rw [hprepare] at h
              simp only at h ⊢
              refine ⟨results, documents, rfl, ?_⟩
              rcases hwrite : writeCapture env.faults env.dumps directory documents
                (fs.set directory ∅) with ⟨outcome, fs'⟩
              rw [hwrite] at h
              cases outcome with
              | error strike => exact absurd h (hfail _)
              | ok _ =>
                  simp only at h ⊢
                  cases hwritten : guardedPass env .written with
                  | error e =>
                      rw [hwritten] at h
                      exact absurd h (hfail _)
                  | ok _ => rfl

/-- What the catalog reads where a result is written, and where none is. -/
def readBack (anonymized : Anonymized) (endpoint : Endpoint) :
    Option EndpointResult → Except CatalogError JsonValue
  | none => refusedDocument endpoint.fileName
  | some result =>
      if result.body.depth < maxDepth then
        .ok (buildEnvelope result (anonymized.bodies.get? endpoint.url))
      else refusedDocument endpoint.fileName

namespace Results

variable (results : Results) (url : String)

theorem get?_bodies : results.captured.bodies.get? url =
    (results.written.get? url).map EndpointResult.body :=
  Dict.get?_ofList_map results.written EndpointResult.body url

theorem get?_statuses : results.captured.statuses.get? url =
    (results.written.get? url).map fun result => result.status.getD 0 :=
  Dict.get?_ofList_map results.written (fun result => result.status.getD 0) url

end Results

/-- What is written was recorded. -/
theorem Fetched.written {fetched : Fetched} (h : Recorded fetched.fetcher) {url : String}
    {result : EndpointResult} (hget : fetched.results.written.get? url = some result) :
    result.endpoint.url = url ∧ result.body.depth ≤ maxDepth := by
  rw [Results.written, Dict.get?_filter, Option.filter_eq_some_iff] at hget
  exact Fetched.recorded h hget.1

variable {fetched : Fetched} {anonymized : Anonymized} {text : FloatText} {limit : ℕ}

/-- What such a run has written of what the fetcher recorded. -/
theorem main_written (henv : env.run = .ended fetched) {status : ℕ}
    (hending : (main sameLetter env secrets directory fs).ending = .returned status)
    (hstatus : status ≠ 2) :
    ∃ anonymized, anonymize env.texts fetched.results.captured = .ok anonymized ∧
      writeCapture env.faults env.dumps directory
        (documentsOf env secrets fetched.results anonymized) (fs.set directory ∅) =
          (.ok (), (main sameLetter env secrets directory fs).fs) := by
  obtain ⟨results, documents, hprepare, hwrite⟩ := main_returned hending hstatus
  obtain ⟨hresults, anonymized, hok, rfl, -⟩ := prepare_ok hprepare
  have hfetched : results = fetched.results := by
    rw [henv, runCapture] at hresults
    split at hresults
    · exact (Except.ok.inj hresults).symm
    · cases hresults
  subst hfetched
  exact ⟨anonymized, hok, hwrite⟩

/-- **The document of an endpoint**, read from the files that were written. -/
theorem readDocument_capture (hlimit : maxDepth < limit) (unread : String → Reading)
    (hrecorded : Recorded fetched.fetcher) (hdumps : env.dumps = dumps text storeOptions)
    (hok : anonymize env.texts fetched.results.captured = .ok anonymized)
    {fs' : FileSystem}
    (hwrite : writeCapture env.faults env.dumps directory
      (documentsOf env secrets fetched.results anonymized) (fs.set directory ∅) = (.ok (), fs'))
    (hdoubles : ∀ body ∈ anonymized.bodies.values, ∀ q, .float (.finite q) ∈ body.scalars →
      text.Writes (.float (.finite q)))
    {endpoint : Endpoint} (hendpoint : endpoint ∈ endpoints) :
    readDocument (scanner text limit unread).strict (filesIn fs' directory) endpoint.fileName =
      readBack anonymized endpoint (fetched.results.written.get? endpoint.url) := by
  have hdocument := @get?_documentsOf env secrets fetched.results anonymized
    (fun url result hget => (Fetched.recorded hrecorded hget).1) endpoint hendpoint
  have hfile := writeCapture_files hwrite endpoint.fileName
  cases hresult : fetched.results.written.get? endpoint.url with
  | none =>
      rw [hdocument, hresult] at hfile
      rw [readDocument, filesIn, hfile]
      rfl
  | some result =>
      have hbody : fetched.results.captured.bodies.get? endpoint.url = some result.body := by
        rw [Results.get?_bodies, hresult, Option.map_some]
      obtain ⟨out, hout, hdepth, hkeys⟩ := anonymized_body hok hbody
      rw [hresult, Option.map_some, hout] at hdocument
      obtain ⟨dumped, hdumped, htext⟩ := writeCapture_ok hwrite hdocument
      have hdeep : result.body.depth ≤ maxDepth := (Fetched.written hrecorded hresult).2
      have hfile : filesIn fs' directory endpoint.fileName =
          some (encodeUtf8 (fileText dumped)) := by
        rw [filesIn, htext, Option.map_some]
      have henvelope : (buildEnvelope result (some out)).depth = result.body.depth + 1 := by
        rw [depth_buildEnvelope, hdepth]
      have hlimited : (buildEnvelope result (some out)).depth ≤ limit := by omega
      rw [readDocument_written unread (hdumps ▸ hdumped) hfile
        (distinctKeys_buildEnvelope result hkeys) hlimited
        fun q hq => hdoubles out (Dict.mem_values.2 ⟨_, hout⟩) q
          ((mem_scalars_buildEnvelope result out).1 hq), henvelope, readBack, hout]
      rfl

/-- **A capture that was written is read back**: of each endpoint that
answered, the catalog reads the envelope of its anonymized body, unless the
body is as deep as it could be received, and of the others nothing. -/
theorem capture_readBack (hlimit : maxDepth < limit) (unread : String → Reading)
    {ls : List FetchLabel} {s : FetchState}
    (hrun : (fetching (scanner text limit unread).strict).Run Machine.Free ls s)
    (hfetched : fetched.fetcher = s.fetcher) (henv : env.run = .ended fetched)
    (hdumps : env.dumps = dumps text storeOptions) {status : ℕ}
    (hending : (main sameLetter env secrets directory fs).ending = .returned status)
    (hstatus : status ≠ 2)
    (hdoubles : ∀ anonymized, anonymize env.texts fetched.results.captured = .ok anonymized →
      ∀ body ∈ anonymized.bodies.values, ∀ q, .float (.finite q) ∈ body.scalars →
        text.Writes (.float (.finite q))) :
    ∃ anonymized, anonymize env.texts fetched.results.captured = .ok anonymized ∧
      ∀ endpoint ∈ endpoints,
        readDocument (scanner text limit unread).strict
          (filesIn (main sameLetter env secrets directory fs).fs directory) endpoint.fileName =
            readBack anonymized endpoint (fetched.results.written.get? endpoint.url) := by
  obtain ⟨anonymized, hok, hwrite⟩ := main_written henv hending hstatus
  exact ⟨anonymized, hok, fun endpoint hendpoint => readDocument_capture hlimit unread
    (hfetched ▸ recorded_of_run hrun) hdumps hok hwrite (hdoubles anonymized hok) hendpoint⟩

end Run

/-! ### One answer before the deadline -/

def configsEndpoint : Endpoint := ⟨"/configs/file", "configs_file.json"⟩

/-- A parser that reads no half of a pair. -/
def halfScanner : StrictParser := (scanner halfText 65 fun _ => .stopped [] .badSyntax).strict

def emptyList : EndpointResult := ⟨configsEndpoint, .ok, some 200, .list [], some 2⟩

def oneAnswer : Fetched where
  fetcher := ⟨Dict.set ∅ "/configs/file" emptyList, true, false⟩
  listed := by
    intro result hresult
    obtain rfl := List.mem_singleton.1 hresult
    exact List.mem_cons_self
  distinct := by
    intro result hresult
    obtain rfl := List.mem_singleton.1 hresult
    rfl

def oneAnswerRun : Environment where
  run := .ended oneAnswer
  faults := ⟨fun _ => none, fun _ => none⟩
  texts := .simple
  dumps := dumps halfText storeOptions
  toolVersion := "1.0"
  capturedOn := "2026-01"

theorem parseJson_emptyList : parseJson halfScanner (encodeUtf8 "[]") = .ok (.list []) := by
  have hdumpable : Dumpable halfText 65 (.list []) :=
    .list fun item hitem => absurd hitem List.not_mem_nil
  obtain ⟨source, hsource, hparse⟩ :=
    parseJson_dumps storeOptions (fun _ => .stopped [] .badSyntax) hdumpable
      (show ∀ c ∈ "".toList, Json.isBlank c = true by simp)
  obtain rfl : "[]" = source := Option.some.inj hsource
  rw [String.append_empty] at hparse
  exact hparse

theorem oneAnswer_run : ∃ ls s, (fetching halfScanner).Run Machine.Free ls s ∧
    oneAnswer.fetcher = s.fetcher := by
  let first : FetchState :=
    ⟨⟨∅, true, false⟩, some ⟨configsEndpoint, endpoints.tail⟩, [[]], [.requested configsEndpoint]⟩
  have hconnect : (fetching halfScanner).step (fetching halfScanner).init .connect = some first :=
    rfl
  have hanswer : (fetching halfScanner).step first
      (.ends (.response ⟨200, ∅, some (encodeUtf8 "[]")⟩)) =
        some ((first.record emptyList).goOn endpoints.tail) := by
    have hfetch : fetch halfScanner configsEndpoint
        (.response ⟨200, ∅, some (encodeUtf8 "[]")⟩) = .ok emptyList := by
      rw [fetch, Option.getD_some]
      simp only [parseJson_emptyList]
      rfl
    simp only [fetching, fetchStep, first, hfetch]
    rfl
  exact ⟨_, _, (Machine.Run.nil.snoc trivial hconnect).snoc trivial hanswer, rfl⟩

/-- The list is read in its envelope. -/
theorem capture_readBack_oneAnswer : readDocument halfScanner
    (filesIn (main (· == ·) oneAnswerRun ⟨"hunter2", none, "001122AABBCC"⟩ "capture" ∅).fs
      "capture") "configs_file.json" = .ok (buildEnvelope emptyList (some (.list []))) := by
  obtain ⟨ls, s, hrun, hfetched⟩ := oneAnswer_run
  have hbodies : ∀ anonymized,
      anonymize oneAnswerRun.texts oneAnswer.results.captured = .ok anonymized →
        anonymized.bodies.get? "/configs/file" = some (.list []) ∧
          anonymized.bodies.values = [.list []] := by
    intro anonymized hok
    obtain rfl := Except.ok.inj hok
    exact ⟨rfl, rfl⟩
  obtain ⟨anonymized, hok, hread⟩ := @capture_readBack (· == ·) oneAnswerRun
    ⟨"hunter2", none, "001122AABBCC"⟩ "capture" ∅ oneAnswer halfText 65 (by decide)
    (fun _ => .stopped [] .badSyntax) ls s hrun hfetched rfl rfl 1 rfl (by decide)
    (fun anonymized hok body hbody q hq => by
      rw [(hbodies anonymized hok).2, List.mem_singleton] at hbody
      subst hbody
      exact absurd hq List.not_mem_nil)
  have hconfigs := hread configsEndpoint List.mem_cons_self
  rw [← (hbodies anonymized hok).1]
  exact hconfigs

end Capture

end Tydomio
