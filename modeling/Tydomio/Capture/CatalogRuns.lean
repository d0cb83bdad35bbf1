import Tydomio.Capture.CatalogFile
import Tydomio.Capture.Extract
import Tydomio.Capture.Merge

/-!
# Runs of the catalog

What a capture says is the list of its descriptions (`descriptionsOf`); the
runs so far stand for the descriptions they accepted, and a run accepts those
of its capture, all or none (`CatalogStep`). The file holds the union of what
was accepted, and a run reads it back before it merges
(`catalogMain_step`). So after any runs the file depends on the accepted
captures only, and neither on their order nor on how often each was merged.
-/

namespace Tydomio

open Common

namespace Capture

/-! ## Merging keeps what has a text -/

section Writable

variable {text : FloatText}

theorem Descriptor.Writable.mergeField {usage : String} {known found : Descriptor}
    (h : known.Writable text) : (mergeField usage known found).1.Writable text :=
  ⟨h.min, h.max, h.step, h.size⟩

theorem Usage.Writable.mergeUsage {name : String} {known found : Usage}
    (h : known.Writable text) (h' : found.Writable text) :
    (mergeUsage name known found).1.Writable text := by
  have hbyKey : ∀ {α : Type} (key : α → String) (values : List α) k v,
      (Dict.byKey key values).get? k = some v → v ∈ values := by
    intro α key values k v hv
    obtain ⟨value, hvalue, heq⟩ := List.mem_map.1 (Dict.mem_of_get?_ofList hv)
    obtain ⟨-, rfl⟩ := Prod.mk.inj heq
    exact hvalue
  refine ⟨fun f hf => ?_, fun c hc => ?_⟩
  · obtain ⟨k, hk⟩ := Dict.mem_listing.1 hf
    refine Dict.mergeAll_forall (P := fun f : Descriptor => f.Writable text)
      (fun known item hknown hitem => ?_) h'.fields
      (fun k v hv => h.fields v (hbyKey _ _ k v hv)) k f hk
    cases known with
    | none => exact hitem
    | some known => exact (hknown known rfl).mergeField
  · obtain ⟨k, hk⟩ := Dict.mem_listing.1 hc
    refine Dict.mergeAll_forall (P := fun c : Command => ∀ f ∈ c.parameters, f.Writable text)
      (fun known item hknown hitem => ?_) h'.commands
      (fun k v hv => h.commands v (hbyKey _ _ k v hv)) k c hk
    cases known with
    | none => exact hitem
    | some known =>
        show ∀ f ∈ (mergeCommand name (some known) item).1.parameters, _
        rw [mergeCommand]
        split
        · exact hitem
        · exact hknown known rfl

theorem writable_empty : Usage.empty.Writable text := ⟨by simp [Usage.empty], by simp [Usage.empty]⟩

/-- **A merged catalog has a text** where both have. -/
theorem writable_merge {known found : Catalog} (h : ∀ e ∈ known.entries, e.2.Writable text)
    (h' : ∀ e ∈ found.entries, e.2.Writable text) :
    ∀ e ∈ (merge known found).1.entries, e.2.Writable text := by
  intro e he
  have hget := Dict.get?_eq_some_iff.2 he
  rw [merge, Dict.get?_inOrder] at hget
  refine Dict.mergeAll_forall (P := fun u : Usage => u.Writable text)
    (fun known (item : String × Usage) hknown (hitem : item.2.Writable text) => ?_) h'
    (fun k v hv => h (k, v) (Dict.get?_eq_some_iff.1 hv)) e.1 e.2 hget
  refine Usage.Writable.mergeUsage ?_ hitem
  cases known with
  | none => exact writable_empty
  | some known => exact hknown known rfl

theorem writable_mergeEntries {catalogs : List Catalog}
    (h : ∀ e ∈ catalogs.flatMap Dict.entries, e.2.Writable text) :
    ∀ e ∈ (mergeEntries catalogs).1.entries, e.2.Writable text := by
  induction catalogs using List.reverseRecOn with
  | nil => exact fun e he => absurd he List.not_mem_nil
  | append_singleton catalogs catalog ih =>
      rw [List.flatMap_append, List.flatMap_singleton] at h
      rw [mergeEntries, List.foldl_append]
      exact writable_merge (ih fun e he => h e (List.mem_append_left _ he))
        fun e he => h e (List.mem_append_right _ he)

/-- What has a text has no NaN. -/
theorem Descriptor.Writable.ordinary {d : Descriptor} (h : d.Writable text) : d.Ordinary := by
  have hnumber : ∀ n : Number, text.Writes n.json → n.Ordinary := by
    intro n hn
    cases n with
    | int n => exact PyFloat.noConfusion
    | float x =>
        obtain ⟨q, rfl, -⟩ := hn
        exact PyFloat.noConfusion
  exact ⟨fun n hn => hnumber n (h.min n hn), fun n hn => hnumber n (h.max n hn),
    fun n hn => hnumber n (h.step n hn)⟩

end Writable

/-! ## What a capture says -/

section Runs

variable (parser : StrictParser) (lax : LaxNumbers) (text : FloatText)

/-- **The descriptions of a capture**, once its documents are read and
validated. -/
def descriptionsOf (files : String → Option Bytes) :
    Except CatalogError (List (String × Usage)) := do
  let documents ← readCapture parser files
  let described ← (describedOf lax documents).mapError .invalidInput
  return described.entries.flatMap Dict.entries

/-- Its numbers have texts: they are finite, and of no more digits than the
language converts. -/
def HasTexts (files : String → Option Bytes) : Prop :=
  ∀ descriptions, descriptionsOf parser lax files = .ok descriptions →
    ∀ e ∈ descriptions, e.2.Writable text

/-- **What a run does** to the descriptions accepted before it: it accepts
all of the capture, or none. -/
inductive CatalogStep (accepted : List (String × Usage)) (input : CatalogInput) :
    CatalogEnding → List (String × Usage) → Prop
  | written {descriptions : List (String × Usage)} :
      descriptionsOf parser lax input.files = .ok descriptions →
      Consistent (accepted ++ descriptions) → input.opens = true →
      CatalogStep accepted input .written (accepted ++ descriptions)
  /-- It agrees, but the file cannot be opened. -/
  | notOpened {descriptions : List (String × Usage)} :
      descriptionsOf parser lax input.files = .ok descriptions →
      Consistent (accepted ++ descriptions) → input.opens = false →
      CatalogStep accepted input (.raised (.other "OSError")) accepted
  | conflicting {descriptions : List (String × Usage)} {conflicts : List Conflict} :
      descriptionsOf parser lax input.files = .ok descriptions →
      ¬ Consistent (accepted ++ descriptions) → conflicts ≠ [] →
      CatalogStep accepted input (.conflicting conflicts) accepted
  | invalid {e : InvalidInput} :
      descriptionsOf parser lax input.files = .error (.invalidInput e) →
      CatalogStep accepted input (.invalid e) accepted
  | raised {e : Exc} :
      descriptionsOf parser lax input.files = .error (.raised e) →
      CatalogStep accepted input (.raised e) accepted

/-- What runs do, one after the other. -/
inductive CatalogSteps : List (String × Usage) → List CatalogInput → List CatalogEnding →
    List (String × Usage) → Prop
  | nil {accepted : List (String × Usage)} : CatalogSteps accepted [] [] accepted
  | cons {accepted accepted' accepted'' : List (String × Usage)} {input : CatalogInput}
      {inputs : List CatalogInput} {ending : CatalogEnding} {endings : List CatalogEnding} :
      CatalogStep parser lax accepted input ending accepted' →
      CatalogSteps accepted' inputs endings accepted'' →
      CatalogSteps accepted (input :: inputs) (ending :: endings) accepted''

/-- **The file holds what was accepted**: it is the text of the union of the
descriptions, or missing where nothing was written yet. -/
structure Holds (file : CatalogFile) (accepted : List (String × Usage)) : Prop where
  consistent : Consistent accepted
  wellFormed : ∀ e ∈ accepted, e.2.WellFormed
  file : file = .absent ∧ accepted = [] ∨ ∃ catalog dumped, IsUnion catalog accepted ∧
    (∀ e ∈ catalog.entries, e.2.Writable text) ∧ dump text catalog = some dumped ∧
    file = .content (encodeUtf8 dumped)

variable {parser lax text} {accepted descriptions : List (String × Usage)}

/-! ## Descriptions -/

theorem Consistent.of_append_right {later : List (String × Usage)}
    (h : Consistent (accepted ++ later)) : Consistent later := by
  intro name
  obtain ⟨hfields, hcommands⟩ := h name
  rw [fieldsOf_append] at hfields
  rw [commandsOf_append] at hcommands
  exact ⟨fun f hf g hg => hfields f (List.mem_append_right _ hf) g (List.mem_append_right _ hg),
    fun c hc d hd => hcommands c (List.mem_append_right _ hc) d (List.mem_append_right _ hd)⟩

/-- Every entry is one that `_entry` makes. -/
theorem mem_entries {described : Described} {catalog : Catalog} (h : catalog ∈ described.entries) :
    ∃ name endpoint, catalog = entry name endpoint := by
  rcases List.mem_append.1 h with h | h
  · obtain ⟨device, -, h⟩ := List.mem_flatMap.1 h
    obtain ⟨endpoint, -, h⟩ := List.mem_filterMap.1 h
    obtain ⟨usage, -, rfl⟩ := Option.map_eq_some_iff.1 h
    exact ⟨usage, endpoint, rfl⟩
  · obtain ⟨area, -, rfl⟩ := List.mem_map.1 h
    exact ⟨areaUsage, area, rfl⟩

/-- The descriptions of a capture are well formed where they have texts. -/
theorem wellFormed_descriptions {described : Described}
    (h : ∀ e ∈ described.entries.flatMap Dict.entries, e.2.Writable text) :
    ∀ e ∈ described.entries.flatMap Dict.entries, e.2.WellFormed := by
  intro e he
  have hwritable := h e he
  obtain ⟨catalog, hcatalog, he⟩ := List.mem_flatMap.1 he
  obtain ⟨name, endpoint, rfl⟩ := mem_entries hcatalog
  exact ⟨entry_enumSorted name endpoint he, fun f hf => (hwritable.fields f hf).ordinary,
    fun c hc f hf => (hwritable.commands c hc f hf).ordinary⟩

/-- **What a capture says** is what its documents describe. -/
theorem descriptionsOf_eq {files : String → Option Bytes} {documents : Dict String JsonValue}
    (h : ∀ name ∈ captureFiles, ∃ document, documents.get? name = some document ∧
      readDocument parser files name = .ok document) :
    descriptionsOf parser lax files =
      ((describedOf lax documents).mapError CatalogError.invalidInput).map fun described =>
        described.entries.flatMap Dict.entries := by
  have hread : ∀ name ∈ captureFiles,
      documents.get? name = some ((documents.get? name).getD .null) ∧
        readDocument parser files name = .ok ((documents.get? name).getD .null) := by
    intro name hname
    obtain ⟨document, hdocument, hok⟩ := h name hname
    rw [hdocument]
    exact ⟨rfl, hok⟩
  have hsame : ∀ name ∈ captureFiles, (Dict.ofList (captureFiles.map fun name =>
      (name, (documents.get? name).getD .null))).get? name = documents.get? name := by
    intro name hname
    have hnodup : ((captureFiles.map fun name =>
        (name, (documents.get? name).getD .null)).map Prod.fst).Nodup := by
      rw [List.map_map]
      exact (show captureFiles.Nodup by decide)
    rw [(hread name hname).1, Dict.get?_eq_some_iff, Dict.entries_ofList hnodup]
    exact List.mem_map_of_mem hname
  rw [descriptionsOf, readCapture_ok fun name hname => (hread name hname).2]
  show ((describedOf lax _).mapError CatalogError.invalidInput >>= _) = _
  rw [describedOf_congr lax hsame]
  cases describedOf lax documents <;> rfl

/-! ## The file -/

/-- A union is in order already. -/
theorem IsUnion.inOrder {catalog : Catalog} (h : IsUnion catalog accepted) :
    catalog.inOrder = catalog := by
  refine Dict.inOrder_eq_self ?_
  rw [h.usages]
  exact (pairwise_sortedSet _).imp le_of_lt

variable {limit : ℕ} (hlimit : catalogDepth ≤ limit) (unread : String → Reading) (path : String)

include hlimit

variable (lax) in
/-- **What the file holds is read back.** -/
theorem Holds.read {file : CatalogFile} (h : Holds text file accepted) :
    ∃ catalog, readCatalog (scanner text limit unread).strict lax path file = .ok catalog ∧
      IsUnion catalog accepted ∧ ∀ e ∈ catalog.entries, e.2.Writable text := by
  rcases h.file with ⟨rfl, rfl⟩ | ⟨catalog, dumped, hunion, hwritable, hdumped, rfl⟩
  · exact ⟨∅, rfl, isUnion_empty, fun e he => absurd he List.not_mem_nil⟩
  · obtain ⟨dumped', hdumped', hread⟩ := readCatalog_dump hlimit unread lax path hwritable
    obtain rfl := Option.some.inj (hdumped.symm.trans hdumped')
    rw [hunion.inOrder] at hread
    exact ⟨catalog, hread, hunion, hwritable⟩

/-! ## A run -/

/-- What is merged of a capture: a conflict is reported exactly where its
descriptions do not agree with those accepted. -/
theorem mergedCatalog_ok {files : String → Option Bytes} {file : CatalogFile}
    (h : Holds text file accepted)
    (hdescriptions : descriptionsOf (scanner text limit unread).strict lax files =
      .ok descriptions)
    (hwritable : ∀ e ∈ descriptions, e.2.Writable text) :
    ∃ catalog conflicts,
      mergedCatalog (scanner text limit unread).strict lax path files file =
        .ok (catalog, conflicts) ∧
      (∀ e ∈ descriptions, e.2.WellFormed) ∧
      (conflicts = [] ↔ Consistent (accepted ++ descriptions)) ∧
      (conflicts = [] → IsUnion catalog (accepted ++ descriptions) ∧
        ∀ e ∈ catalog.entries, e.2.Writable text) := by
  obtain ⟨known, hread, hunion, hknown⟩ := h.read lax hlimit unread path
  obtain ⟨documents, hdocuments, hrest⟩ := bind_eq_ok_iff.1 hdescriptions
  obtain ⟨described, hdescribed, heq⟩ := bind_eq_ok_iff.1 hrest
  obtain rfl := Except.ok.inj heq
  have hextract : (extract lax documents).mapError CatalogError.invalidInput =
      .ok (mergeEntries described.entries) := by
    rw [extract]
    cases hd : describedOf lax documents with
    | error e =>
        rw [hd] at hdescribed
        cases hdescribed
    | ok described' =>
        rw [hd] at hdescribed
        obtain rfl := Except.ok.inj hdescribed
        rfl
  have hwell := wellFormed_descriptions hwritable
  obtain ⟨hconflicts, hfound⟩ := mergeEntries_spec hwell
  -- where the capture agrees with itself, what is found describes what it says
  have hmerge : Consistent (described.entries.flatMap Dict.entries) →
      ((merge known (mergeEntries described.entries).1).2 = [] ↔
        Consistent (accepted ++ described.entries.flatMap Dict.entries)) ∧
      (Consistent (accepted ++ described.entries.flatMap Dict.entries) →
        IsUnion (merge known (mergeEntries described.entries).1).1
          (accepted ++ described.entries.flatMap Dict.entries)) := by
    intro hc
    have hsame := (hfound hc).sameContent.append h.wellFormed
    obtain ⟨hiff, hmerged⟩ := merge_spec hunion h.consistent (hfound hc).wellFormed
    exact ⟨hiff.trans ⟨fun hall => hall.congr hsame, fun hall => hall.congr hsame.symm⟩,
      fun hall => (hmerged (hall.congr hsame.symm)).congr hsame⟩
  refine ⟨(merge known (mergeEntries described.entries).1).1,
    (mergeEntries described.entries).2 ++ (merge known (mergeEntries described.entries).1).2,
    ?_, hwell, ?_, fun hnone => ?_⟩
  · rw [mergedCatalog, hdocuments]
    show ((extract lax documents).mapError CatalogError.invalidInput >>= _) = _
    rw [hextract]
    show (readCatalog _ lax path file >>= _) = _
    rw [hread]
    rfl
  · rw [List.append_eq_nil_iff, hconflicts]
    constructor
    · rintro ⟨hc, hnone⟩
      exact (hmerge hc).1.1 hnone
    · intro hall
      have hc := hall.of_append_right
      exact ⟨hc, (hmerge hc).1.2 hall⟩
  · obtain ⟨hleft, hright⟩ := List.append_eq_nil_iff.1 hnone
    have hc := hconflicts.1 hleft
    exact ⟨(hmerge hc).2 ((hmerge hc).1.1 hright),
      writable_merge hknown (writable_mergeEntries hwritable)⟩

/-- **A run whose capture is read** merges it where it agrees with what was
accepted, and leaves the file where it does not. -/
theorem catalogMain_ok {input : CatalogInput} {file : CatalogFile} (h : Holds text file accepted)
    (hdescriptions : descriptionsOf (scanner text limit unread).strict lax input.files =
      .ok descriptions)
    (hwritable : ∀ e ∈ descriptions, e.2.Writable text) :
    (∃ file', Holds text file' (accepted ++ descriptions) ∧
      catalogMain (scanner text limit unread).strict lax text path input file =
        if input.opens then (.written, file') else (.raised (.other "OSError"), file)) ∨
    ¬ Consistent (accepted ++ descriptions) ∧ ∃ conflicts, conflicts ≠ [] ∧
      catalogMain (scanner text limit unread).strict lax text path input file =
        (.conflicting conflicts, file) := by
  obtain ⟨catalog, conflicts, hmerged, hwell, hconflicts, hunion⟩ :=
    mergedCatalog_ok hlimit unread path h hdescriptions hwritable
  rw [catalogMain, hmerged]
  simp only
  by_cases hnone : conflicts = []
  · obtain ⟨hunion, hcatalog⟩ := hunion hnone
    obtain ⟨dumped, hdumped, -⟩ := readCatalog_dump hlimit unread lax path hcatalog
    rw [if_neg (not_not.2 hnone), hdumped]
    exact .inl ⟨.content (encodeUtf8 dumped), ⟨hconflicts.1 hnone,
      fun e he => (List.mem_append.1 he).elim (h.wellFormed e) (hwell e),
      .inr ⟨catalog, dumped, hunion, hcatalog, hdumped, rfl⟩⟩, rfl⟩
  · rw [if_pos hnone]
    exact .inr ⟨fun hall => hnone (hconflicts.2 hall), conflicts, hnone, rfl⟩

/-- **One run**: it does what the step says, and the file holds what was
accepted again. -/
theorem catalogMain_step {input : CatalogInput} {file : CatalogFile}
    (h : Holds text file accepted)
    (hwritable : HasTexts (scanner text limit unread).strict lax text input.files) :
    ∃ accepted', CatalogStep (scanner text limit unread).strict lax accepted input
        (catalogMain (scanner text limit unread).strict lax text path input file).1 accepted' ∧
      Holds text (catalogMain (scanner text limit unread).strict lax text path input file).2
        accepted' := by
  cases hdescriptions : descriptionsOf (scanner text limit unread).strict lax input.files with
  | error e =>
      have hmerged : mergedCatalog (scanner text limit unread).strict lax path input.files file =
          .error e := by
        rcases bind_eq_error_iff.1 hdescriptions with herror | ⟨documents, hdocuments, hrest⟩
        · rw [mergedCatalog, herror]
          rfl
        · rcases bind_eq_error_iff.1 hrest with herror | ⟨described, -, hok⟩
          · rw [mergedCatalog, hdocuments]
            show ((extract lax documents).mapError CatalogError.invalidInput >>= _) = _
            rw [extract]
            cases hd : describedOf lax documents with
            | error e' =>
                rw [hd] at herror
                obtain rfl := Except.error.inj herror
                rfl
            | ok described =>
                rw [hd] at herror
                cases herror
          · cases hok
      rw [catalogMain, hmerged]
      cases e with
      | invalidInput e => exact ⟨accepted, .invalid hdescriptions, h⟩
      | raised e => exact ⟨accepted, .raised hdescriptions, h⟩
  | ok descriptions =>
      rcases catalogMain_ok hlimit unread path h hdescriptions (hwritable _ hdescriptions) with
        ⟨file', hholds, hmain⟩ | ⟨hno, conflicts, hsome, hmain⟩
      · cases hopens : input.opens with
        | true =>
            rw [hmain, if_pos hopens]
            exact ⟨accepted ++ descriptions, .written hdescriptions hholds.consistent hopens,
              hholds⟩
        | false =>
            rw [hmain, if_neg (hopens ▸ Bool.false_ne_true)]
            exact ⟨accepted, .notOpened hdescriptions hholds.consistent hopens, h⟩
      · rw [hmain]
        exact ⟨accepted, .conflicting hdescriptions hno hsome, h⟩

/-! ## Any runs -/

/-- **Runs, one after the other.** -/
theorem catalogRuns_steps {inputs : List CatalogInput} {file : CatalogFile}
    (h : Holds text file accepted)
    (hwritable : ∀ input ∈ inputs,
      HasTexts (scanner text limit unread).strict lax text input.files) :
    ∃ accepted', CatalogSteps (scanner text limit unread).strict lax accepted inputs
        (catalogRuns (scanner text limit unread).strict lax text path file inputs).1 accepted' ∧
      Holds text (catalogRuns (scanner text limit unread).strict lax text path file inputs).2
        accepted' := by
  induction inputs generalizing file accepted with
  | nil => exact ⟨accepted, .nil, h⟩
  | cons input inputs ih =>
      obtain ⟨middle, hstep, hmiddle⟩ :=
        catalogMain_step hlimit unread path h (hwritable input List.mem_cons_self)
      obtain ⟨accepted', hsteps, hlast⟩ :=
        ih hmiddle fun input hinput => hwritable input (List.mem_cons_of_mem _ hinput)
      exact ⟨accepted', .cons hstep hsteps, hlast⟩

omit hlimit

theorem holds_absent : Holds text .absent [] where
  consistent := consistent_nil
  wellFormed _ he := absurd he List.not_mem_nil
  file := .inl ⟨rfl, rfl⟩

/-- **The catalog file holds the union of what was accepted**, after any runs
from no file: each run accepts all its capture says, where that agrees with
what was accepted before, or it leaves the file as it is. -/
theorem catalogRuns_union (lax : LaxNumbers) (text : FloatText) {limit : ℕ}
    (hlimit : catalogDepth ≤ limit) (unread : String → Reading) (path : String)
    (inputs : List CatalogInput)
    (hwritable : ∀ input ∈ inputs,
      HasTexts (scanner text limit unread).strict lax text input.files) :
    ∃ accepted catalog,
      CatalogSteps (scanner text limit unread).strict lax [] inputs
        (catalogRuns (scanner text limit unread).strict lax text path .absent inputs).1 accepted ∧
      readCatalog (scanner text limit unread).strict lax path
        (catalogRuns (scanner text limit unread).strict lax text path .absent inputs).2 =
          .ok catalog ∧
      IsUnion catalog accepted := by
  obtain ⟨accepted, hsteps, hholds⟩ :=
    catalogRuns_steps hlimit unread path holds_absent hwritable
  obtain ⟨catalog, hread, hunion, -⟩ := hholds.read lax hlimit unread path
  exact ⟨accepted, catalog, hsteps, hread, hunion⟩

end Runs

/-! ### A capture, and a directory without one -/

section Position

/-- The documents of a capture, before they are written. -/
def positionDocuments : Dict String JsonValue :=
  envelopes endpointField.statuses endpointField.bodies

def positionFiles (name : String) : Option Bytes :=
  (positionDocuments.get? name).bind fun document =>
    (dumps halfText storeOptions document).map fun dumped => encodeUtf8 (fileText dumped)

/-- The parser of the language. -/
def catalogParser : StrictParser := (scanner halfText 7 fun _ => .stopped [] .badSyntax).strict

/-- Whether a value is a double. -/
def isDouble : JsonValue → Bool
  | .float _ => true
  | _ => false

theorem readDocument_position {name : String} (h : name ∈ captureFiles) :
    ∃ document, positionDocuments.get? name = some document ∧
      readDocument catalogParser positionFiles name = .ok document := by
  have hall : ∀ name ∈ captureFiles, ∃ document ∈ positionDocuments.get? name,
      (writtenTree halfText false document).isSome = true ∧ document.distinctKeys = true ∧
        document.depth ≤ 7 ∧ document.scalars.all (fun leaf => !isDouble leaf) = true := by
    decide +kernel
  obtain ⟨document, hdocument, hwritten, hkeys, hdepth, hdoubles⟩ := hall name h
  obtain ⟨tree, htree⟩ := Option.isSome_iff_exists.1 hwritten
  have hdumped : dumps halfText storeOptions document =
      some (.ofList (Json.write storeOptions.style 0 tree)) := by
    rw [dumps, show storeOptions.order document = document from rfl,
      show storeOptions.allowNan = false from rfl, htree, Option.map_some]
  have hfile : positionFiles name =
      some (encodeUtf8 (fileText (.ofList (Json.write storeOptions.style 0 tree)))) := by
    rw [positionFiles, hdocument, Option.bind_some, hdumped, Option.map_some]
  have hnone : ∀ q, .float (.finite q) ∉ document.scalars :=
    fun q hq => Bool.noConfusion (List.all_eq_true.1 hdoubles _ hq)
  rw [catalogParser, readDocument_written _ hdumped hfile hkeys hdepth
    fun q hq => absurd hq (hnone q)]
  exact ⟨document, hdocument, if_pos (hdepth.trans (show 7 ≤ 64 by omega))⟩

theorem descriptionsOf_position : descriptionsOf catalogParser .strict positionFiles =
    .ok [("shutter", ⟨[positionField], []⟩)] := by
  rw [descriptionsOf_eq fun name hname => readDocument_position hname]
  have hdescribed : describedOf .strict positionDocuments =
      .ok ⟨[⟨7, 9, "shutter"⟩], [⟨7, [⟨9, [positionField], []⟩]⟩], [], [], []⟩ := by
    decide +kernel
  rw [hdescribed]
  rfl

theorem writable_position : ∀ e ∈ [("shutter", (⟨[positionField], []⟩ : Usage))],
    e.2.Writable halfText := by
  intro e he
  obtain rfl := List.mem_singleton.1 he
  refine ⟨fun f hf => ?_, fun c hc => absurd hc List.not_mem_nil⟩
  obtain rfl := List.mem_singleton.1 hf
  exact ⟨by simp [positionField], by simp [positionField], by simp [positionField],
    by simp [positionField]⟩

theorem hasTexts_position : HasTexts catalogParser .strict halfText positionFiles := by
  intro descriptions hdescriptions
  rw [descriptionsOf_position, Except.ok.injEq] at hdescriptions
  subst hdescriptions
  exact writable_position

/-- No file of a capture is there. -/
theorem descriptionsOf_missing : descriptionsOf catalogParser .strict (fun _ => none) =
    .error (.invalidInput ⟨"configs_file.json: missing or not JSON"⟩) := by
  rfl

/-- A run that reads a capture, and one that finds none. -/
def positionInputs : List CatalogInput := [⟨positionFiles, true⟩, ⟨fun _ => none, true⟩]

theorem hasTexts_inputs {input : CatalogInput} (h : input ∈ positionInputs) :
    HasTexts catalogParser .strict halfText input.files := by
  simp only [positionInputs, List.mem_cons, List.not_mem_nil, or_false] at h
  rcases h with rfl | rfl
  · exact hasTexts_position
  · intro descriptions hdescriptions
    cases descriptionsOf_missing.symm.trans hdescriptions

theorem consistent_position : Consistent [("shutter", ⟨[positionField], []⟩)] := by
  intro name
  by_cases hname : "shutter" = name
  · subst hname
    exact ⟨by unfold FieldsAgree; decide +kernel, by unfold CommandsAgree; decide +kernel⟩
  · have hnone : Dict.named Prod.fst name [("shutter", (⟨[positionField], []⟩ : Usage))] = [] := by
      simp [Dict.named, hname]
    rw [fieldsOf, commandsOf, hnone]
    exact ⟨by simp [FieldsAgree], by simp [CommandsAgree]⟩

/-- The file after the two runs, and how they ended. -/
theorem positionSteps_ends {endings : List CatalogEnding} {accepted : List (String × Usage)}
    (h : CatalogSteps catalogParser .strict [] positionInputs endings accepted) :
    accepted = [("shutter", ⟨[positionField], []⟩)] ∧ endings =
      [.written, .invalid ⟨"configs_file.json: missing or not JSON"⟩] := by
  cases h with
  | cons hfirst hrest =>
      cases hrest with
      | cons hsecond hlast =>
          cases hlast
          have hmissing := descriptionsOf_missing
          cases hfirst with
          | written hdescriptions _ _ =>
              rw [descriptionsOf_position, Except.ok.injEq] at hdescriptions
              subst hdescriptions
              cases hsecond with
              | invalid herror =>
                  cases hmissing.symm.trans herror
                  exact ⟨rfl, rfl⟩
              | raised herror => cases hmissing.symm.trans herror
              | written hfound _ _ => cases hmissing.symm.trans hfound
              | notOpened hfound _ _ => cases hmissing.symm.trans hfound
              | conflicting hfound _ _ => cases hmissing.symm.trans hfound
          | notOpened _ _ hopens => cases hopens
          | conflicting hdescriptions hno _ =>
              rw [descriptionsOf_position, Except.ok.injEq] at hdescriptions
              subst hdescriptions
              exact absurd consistent_position hno
          | invalid herror => cases descriptionsOf_position.symm.trans herror
          | raised herror => cases descriptionsOf_position.symm.trans herror

/-- The field of the capture is in the file, and stays there. -/
theorem catalogRuns_union_position : ∃ catalog,
    readCatalog catalogParser .strict "catalog.json"
      (catalogRuns catalogParser .strict halfText "catalog.json" .absent positionInputs).2 =
        .ok catalog ∧
    IsUnion catalog [("shutter", ⟨[positionField], []⟩)] := by
  obtain ⟨accepted, catalog, hsteps, hread, hunion⟩ := catalogRuns_union .strict halfText
    (show catalogDepth ≤ 7 from Nat.le_refl 7) (fun _ => .stopped [] .badSyntax) "catalog.json"
    positionInputs fun input hinput => hasTexts_inputs hinput
  rw [(positionSteps_ends hsteps).1] at hunion
  exact ⟨catalog, hread, hunion⟩

end Position

/-! ## What the file depends on -/

section Runs

variable {parser : StrictParser} {lax : LaxNumbers} {text : FloatText}
  {accepted descriptions : List (String × Usage)}

/-- Fewer descriptions that agree agree. -/
theorem Consistent.mono {fewer : List (String × Usage)} (h : Consistent accepted)
    (hsub : ∀ e ∈ fewer, e ∈ accepted) : Consistent fewer := by
  intro name
  obtain ⟨hfields, hcommands⟩ := h name
  have hnamed : ∀ e ∈ Dict.named Prod.fst name fewer, e ∈ Dict.named Prod.fst name accepted := by
    intro e he
    obtain ⟨he, hname⟩ := Dict.mem_named.1 he
    exact Dict.mem_named.2 ⟨hsub e he, hname⟩
  refine ⟨fun f hf g hg => ?_, fun c hc d hd => ?_⟩
  · obtain ⟨e, he, hf⟩ := List.mem_flatMap.1 hf
    obtain ⟨e', he', hg⟩ := List.mem_flatMap.1 hg
    exact hfields f (List.mem_flatMap.2 ⟨e, hnamed e he, hf⟩) g
      (List.mem_flatMap.2 ⟨e', hnamed e' he', hg⟩)
  · obtain ⟨e, he, hc⟩ := List.mem_flatMap.1 hc
    obtain ⟨e', he', hd⟩ := List.mem_flatMap.1 hd
    exact hcommands c (List.mem_flatMap.2 ⟨e, hnamed e he, hc⟩) d
      (List.mem_flatMap.2 ⟨e', hnamed e' he', hd⟩)

variable {inputs inputs' : List CatalogInput}
  {endings endings' : List CatalogEnding} {accepted' : List (String × Usage)}

/-- **What was accepted** is what the captures of the runs that wrote say. -/
theorem CatalogSteps.mem_iff (h : CatalogSteps parser lax accepted inputs endings accepted')
    (e : String × Usage) : e ∈ accepted' ↔ e ∈ accepted ∨
      ∃ input, (input, CatalogEnding.written) ∈ inputs.zip endings ∧
        ∃ descriptions, descriptionsOf parser lax input.files = .ok descriptions ∧
          e ∈ descriptions := by
  induction h with
  | nil => simp
  | @cons accepted middle accepted' input inputs ending endings hstep _ ih =>
      rw [ih, List.zip_cons_cons]
      cases hstep with
      | @written descriptions hdescriptions hall hopens =>
          simp only [List.mem_append, List.mem_cons, Prod.mk.injEq, and_true]
          constructor
          · rintro ((he | he) | ⟨input', hinput, hmem⟩)
            · exact .inl he
            · exact .inr ⟨input, .inl rfl, descriptions, hdescriptions, he⟩
            · exact .inr ⟨input', .inr hinput, hmem⟩
          · rintro (he | ⟨input', rfl | hinput, hmem⟩)
            · exact .inl (.inl he)
            · obtain ⟨descriptions', hdescriptions', he⟩ := hmem
              rw [hdescriptions, Except.ok.injEq] at hdescriptions'
              rw [← hdescriptions'] at he
              exact .inl (.inr he)
            · exact .inr ⟨input', hinput, hmem⟩
      | notOpened _ _ _ => simp
      | conflicting _ _ _ => simp
      | invalid _ => simp
      | raised _ => simp

/-- A run that wrote read its capture, and could open the file. -/
theorem CatalogSteps.of_written (h : CatalogSteps parser lax accepted inputs endings accepted')
    {input : CatalogInput} (hinput : (input, CatalogEnding.written) ∈ inputs.zip endings) :
    input.opens = true ∧ ∃ descriptions,
      descriptionsOf parser lax input.files = .ok descriptions := by
  induction h with
  | nil => cases hinput
  | cons hstep _ ih =>
      rw [List.zip_cons_cons, List.mem_cons] at hinput
      rcases hinput with heq | hinput
      · obtain ⟨rfl, rfl⟩ := Prod.mk.inj heq
        cases hstep with
        | written hdescriptions _ hopens => exact ⟨hopens, _, hdescriptions⟩
      · exact ih hinput

/-- **Captures that agree are all accepted**, in any order. -/
theorem CatalogSteps.all_written {all : List (String × Usage)} (hall : Consistent all)
    (h : CatalogSteps parser lax accepted inputs endings accepted')
    (haccepted : ∀ e ∈ accepted, e ∈ all)
    (hinputs : ∀ input ∈ inputs, input.opens = true ∧ ∃ descriptions,
      descriptionsOf parser lax input.files = .ok descriptions ∧ ∀ e ∈ descriptions, e ∈ all) :
    ∀ ending ∈ endings, ending = .written := by
  induction h with
  | nil => exact fun _ hending => absurd hending List.not_mem_nil
  | @cons accepted middle accepted' input inputs ending endings hstep _ ih =>
      obtain ⟨hopens, descriptions, hdescriptions, hsub⟩ := hinputs input List.mem_cons_self
      have hboth : ∀ e ∈ accepted ++ descriptions, e ∈ all :=
        fun e he => (List.mem_append.1 he).elim (haccepted e) (hsub e)
      have hrest := fun input hinput => hinputs input (List.mem_cons_of_mem _ hinput)
      cases hstep with
      | written hdescriptions' _ _ =>
          rw [hdescriptions, Except.ok.injEq] at hdescriptions'
          subst hdescriptions'
          exact List.forall_mem_cons.2 ⟨rfl, ih hboth hrest⟩
      | notOpened _ _ hclosed =>
          rw [hopens] at hclosed
          cases hclosed
      | conflicting hdescriptions' hno _ =>
          rw [hdescriptions, Except.ok.injEq] at hdescriptions'
          subst hdescriptions'
          exact absurd (hall.mono hboth) hno
      | invalid herror =>
          rw [hdescriptions] at herror
          cases herror
      | raised herror =>
          rw [hdescriptions] at herror
          cases herror

/-- All runs wrote. -/
theorem mem_zip_written {input : CatalogInput} (hlength : inputs.length = endings.length)
    (h : ∀ ending ∈ endings, ending = CatalogEnding.written) :
    (input, CatalogEnding.written) ∈ inputs.zip endings ↔ input ∈ inputs := by
  refine ⟨fun hmem => (List.of_mem_zip hmem).1, fun hinput => ?_⟩
  induction inputs generalizing endings with
  | nil => cases hinput
  | cons input' inputs ih =>
      cases endings with
      | nil => cases hlength
      | cons ending endings =>
          obtain ⟨rfl, hrest⟩ := List.forall_mem_cons.1 h
          rw [List.zip_cons_cons]
          rcases List.mem_cons.1 hinput with rfl | hinput
          · exact List.mem_cons_self
          · exact List.mem_cons_of_mem _ (ih (Nat.succ.inj hlength) hrest hinput)

theorem CatalogSteps.length_eq (h : CatalogSteps parser lax accepted inputs endings accepted') :
    inputs.length = endings.length := by
  induction h with
  | nil => rfl
  | cons _ _ ih => rw [List.length_cons, List.length_cons, ih]

/-- **The file depends on the accepted captures only**: merging them again
from no file, in any order and any number of times, without those that were
refused, is accepted every time and gives an equal catalog. -/
theorem catalogRuns_written (lax : LaxNumbers) (text : FloatText) {limit : ℕ}
    (hlimit : catalogDepth ≤ limit) (unread : String → Reading) (path : String)
    (inputs inputs' : List CatalogInput)
    (hwritable : ∀ input ∈ inputs,
      HasTexts (scanner text limit unread).strict lax text input.files)
    (hsame : ∀ input, input ∈ inputs' ↔ (input, CatalogEnding.written) ∈ inputs.zip
      (catalogRuns (scanner text limit unread).strict lax text path .absent inputs).1) :
    (∀ ending ∈ (catalogRuns (scanner text limit unread).strict lax text path .absent inputs').1,
      ending = .written) ∧
    ∃ catalog catalog',
      readCatalog (scanner text limit unread).strict lax path
        (catalogRuns (scanner text limit unread).strict lax text path .absent inputs).2 =
          .ok catalog ∧
      readCatalog (scanner text limit unread).strict lax path
        (catalogRuns (scanner text limit unread).strict lax text path .absent inputs').2 =
          .ok catalog' ∧
      CatalogEq catalog' catalog := by
  have hwritable' : ∀ input ∈ inputs',
      HasTexts (scanner text limit unread).strict lax text input.files :=
    fun input hinput => hwritable input (List.of_mem_zip ((hsame input).1 hinput)).1
  obtain ⟨accepted, hsteps, hholds⟩ :=
    catalogRuns_steps hlimit unread path holds_absent hwritable
  obtain ⟨accepted', hsteps', hholds'⟩ :=
    catalogRuns_steps hlimit unread path holds_absent hwritable'
  obtain ⟨catalog, hread, hunion, -⟩ := hholds.read lax hlimit unread path
  obtain ⟨catalog', hread', hunion', -⟩ := hholds'.read lax hlimit unread path
  have hall := hsteps'.all_written hholds.consistent (fun e he => absurd he List.not_mem_nil) <| by
    intro input hinput
    have hwritten := (hsame input).1 hinput
    obtain ⟨hopens, descriptions, hdescriptions⟩ := hsteps.of_written hwritten
    exact ⟨hopens, descriptions, hdescriptions, fun e he =>
      (hsteps.mem_iff e).2 (.inr ⟨input, hwritten, descriptions, hdescriptions, he⟩)⟩
  refine ⟨hall, catalog, catalog', hread, hread', ?_⟩
  -- both files hold the union of the same descriptions
  have hmem : ∀ e, e ∈ accepted' ↔ e ∈ accepted := by
    intro e
    rw [hsteps.mem_iff, hsteps'.mem_iff]
    simp only [mem_zip_written hsteps'.length_eq hall, hsame]
  exact (hunion'.congr (sameContent_of_mem hholds'.wellFormed hmem)).unique hunion

end Runs

/-- Merging the capture again and again gives the same. -/
theorem catalogRuns_written_position : ∃ catalog catalog',
    readCatalog catalogParser .strict "catalog.json"
      (catalogRuns catalogParser .strict halfText "catalog.json" .absent positionInputs).2 =
        .ok catalog ∧
    readCatalog catalogParser .strict "catalog.json"
      (catalogRuns catalogParser .strict halfText "catalog.json" .absent
        [⟨positionFiles, true⟩, ⟨positionFiles, true⟩]).2 = .ok catalog' ∧
    CatalogEq catalog' catalog := by
  have hlimit : catalogDepth ≤ 7 := Nat.le_refl 7
  have hwritable : ∀ input ∈ positionInputs,
      HasTexts catalogParser .strict halfText input.files :=
    fun input hinput => hasTexts_inputs hinput
  obtain ⟨accepted, hsteps, -⟩ := catalogRuns_steps hlimit (fun _ => .stopped [] .badSyntax)
    "catalog.json" holds_absent hwritable
  obtain ⟨-, hendings⟩ := positionSteps_ends hsteps
  refine (catalogRuns_written .strict halfText hlimit (fun _ => .stopped [] .badSyntax)
    "catalog.json" positionInputs [⟨positionFiles, true⟩, ⟨positionFiles, true⟩] hwritable ?_).2
  intro input
  show _ ↔ (input, CatalogEnding.written) ∈ positionInputs.zip (catalogRuns
    (scanner halfText 7 fun _ => .stopped [] .badSyntax).strict .strict halfText "catalog.json"
      .absent positionInputs).1
  rw [hendings]
  simp [positionInputs]

end Capture

end Tydomio
