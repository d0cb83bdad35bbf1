import Tydomio.Capture.Main
import Tydomio.Scrub
import Mathlib.Algebra.Order.BigOperators.Group.List

/-!
# What the search for secrets finds

`spots` lists the file names, keys and strings of some documents in their
order, each with the way to it. The search reports those that hold a secret,
one by one and in that order (`findSecrets_eq`), with one exception: a file
whose name is what a hidden name shows as.
-/

namespace Tydomio

open Common

namespace Capture

/-! ## Spots -/

/-- A step into a document. -/
inductive Crumb where
  | key (key : String)
  | index (index : ℕ)
  deriving DecidableEq

/-- **A text of a document** and the way to it, a key's own step included. -/
structure Spot where
  file : String
  trail : List Crumb
  text : String
  deriving DecidableEq

mutual

/-- The keys and strings of a value, in document order. -/
def spotsIn (file : String) (trail : List Crumb) : JsonValue → List Spot
  | .dict items => spotsInFields file trail items
  | .list items => spotsInItems file trail 0 items
  | .str text => [⟨file, trail, text⟩]
  | _ => []

/-- Those of the items of a list, from an index on. -/
def spotsInItems (file : String) (trail : List Crumb) (index : ℕ) : List JsonValue → List Spot
  | [] => []
  | item :: items =>
      spotsIn file (trail ++ [.index index]) item ++ spotsInItems file trail (index + 1) items

/-- The keys of an object, each followed by those of its value. -/
def spotsInFields (file : String) (trail : List Crumb) : List (String × JsonValue) → List Spot
  | [] => []
  | (key, value) :: items =>
      ⟨file, trail ++ [.key key], key⟩ :: spotsIn file (trail ++ [.key key]) value ++
        spotsInFields file trail items

end

/-- The file name of a document, its keys and its strings. -/
def spotsOf (document : String × JsonValue) : List Spot :=
  ⟨document.1, [], document.1⟩ :: spotsIn document.1 [] document.2

/-- Those of all documents. -/
def spots (documents : Dict String JsonValue) : List Spot := documents.entries.flatMap spotsOf

/-- **A text is a key or a string of a value**, at any depth. -/
inductive Within : JsonValue → String → Prop
  | str {text : String} : Within (.str text) text
  | item {items : List JsonValue} {item : JsonValue} {text : String} :
      item ∈ items → Within item text → Within (.list items) text
  | key {items : List (String × JsonValue)} {key : String} {value : JsonValue} :
      (key, value) ∈ items → Within (.dict items) key
  | value {items : List (String × JsonValue)} {key : String} {value : JsonValue}
      {text : String} : (key, value) ∈ items → Within value text → Within (.dict items) text

section Find

variable (sameLetter : Char → Char → Bool) (secrets : Secrets)

/-- The path of a trail, with the keys that hold a secret hidden. -/
def shownPath (trail : List Crumb) : String :=
  trail.foldl (fun path crumb =>
    match crumb with
    | .key key => childPath path (if secrets.search sameLetter key then hiddenKey else key)
    | .index index => itemPath path index) ""

/-- What is reported of a spot. -/
def reportOf (spot : Spot) : String × String :=
  (if secrets.search sameLetter spot.file then hiddenFile else spot.file,
    shownPath sameLetter secrets spot.trail)

/-- The spots that hold a secret, in order. -/
def reported (spots : List Spot) : List Spot :=
  spots.filter fun spot => secrets.search sameLetter spot.text

/-- What is reported of some spots. -/
def reports (spots : List Spot) : List (String × String) :=
  (reported sameLetter secrets spots).map (reportOf sameLetter secrets)

variable {sameLetter secrets}

theorem shownPath_key (trail : List Crumb) (key : String) :
    shownPath sameLetter secrets (trail ++ [.key key]) =
      childPath (shownPath sameLetter secrets trail)
        (if secrets.search sameLetter key then hiddenKey else key) := by
  rw [shownPath, List.foldl_append]
  rfl

theorem shownPath_index (trail : List Crumb) (index : ℕ) :
    shownPath sameLetter secrets (trail ++ [.index index]) =
      itemPath (shownPath sameLetter secrets trail) index := by
  rw [shownPath, List.foldl_append]
  rfl

theorem reports_append (spots spots' : List Spot) :
    reports sameLetter secrets (spots ++ spots') =
      reports sameLetter secrets spots ++ reports sameLetter secrets spots' := by
  rw [reports, reported, List.filter_append, List.map_append]
  rfl

/-- One spot is reported where it holds a secret. -/
theorem reports_cons (spot : Spot) (spots : List Spot) :
    reports sameLetter secrets (spot :: spots) =
      (if secrets.search sameLetter spot.text then [reportOf sameLetter secrets spot] else []) ++
        reports sameLetter secrets spots := by
  rw [reports, reported, List.filter_cons]
  split <;> rfl

/-- **The walk reports what holds a secret**, key by key and item by item. -/
theorem findIn_eq (file : String) (value : JsonValue) : ∀ trail,
    findIn sameLetter secrets (if secrets.search sameLetter file then hiddenFile else file)
      (shownPath sameLetter secrets trail) value =
      reports sameLetter secrets (spotsIn file trail value) := by
  refine @JsonValue.induction
    (fun value => ∀ trail,
      findIn sameLetter secrets (if secrets.search sameLetter file then hiddenFile else file)
        (shownPath sameLetter secrets trail) value =
        reports sameLetter secrets (spotsIn file trail value))
    (fun items => ∀ trail index,
      findInItems sameLetter secrets (if secrets.search sameLetter file then hiddenFile else file)
        (shownPath sameLetter secrets trail) index items =
        reports sameLetter secrets (spotsInItems file trail index items))
    (fun items => ∀ trail,
      findInFields sameLetter secrets (if secrets.search sameLetter file then hiddenFile else file)
        (shownPath sameLetter secrets trail) items =
        reports sameLetter secrets (spotsInFields file trail items))
    ?leaf ?list ?dict ?nil ?cons ?noField ?field value
  case leaf =>
    intro value hleaf trail
    cases value with
    | list items => cases hleaf
    | dict items => cases hleaf
    | str text =>
        rw [findIn, spotsIn, reports_cons]
        split <;> rfl
    | _ => rfl
  case list => exact fun items ih trail => ih trail 0
  case dict => exact fun items ih trail => ih trail
  case nil => exact fun _ _ => rfl
  case cons =>
    intro item items ihitem ih trail index
    rw [findInItems, spotsInItems, reports_append, ← shownPath_index, ihitem, ih]
  case noField => exact fun _ => rfl
  case field =>
    intro key value items ihvalue ih trail
    rw [findInFields, spotsInFields, List.cons_append, reports_cons, reports_append, ← ih,
      ← ihvalue, shownPath_key, ← List.append_assoc]
    refine congrArg (· ++ _) ?_
    by_cases hkey : secrets.search sameLetter key = true
    · rw [if_pos hkey, if_pos hkey, if_pos hkey, reportOf, shownPath_key, if_pos hkey]
      rfl
    · rw [if_neg hkey, if_neg hkey, if_neg hkey]
      rfl

/-- A document is reported with its name, unless the name shows as itself. -/
theorem findInDocument_eq (document : String × JsonValue) :
    findInDocument sameLetter secrets document =
      if document.1 = hiddenFile then reports sameLetter secrets (spotsIn document.1 [] document.2)
      else reports sameLetter secrets (spotsOf document) := by
  have hwalk : findIn sameLetter secrets
      (if secrets.search sameLetter document.1 then hiddenFile else document.1) "" document.2 =
      reports sameLetter secrets (spotsIn document.1 [] document.2) :=
    findIn_eq document.1 document.2 []
  rw [findInDocument, spotsOf, reports_cons]
  dsimp only
  rw [hwalk]
  by_cases hsecret : secrets.search sameLetter document.1 = true
  · rw [if_pos hsecret, if_pos hsecret, reportOf, if_pos hsecret]
    by_cases hname : document.1 = hiddenFile
    · rw [if_pos hname, if_neg (not_not.2 hname.symm), List.nil_append]
    · rw [if_neg hname, if_pos (Ne.symm hname)]
      rfl
  · rw [if_neg hsecret, if_neg hsecret, if_neg (not_not.2 rfl), List.nil_append, ite_self]

theorem reports_flatMap {A : Type} (f : A → List Spot) (items : List A) :
    reports sameLetter secrets (items.flatMap f) =
      items.flatMap fun item => reports sameLetter secrets (f item) := by
  induction items with
  | nil => rfl
  | cons item items ih => rw [List.flatMap_cons, reports_append, ih, List.flatMap_cons]

/-- **All that holds a secret is reported**, where no such file is named as a
hidden one. -/
theorem findSecrets_eq {documents : Dict String JsonValue}
    (h : ¬ (hiddenFile ∈ documents ∧ secrets.search sameLetter hiddenFile = true)) :
    findSecrets sameLetter secrets documents = reports sameLetter secrets (spots documents) := by
  rw [findSecrets, spots, reports_flatMap]
  refine List.flatMap_congr fun document hdocument => ?_
  rw [findInDocument_eq]
  split
  · rename_i hname
    have hclean : ¬ secrets.search sameLetter document.1 = true := fun hsecret =>
      h ⟨hname ▸ List.mem_map_of_mem hdocument, hname ▸ hsecret⟩
    rw [spotsOf, reports_cons, if_neg hclean, List.nil_append]
  · rfl

/-- A file named as a hidden one is not. -/
theorem length_findInDocument_lt {document : String × JsonValue} (hname : document.1 = hiddenFile)
    (hsecret : secrets.search sameLetter hiddenFile = true) :
    (findInDocument sameLetter secrets document).length <
      (reports sameLetter secrets (spotsOf document)).length := by
  rw [← hname] at hsecret
  rw [findInDocument_eq, if_pos hname, spotsOf, reports_cons, if_pos hsecret, List.length_append,
    List.length_singleton]
  omega

theorem length_findInDocument_le (document : String × JsonValue) :
    (findInDocument sameLetter secrets document).length ≤
      (reports sameLetter secrets (spotsOf document)).length := by
  rw [findInDocument_eq]
  split
  · rw [spotsOf, reports_cons, List.length_append]
    omega
  · exact le_rfl

theorem findSecrets_ne {documents : Dict String JsonValue} (hname : hiddenFile ∈ documents)
    (hsecret : secrets.search sameLetter hiddenFile = true) :
    findSecrets sameLetter secrets documents ≠ reports sameLetter secrets (spots documents) := by
  obtain ⟨document, hdocument⟩ := Dict.mem_iff.1 hname
  intro heq
  have hlength := congrArg List.length heq
  rw [findSecrets, spots, reports_flatMap, List.length_flatMap, List.length_flatMap] at hlength
  refine absurd hlength (Nat.ne_of_lt (List.sum_lt_sum _ _
    (fun document _ => length_findInDocument_le document) ?_))
  exact ⟨_, Dict.get?_eq_some_iff.1 hdocument, length_findInDocument_lt rfl hsecret⟩

end Find

/-! ## The texts of the spots -/

/-- **The spots of a value are its keys and strings.** -/
theorem exists_mem_spotsIn (file text : String) (value : JsonValue) : ∀ trail,
    (∃ spot ∈ spotsIn file trail value, spot.text = text) ↔ Within value text := by
  refine @JsonValue.induction
    (fun value => ∀ trail,
      (∃ spot ∈ spotsIn file trail value, spot.text = text) ↔ Within value text)
    (fun items => ∀ trail index,
      (∃ spot ∈ spotsInItems file trail index items, spot.text = text) ↔
        ∃ item ∈ items, Within item text)
    (fun items => ∀ trail,
      (∃ spot ∈ spotsInFields file trail items, spot.text = text) ↔
        ∃ item ∈ items, item.1 = text ∨ Within item.2 text)
    ?leaf ?list ?dict ?nil ?cons ?noField ?field value
  case leaf =>
    intro value hleaf trail
    cases value with
    | list items => cases hleaf
    | dict items => cases hleaf
    | str found =>
        simp only [spotsIn, List.mem_singleton, exists_eq_left]
        exact ⟨fun h => h ▸ .str, fun h => by cases h; rfl⟩
    | _ => exact iff_of_false (fun ⟨_, h, _⟩ => List.not_mem_nil h) nofun
  case list =>
    intro items ih trail
    rw [spotsIn, ih]
    constructor
    · rintro ⟨item, hitem, hwithin⟩
      exact .item hitem hwithin
    · rintro (_ | ⟨hitem, hwithin⟩)
      exact ⟨_, hitem, hwithin⟩
  case dict =>
    intro items ih trail
    rw [spotsIn, ih]
    constructor
    · rintro ⟨⟨key, value⟩, hitem, rfl | hwithin⟩
      · exact .key hitem
      · exact .value hitem hwithin
    · rintro (_ | _ | hitem | ⟨hitem, hwithin⟩)
      · exact ⟨_, hitem, .inl rfl⟩
      · exact ⟨_, hitem, .inr hwithin⟩
  case nil =>
    intro trail index
    exact iff_of_false (fun ⟨_, h, _⟩ => List.not_mem_nil h) fun ⟨_, h, _⟩ => List.not_mem_nil h
  case cons =>
    intro item items ihitem ih trail index
    rw [spotsInItems, List.exists_mem_cons_iff, ← ihitem (trail ++ [.index index]),
      ← ih trail (index + 1)]
    simp only [List.mem_append, or_and_right, exists_or]
  case noField =>
    intro trail
    exact iff_of_false (fun ⟨_, h, _⟩ => List.not_mem_nil h) fun ⟨_, h, _⟩ => List.not_mem_nil h
  case field =>
    intro key value items ihvalue ih trail
    rw [spotsInFields, List.exists_mem_cons_iff, ← ihvalue (trail ++ [.key key]), ← ih trail]
    simp only [List.mem_append, List.cons_append, List.mem_cons, or_and_right, exists_or,
      exists_eq_left, or_assoc]

section Clean

variable (sameLetter : Char → Char → Bool) (secrets : Secrets)

/-- A text holds a match of the secrets. -/
def HoldsSecret (text : String) : Prop :=
  Secrets.Holds sameLetter secrets.pattern text.toList

/-- **Nothing of the documents holds a secret**: no file name, no key and no
string. -/
def Clean (documents : Dict String JsonValue) : Prop :=
  ∀ name document, documents.get? name = some document →
    ¬ HoldsSecret sameLetter secrets name ∧
      ∀ text, Within document text → ¬ HoldsSecret sameLetter secrets text

variable {sameLetter secrets}

theorem search_iff {text : String} :
    secrets.search sameLetter text = true ↔ HoldsSecret sameLetter secrets text :=
  Secrets.searchFrom_iff

/-- Nothing is reported of clean documents alone. -/
theorem reports_eq_nil_iff {documents : Dict String JsonValue} :
    reports sameLetter secrets (spots documents) = [] ↔ Clean sameLetter secrets documents := by
  rw [reports, List.map_eq_nil_iff, reported, List.filter_eq_nil_iff, Clean]
  simp only [spots, List.mem_flatMap, spotsOf, search_iff]
  constructor
  · intro h name document hdocument
    have hentry := Dict.get?_eq_some_iff.1 hdocument
    refine ⟨h _ ⟨_, hentry, List.mem_cons_self⟩, fun text hwithin => ?_⟩
    obtain ⟨spot, hspot, rfl⟩ := (exists_mem_spotsIn name text document []).2 hwithin
    exact h spot ⟨_, hentry, List.mem_cons_of_mem _ hspot⟩
  · rintro h spot ⟨⟨name, document⟩, hentry, hspot⟩
    obtain ⟨hname, htexts⟩ := h name document (Dict.get?_eq_some_iff.2 hentry)
    rcases List.mem_cons.1 hspot with rfl | hspot
    · exact hname
    · exact htexts _ ((exists_mem_spotsIn name spot.text document []).1 ⟨spot, hspot, rfl⟩)

/-! ## What is found, and what is written -/

/-- No document of a capture is named as a hidden one. -/
theorem hiddenFile_not_mem_documents (env : Environment) (secrets : Secrets) (results : Results)
    (anonymized : Anonymized) : hiddenFile ∉ documentsOf env secrets results anonymized := by
  have hnames : ∀ endpoint ∈ endpoints, endpoint.fileName ≠ hiddenFile := by decide
  have hmanifest : hiddenFile ≠ manifestFile := by decide
  rw [documentsOf, ← Dict.get?_eq_none_iff, Dict.get?_set_of_ne _ _ hmanifest,
    Dict.get?_eq_none_iff, Dict.mem_ofList, List.map_map, List.mem_map]
  rintro ⟨item, hitem, hname⟩
  have hresult := List.mem_map_of_mem (f := Prod.snd) (List.mem_filter.1 hitem).1
  exact hnames _ (results.listed item.2 hresult) hname

/-- What is prepared to be written is clean. -/
theorem clean_of_prepare {env : Environment} {results : Results}
    {documents : Dict String JsonValue}
    (h : prepare sameLetter env secrets = .ok (results, documents)) :
    Clean sameLetter secrets documents := by
  obtain ⟨-, anonymized, -, rfl, hfound⟩ := prepare_ok h
  have hname := hiddenFile_not_mem_documents env secrets results anonymized
  rwa [findSecrets_eq fun hbad => hname hbad.1, reports_eq_nil_iff] at hfound

variable (sameLetter secrets) in
/-- **What the search is to find**: nothing of clean documents alone, and
otherwise each spot that holds a secret, in order. -/
structure Located (documents : Dict String JsonValue) (found : List (String × String)) :
    Prop where
  empty : found = [] ↔ Clean sameLetter secrets documents
  exact : found = reports sameLetter secrets (spots documents)

/-- **The search finds it all**, unless a document that holds a secret in its
name is named as a hidden one; and a capture that changes the file system is
of clean documents. -/
theorem located_findSecrets_iff (sameLetter : Char → Char → Bool) (secrets : Secrets) :
    (∀ documents, Located sameLetter secrets documents (findSecrets sameLetter secrets documents) ↔
      ¬ (hiddenFile ∈ documents ∧ HoldsSecret sameLetter secrets hiddenFile)) ∧
    (∀ env directory fs, (captureRun sameLetter env secrets directory fs).2.2 = fs ∨
      ∃ results documents, prepare sameLetter env secrets = .ok (results, documents) ∧
        Clean sameLetter secrets documents) := by
  refine ⟨fun documents => ⟨fun hlocated hbad => ?_, fun hgood => ?_⟩, fun env directory fs => ?_⟩
  · exact findSecrets_ne hbad.1 (search_iff.2 hbad.2) hlocated.exact
  · rw [← search_iff] at hgood
    rw [findSecrets_eq hgood]
    exact ⟨reports_eq_nil_iff, rfl⟩
  · cases hprepare : prepare sameLetter env secrets with
    | error e =>
        refine .inl ?_
        rw [captureRun, hprepare]
    | ok prepared => exact .inr ⟨prepared.1, prepared.2, rfl, clean_of_prepare hprepare⟩

/-- **A file named `<file>`** is not reported by a password of its name. -/
theorem not_located_hiddenFile :
    ¬ Located (· == ·) ⟨"file", none, "001122AABBCC"⟩ (Dict.ofList [(hiddenFile, .null)])
      (findSecrets (· == ·) ⟨"file", none, "001122AABBCC"⟩
        (Dict.ofList [(hiddenFile, .null)])) := by
  intro h
  have hname : hiddenFile ∈ Dict.ofList [(hiddenFile, JsonValue.null)] :=
    Dict.mem_ofList.2 List.mem_cons_self
  have hsecret : Secrets.search (· == ·) ⟨"file", none, "001122AABBCC"⟩ hiddenFile = true := by
    decide +kernel
  exact findSecrets_ne hname hsecret h.exact

end Clean

end Capture

end Tydomio
