import Tydomio.Capture.Model.CatalogFile
import Tydomio.Capture.Dumps

/-!
# The catalog file is read back

The shapes of the catalog do not see the order of keys (`Blind`), and read a
dumped catalog as the catalog, its usages in order. So does `read_catalog`
the text that `dump` wrote, and `read_capture` the documents of a capture.
-/

namespace Tydomio

open Common

namespace Capture

/-! ## Readers and the order of keys -/

section Blind

variable {α : Type} {items : List (String × JsonValue)}

/-- A key of an object with its keys sorted. -/
theorem lookup_sortItems (h : (items.map Prod.fst).Nodup) (key : String) :
    (sortItems items).lookup key = items.lookup key := by
  have hperm := perm_sortItems items
  have hnodup : ((sortItems items).map Prod.fst).Nodup := (hperm.map Prod.fst).nodup_iff.2 h
  ext value
  have hleft := @Dict.get?_eq_some_iff _ _ _ ⟨sortItems items, hnodup⟩ key value
  have hright := @Dict.get?_eq_some_iff _ _ _ ⟨items, h⟩ key value
  exact hleft.trans (hperm.mem_iff.trans hright.symm)

theorem lookup_sortedKeysFields (items : List (String × JsonValue)) (key : String) :
    (sortedKeysFields items).lookup key = (items.lookup key).map sortedKeys := by
  induction items with
  | nil => rfl
  | cons item items ih =>
      obtain ⟨name, value⟩ := item
      rw [sortedKeysFields, Dict.lookup_cons_eq, Dict.lookup_cons_eq, ih]
      split <;> rfl

theorem sortedKeysItems_eq (items : List JsonValue) :
    sortedKeysItems items = items.map sortedKeys := by
  induction items with
  | nil => rfl
  | cons item items ih => rw [sortedKeysItems, ih, List.map_cons]

theorem distinctItems_iff {items : List JsonValue} :
    JsonValue.distinctItems items = true ↔ ∀ item ∈ items, item.distinctKeys = true := by
  induction items with
  | nil => simp [JsonValue.distinctItems]
  | cons item items ih =>
      rw [JsonValue.distinctItems, Bool.and_eq_true, ih, List.forall_mem_cons]

/-- **A reader that does not see the order of keys.** -/
def Blind (read : JsonValue → Option α) : Prop :=
  ∀ value, value.distinctKeys = true → read (sortedKeys value) = read value

/-- One that reads no list and no object. -/
theorem blind_of_leaf {read : JsonValue → Option α} (hlist : ∀ items, read (.list items) = none)
    (hdict : ∀ items, read (.dict items) = none) : Blind read := by
  intro value _
  cases value with
  | list items => rw [sortedKeys, hlist, hlist]
  | dict items => rw [sortedKeys, hdict, hdict]
  | _ => rfl

theorem Blind.optional {read : JsonValue → Option α} (h : Blind read) :
    Blind (readOptional read) := by
  intro value hvalue
  have hread := h value hvalue
  cases value with
  | list items => exact congrArg (Option.map some) hread
  | dict items => exact congrArg (Option.map some) hread
  | _ => rfl

theorem Blind.list {read : JsonValue → Option α} (h : Blind read) : Blind (readList read) := by
  intro value hvalue
  cases value with
  | list items =>
      rw [JsonValue.distinctKeys, distinctItems_iff] at hvalue
      rw [sortedKeys, readList, readList, sortedKeysItems_eq]
      induction items with
      | nil => rfl
      | cons item items ih =>
          rw [List.map_cons, List.mapM_cons, List.mapM_cons,
            h item (hvalue item List.mem_cons_self),
            ih fun item hitem => hvalue item (List.mem_cons_of_mem _ hitem)]
  | _ => rfl

/-- The items of an object as of a value of the language. -/
def Distinct (items : List (String × JsonValue)) : Prop :=
  (items.map Prod.fst).Nodup ∧ JsonValue.distinctFields items = true

theorem distinct_iff : (JsonValue.dict items).distinctKeys = true ↔ Distinct items := by
  rw [JsonValue.distinctKeys, Bool.and_eq_true, decide_eq_true_eq, Distinct]

/-- A field of an object, its keys sorted. -/
theorem Blind.field {read : JsonValue → Option α} (h : Blind read) (default : Option α)
    (key : String) (hitems : Distinct items) :
    readField read default key (sortItems (sortedKeysFields items)) =
      readField read default key items := by
  have hnodup : ((sortedKeysFields items).map Prod.fst).Nodup := by
    rw [map_fst_sortedKeysFields]
    exact hitems.1
  rw [readField, readField, lookup_sortItems hnodup, lookup_sortedKeysFields]
  cases hlookup : items.lookup key with
  | none => rfl
  | some value =>
      have hmem : (key, value) ∈ items :=
        (@Dict.get?_eq_some_iff _ _ _ ⟨items, hitems.1⟩ key value).1 hlookup
      exact h value (distinctFields_iff.1 hitems.2 _ hmem)

/-- A model whose fields do not see it either. -/
theorem blind_model {read : List (String × JsonValue) → Option α}
    (h : ∀ items, Distinct items → read (sortItems (sortedKeysFields items)) = read items) :
    Blind (readModel read) := by
  intro value hvalue
  cases value with
  | dict items => exact h items (distinct_iff.1 hvalue)
  | _ => rfl

end Blind

section Shapes

variable (lax : LaxNumbers)

theorem blind_readStr : Blind readStr := blind_of_leaf (fun _ => rfl) fun _ => rfl

theorem blind_readInt : Blind (readInt lax) := blind_of_leaf (fun _ => rfl) fun _ => rfl

theorem blind_readNumber : Blind (readNumber lax) := blind_of_leaf (fun _ => rfl) fun _ => rfl

/-- The order of the keys of a descriptor is not read. -/
theorem blind_readDescriptor : Blind (readDescriptor lax) := by
  refine blind_model fun items hitems => ?_
  simp only [descriptorFieldsOf, blind_readStr.field _ _ hitems,
    blind_readStr.optional.field _ _ hitems, (blind_readNumber lax).optional.field _ _ hitems,
    (blind_readInt lax).optional.field _ _ hitems, blind_readStr.list.optional.field _ _ hitems]

theorem blind_readCommand : Blind (readCommand lax) := by
  refine blind_model fun items hitems => ?_
  simp only [blind_readStr.field _ _ hitems, (blind_readDescriptor lax).list.field _ _ hitems]

theorem blind_readUsage : Blind (readUsage lax) := by
  refine blind_model fun items hitems => ?_
  have hall : (sortItems (sortedKeysFields items)).all
        (fun item => item.1 = "fields" || item.1 = "commands") =
      items.all fun item => item.1 = "fields" || item.1 = "commands" := by
    have hkeys : ∀ items : List (String × JsonValue),
        items.all (fun item => item.1 = "fields" || item.1 = "commands") =
          (items.map Prod.fst).all fun key => key = "fields" || key = "commands" := by
      intro items
      rw [List.all_map]
      rfl
    rw [hkeys, hkeys, ((perm_sortItems _).map Prod.fst).all_eq, map_fst_sortedKeysFields]
  simp only [(blind_readDescriptor lax).list.field _ _ hitems,
    (blind_readCommand lax).list.field _ _ hitems, hall]

end Shapes

/-! ## What is dumped -/

section Dumped

variable {α : Type} {lax : LaxNumbers}

theorem lookup_optionalField (key : String) (value : Option JsonValue)
    (items : List (String × JsonValue)) (key' : String) :
    (optionalField key value ++ items).lookup key' =
      if key' = key then value.or (items.lookup key') else items.lookup key' := by
  cases value with
  | none => simp [optionalField]
  | some value =>
      rw [optionalField, List.singleton_append, Dict.lookup_cons_eq]
      simp only [Option.some_or, eq_comm]

theorem lookup_optionalField_self (key : String) (value : Option JsonValue) (key' : String) :
    (optionalField key value).lookup key' = if key' = key then value else none := by
  have happend := lookup_optionalField key value [] key'
  rw [List.append_nil, List.lookup_nil, Option.or_none] at happend
  exact happend

/-- A field that is there. -/
theorem readField_some {read : JsonValue → Option α} {default : Option α} {key : String}
    {items : List (String × JsonValue)} {value : JsonValue} {a : α}
    (hlookup : items.lookup key = some value) (hread : read value = some a) :
    readField read default key items = some a := by
  rw [readField, hlookup]
  exact hread

/-- A field that is left out where it is `None`. -/
theorem readField_optional {read : JsonValue → Option α} {key : String}
    {items : List (String × JsonValue)} {json : α → JsonValue} {value : Option α}
    (hlookup : items.lookup key = value.map json)
    (hread : ∀ a ∈ value, read (json a) = some a) (hnull : ∀ a, json a ≠ .null) :
    readField (readOptional read) (some none) key items = some value := by
  rw [readField, hlookup]
  cases value with
  | none => rfl
  | some a =>
      show readOptional read (json a) = _
      rw [readOptional.eq_def]
      split
      · exact absurd ‹_› (hnull a)
      · rw [hread a rfl, Option.map_some]

theorem readList_map {read : JsonValue → Option α} {json : α → JsonValue} {values : List α}
    (h : ∀ a ∈ values, read (json a) = some a) :
    readList read (.list (values.map json)) = some values := by
  rw [readList]
  induction values with
  | nil => rfl
  | cons a values ih =>
      rw [List.map_cons, List.mapM_cons, h a List.mem_cons_self,
        ih fun a ha => h a (List.mem_cons_of_mem _ ha)]
      rfl

/-- A number of a descriptor is read back. -/
theorem readNumber_json (n : Number) : readNumber lax n.json = some n := by
  cases n <;> rfl

theorem Number.json_ne_null (n : Number) : n.json ≠ .null := by
  cases n <;> exact JsonValue.noConfusion

/-- A field of a descriptor that may be left out. -/
theorem lookup_jsonFields (d : Descriptor) :
    d.jsonFields.lookup "permission" = d.permission.map .str ∧
    d.jsonFields.lookup "validity" = d.validity.map .str ∧
    d.jsonFields.lookup "unit" = d.unit.map .str ∧
    d.jsonFields.lookup "min" = d.min.map Number.json ∧
    d.jsonFields.lookup "max" = d.max.map Number.json ∧
    d.jsonFields.lookup "step" = d.step.map Number.json ∧
    d.jsonFields.lookup "size" = d.size.map .int ∧
    d.jsonFields.lookup "enum_values" =
      d.enumValues.map fun values => .list (values.map .str) := by
  simp [Descriptor.jsonFields, Dict.lookup_cons_eq, lookup_optionalField,
    lookup_optionalField_self]

/-- **A descriptor dumped is read back.** -/
theorem readDescriptor_json (d : Descriptor) : readDescriptor lax d.json = some d := by
  obtain ⟨hpermission, hvalidity, hunit, hmin, hmax, hstep, hsize, henum⟩ := lookup_jsonFields d
  have hstr : ∀ {key value}, d.jsonFields.lookup key = value.map JsonValue.str →
      readField (readOptional readStr) (some none) key d.jsonFields = some value :=
    fun hlookup => readField_optional hlookup (fun _ _ => rfl) fun _ => JsonValue.noConfusion
  have hnumber : ∀ {key value}, d.jsonFields.lookup key = value.map Number.json →
      readField (readOptional (readNumber lax)) (some none) key d.jsonFields = some value :=
    fun hlookup => readField_optional hlookup (fun n _ => readNumber_json n) Number.json_ne_null
  have hname : readField readStr none "name" d.jsonFields = some d.name := rfl
  have htype : readField readStr none "type" d.jsonFields = some d.type := rfl
  have hsize' : readField (readOptional (readInt lax)) (some none) "size" d.jsonFields =
      some d.size :=
    readField_optional hsize (fun _ _ => rfl) fun _ => JsonValue.noConfusion
  have henum' : readField (readOptional (readList readStr)) (some none) "enum_values"
      d.jsonFields = some d.enumValues :=
    readField_optional henum (fun _ _ => readList_map fun _ _ => rfl)
      fun _ => JsonValue.noConfusion
  show descriptorFieldsOf lax d.jsonFields = some d
  simp only [descriptorFieldsOf, hname, htype, hstr hpermission, hstr hvalidity, hstr hunit,
    hnumber hmin, hnumber hmax, hnumber hstep, hsize', henum']
  rfl

/-- A command is read back. -/
theorem readCommand_json (c : Command) : readCommand lax c.json = some c := by
  have hparameters : readField (readList (readDescriptor lax)) (some []) "parameters"
      [("name", .str c.name), ("permission", .str c.permission),
        ("parameters", .list (c.parameters.map Descriptor.json))] = some c.parameters :=
    readField_some rfl (readList_map fun d _ => readDescriptor_json d)
  rw [Command.json, readCommand, readModel]
  simp only [hparameters]
  rfl

/-- And a usage. -/
theorem readUsage_json (u : Usage) : readUsage lax u.json = some u := by
  have hfields : readField (readList (readDescriptor lax)) (some []) "fields"
      [("fields", .list (u.fields.map Descriptor.json)),
        ("commands", .list (u.commands.map Command.json))] = some u.fields :=
    readField_some rfl (readList_map fun d _ => readDescriptor_json d)
  have hcommands : readField (readList (readCommand lax)) (some []) "commands"
      [("fields", .list (u.fields.map Descriptor.json)),
        ("commands", .list (u.commands.map Command.json))] = some u.commands :=
    readField_some rfl (readList_map fun c _ => readCommand_json c)
  rw [Usage.json, readUsage, readModel]
  simp only [hfields, hcommands]
  rfl

theorem entries_inOrder_eq (catalog : Catalog) :
    catalog.inOrder.entries = sortItems catalog.entries := by
  have hnodup := ((perm_sortItems catalog.entries).map Prod.fst).nodup_iff.2 catalog.nodup
  rw [← Dict.ofList_mergeSort]
  exact Dict.entries_ofList hnodup

/-- A catalog is dumped in order. -/
theorem sortedKeys_catalogJson (catalog : Catalog) : sortedKeys (catalogJson catalog) =
    .dict (catalog.inOrder.entries.map fun e => (e.1, sortedKeys e.2.json)) := by
  have hfields : ∀ entries : List (String × Usage),
      sortedKeysFields (entries.map fun e => (e.1, e.2.json)) =
        entries.map fun e => (e.1, sortedKeys e.2.json) := by
    intro entries
    induction entries with
    | nil => rfl
    | cons e entries ih => rw [List.map_cons, sortedKeysFields, ih, List.map_cons]
  have hsort : sortItems (catalog.entries.map fun e => (e.1, sortedKeys e.2.json)) =
      (sortItems catalog.entries).map fun e => (e.1, sortedKeys e.2.json) :=
    (List.map_mergeSort (f := fun e : String × Usage => (e.1, sortedKeys e.2.json))
      fun _ _ _ _ => rfl).symm
  rw [catalogJson, sortedKeys, hfields, hsort, entries_inOrder_eq]

/-- **A catalog dumped is read back**, its usages in order. -/
theorem catalogOf_json (lax : LaxNumbers) (catalog : Catalog)
    (h : ∀ e ∈ catalog.entries, e.2.json.distinctKeys = true) :
    catalogOf lax (sortedKeys (catalogJson catalog)) = some catalog.inOrder := by
  have hread : ∀ entries : List (String × Usage), (∀ e ∈ entries, e.2.json.distinctKeys = true) →
      ((entries.map fun e => (e.1, sortedKeys e.2.json)).mapM fun item =>
        (readUsage lax item.2).map fun usage => (item.1, usage)) = some entries := by
    intro entries hentries
    induction entries with
    | nil => rfl
    | cons e entries ih =>
        rw [List.map_cons, List.mapM_cons,
          blind_readUsage lax _ (hentries e List.mem_cons_self), readUsage_json,
          ih fun e he => hentries e (List.mem_cons_of_mem _ he)]
        rfl
  have hsorted : ∀ e ∈ catalog.inOrder.entries, e.2.json.distinctKeys = true := by
    intro e he
    rw [entries_inOrder_eq] at he
    exact h e ((perm_sortItems _).mem_iff.1 he)
  rw [sortedKeys_catalogJson, catalogOf, readModel, hread _ hsorted, Option.map_some]
  exact congrArg some (Dict.ext (Dict.entries_ofList catalog.inOrder.nodup))

end Dumped

/-! ## Catalogs that have a text -/

section Writable

variable {text : FloatText}

/-- The numbers of a descriptor have texts. -/
structure Descriptor.Writable (text : FloatText) (d : Descriptor) : Prop where
  min : ∀ n ∈ d.min, text.Writes n.json
  max : ∀ n ∈ d.max, text.Writes n.json
  step : ∀ n ∈ d.step, text.Writes n.json
  size : ∀ n ∈ d.size, text.Writes (.int n)

/-- Those of a usage. -/
structure Usage.Writable (text : FloatText) (u : Usage) : Prop where
  fields : ∀ f ∈ u.fields, f.Writable text
  commands : ∀ c ∈ u.commands, ∀ f ∈ c.parameters, f.Writable text

theorem forall_mem_optionalField {key : String} {value : Option JsonValue}
    {P : String × JsonValue → Prop} :
    (∀ item ∈ optionalField key value, P item) ↔ ∀ v ∈ value, P (key, v) := by
  cases value with
  | none => simp [optionalField]
  | some v => simp [optionalField]

theorem map_fst_optionalField (key : String) (value : Option JsonValue) :
    ((optionalField key value).map Prod.fst).Sublist [key] := by
  cases value with
  | none => exact List.nil_sublist _
  | some v => exact List.Sublist.refl _

theorem dumpable_str {n : ℕ} (s : String) : Dumpable text n (.str s) := dumpable_leaf rfl trivial

theorem Number.isLeaf_json (n : Number) : n.json.isLeaf = true := by
  cases n <;> rfl

theorem nodup_jsonFields (d : Descriptor) : (d.jsonFields.map Prod.fst).Nodup := by
  have hsub : (d.jsonFields.map Prod.fst).Sublist ("name" :: "type" :: (["permission"] ++
      (["validity"] ++ (["unit"] ++ (["min"] ++ (["max"] ++ (["step"] ++ (["size"] ++
      ["enum_values"])))))))) := by
    simp only [Descriptor.jsonFields, List.map_cons, List.map_append]
    refine .cons_cons _ (.cons_cons _ ?_)
    repeat' first | exact map_fst_optionalField _ _ | refine List.Sublist.append ?_ ?_
  exact hsub.nodup (by decide)

/-- A descriptor has a text where its numbers have. -/
theorem Descriptor.Writable.dumpable {d : Descriptor} (h : d.Writable text) :
    Dumpable text 2 d.json := by
  refine .dict (nodup_jsonFields d) ?_
  have hstr : ∀ value : Option String, ∀ v ∈ value.map JsonValue.str, Dumpable text 1 v := by
    intro value v hv
    obtain ⟨s, -, rfl⟩ := Option.map_eq_some_iff.1 hv
    exact dumpable_str s
  have hnumber : ∀ value : Option Number, (∀ n ∈ value, text.Writes n.json) →
      ∀ v ∈ value.map Number.json, Dumpable text 1 v := by
    intro value hvalue v hv
    obtain ⟨n, hn, rfl⟩ := Option.map_eq_some_iff.1 hv
    exact dumpable_leaf n.isLeaf_json (hvalue n hn)
  simp only [Descriptor.jsonFields, List.forall_mem_cons, List.forall_mem_append,
    forall_mem_optionalField]
  refine ⟨dumpable_str _, dumpable_str _, hstr _, hstr _, hstr _, hnumber _ h.min,
    hnumber _ h.max, hnumber _ h.step, fun v hv => ?_, fun v hv => ?_⟩
  · obtain ⟨n, hn, rfl⟩ := Option.map_eq_some_iff.1 hv
    exact dumpable_leaf rfl (h.size n hn)
  · obtain ⟨values, -, rfl⟩ := Option.map_eq_some_iff.1 hv
    refine .list fun item hitem => ?_
    obtain ⟨s, -, rfl⟩ := List.mem_map.1 hitem
    exact dumpable_str s

theorem dumpable_descriptors {ds : List Descriptor} (h : ∀ d ∈ ds, d.Writable text) :
    Dumpable text 3 (.list (ds.map Descriptor.json)) := by
  refine .list fun item hitem => ?_
  obtain ⟨d, hd, rfl⟩ := List.mem_map.1 hitem
  exact (h d hd).dumpable

/-- So has a usage. -/
theorem Usage.Writable.dumpable {u : Usage} (h : u.Writable text) : Dumpable text 6 u.json := by
  refine .dict (by simp) (List.forall_mem_cons.2 ⟨(dumpable_descriptors h.fields).mono (by omega),
    List.forall_mem_singleton.2 (.list fun item hitem => ?_)⟩)
  obtain ⟨c, hc, rfl⟩ := List.mem_map.1 hitem
  exact .dict (by simp) (List.forall_mem_cons.2 ⟨dumpable_str _, List.forall_mem_cons.2
    ⟨dumpable_str _, List.forall_mem_singleton.2 (dumpable_descriptors (h.commands c hc))⟩⟩)

/-- And a catalog. -/
theorem dumpable_catalogJson {catalog : Catalog} (h : ∀ e ∈ catalog.entries, e.2.Writable text) :
    Dumpable text 7 (catalogJson catalog) := by
  refine .dict ?_ fun item hitem => ?_
  · rw [List.map_map]
    exact catalog.nodup
  · obtain ⟨e, he, rfl⟩ := List.mem_map.1 hitem
    exact (h e he).dumpable

end Writable

/-! ## The file -/

/-- How deep a catalog nests. -/
def catalogDepth : ℕ := 7

/-- **What `dump` writes is read back**, the usages in order. -/
theorem readCatalog_dump {text : FloatText} {limit : ℕ} (hlimit : catalogDepth ≤ limit)
    (unread : String → Reading) (lax : LaxNumbers) (path : String) {catalog : Catalog}
    (h : ∀ e ∈ catalog.entries, e.2.Writable text) :
    ∃ dumped, dump text catalog = some dumped ∧
      readCatalog (scanner text limit unread).strict lax path (.content (encodeUtf8 dumped)) =
        .ok catalog.inOrder := by
  have hdumpable := dumpable_catalogJson h
  obtain ⟨source, hsource, hparse⟩ := parseJson_dumps catalogOptions unread
    (hdumpable.mono hlimit) (show ∀ c ∈ "\n".toList, Json.isBlank c = true by simp [Json.isBlank])
  have hdepth : (catalogJson catalog).depth ≤ maxDepth :=
    hdumpable.depth.trans (show 7 ≤ 64 by omega)
  rw [if_pos hdepth] at hparse
  refine ⟨source ++ "\n", by rw [dump, hsource, Option.map_some], ?_⟩
  have hread := catalogOf_json lax catalog fun e he => (h e he).dumpable.keys
  rw [readCatalog, if_neg (by exact CatalogFile.noConfusion)]
  have hvalue : parsedFile (scanner text limit unread).strict
      (CatalogFile.content (encodeUtf8 (source ++ "\n"))).bytes =
        .ok (sortedKeys (catalogJson catalog)) := hparse
  simp only [hvalue, hread]

section Written

variable {text : FloatText} {tree : Json.Tree}

/-- **What is written has texts**, where its doubles have: an integer with
too many digits, or a double that is not finite, is not written. -/
theorem writes_of_writtenTree (value : JsonValue) :
    ∀ tree, writtenTree text false value = some tree →
      (∀ q, .float (.finite q) ∈ value.scalars → text.Writes (.float (.finite q))) →
      ∀ leaf ∈ value.scalars, text.Writes leaf := by
  refine @JsonValue.induction
    (fun value => ∀ tree, writtenTree text false value = some tree →
      (∀ q, .float (.finite q) ∈ value.scalars → text.Writes (.float (.finite q))) →
      ∀ leaf ∈ value.scalars, text.Writes leaf)
    (fun items => ∀ trees, writtenItems text false items = some trees →
      (∀ q, .float (.finite q) ∈ JsonValue.scalarsItems items →
        text.Writes (.float (.finite q))) →
      ∀ leaf ∈ JsonValue.scalarsItems items, text.Writes leaf)
    (fun items => ∀ trees, writtenFields text false items = some trees →
      (∀ q, .float (.finite q) ∈ JsonValue.scalarsFields items →
        text.Writes (.float (.finite q))) →
      ∀ leaf ∈ JsonValue.scalarsFields items, text.Writes leaf)
    ?leaf ?list ?dict ?nil ?cons ?noField ?field value
  case leaf =>
    intro value hleaf tree htree hdoubles leaf hmem
    cases value with
    | list items => cases hleaf
    | dict items => cases hleaf
    | int n =>
        obtain rfl := List.mem_singleton.1 hmem
        obtain ⟨numeral, hnumeral, -⟩ := Option.map_eq_some_iff.1 htree
        rw [intNumeral] at hnumeral
        split at hnumeral
        · cases hnumeral
        · rename_i hdigits
          exact not_lt.1 hdigits
    | float x =>
        obtain rfl := List.mem_singleton.1 hmem
        obtain ⟨numeral, hnumeral, -⟩ := Option.map_eq_some_iff.1 htree
        cases x with
        | finite q => exact hdoubles q (List.mem_singleton_self _)
        | infinity negative => cases hnumeral
        | nan => cases hnumeral
    | _ =>
        obtain rfl := List.mem_singleton.1 hmem
        trivial
  case list =>
    intro items ih tree htree hdoubles
    obtain ⟨trees, htrees, -⟩ := Option.map_eq_some_iff.1 htree
    exact ih trees htrees hdoubles
  case dict =>
    intro items ih tree htree hdoubles
    obtain ⟨trees, htrees, -⟩ := Option.map_eq_some_iff.1 htree
    exact ih trees htrees hdoubles
  case nil => exact fun _ _ _ leaf hmem => absurd hmem List.not_mem_nil
  case cons =>
    intro item items hitem hitems trees htrees hdoubles leaf hmem
    obtain ⟨tree, htree, hrest⟩ := Option.bind_eq_some_iff.1 htrees
    obtain ⟨more, hmore, -⟩ := Option.bind_eq_some_iff.1 hrest
    rcases List.mem_append.1 hmem with hmem | hmem
    · exact hitem tree htree (fun q hq => hdoubles q (List.mem_append_left _ hq)) leaf hmem
    · exact hitems more hmore (fun q hq => hdoubles q (List.mem_append_right _ hq)) leaf hmem
  case noField => exact fun _ _ _ leaf hmem => absurd hmem List.not_mem_nil
  case field =>
    intro key value items hvalue hitems trees htrees hdoubles leaf hmem
    obtain ⟨tree, htree, hrest⟩ := Option.bind_eq_some_iff.1 htrees
    obtain ⟨more, hmore, -⟩ := Option.bind_eq_some_iff.1 hrest
    rcases List.mem_append.1 hmem with hmem | hmem
    · exact hvalue tree htree (fun q hq => hdoubles q (List.mem_append_left _ hq)) leaf hmem
    · exact hitems more hmore (fun q hq => hdoubles q (List.mem_append_right _ hq)) leaf hmem

/-- How a document is refused. -/
def refusedDocument (name : String) : Except CatalogError JsonValue :=
  .error (.invalidInput ⟨name ++ ": missing or not JSON"⟩)

/-- **A document that was written is read back**, unless it nests too deep. -/
theorem readDocument_written {limit : ℕ} (unread : String → Reading)
    {files : String → Option Bytes} {name : String} {document : JsonValue}
    {dumped : String} (hdumped : dumps text storeOptions document = some dumped)
    (hfile : files name = some (encodeUtf8 (fileText dumped)))
    (hkeys : document.distinctKeys = true) (hdepth : document.depth ≤ limit)
    (hdoubles : ∀ q, .float (.finite q) ∈ document.scalars → text.Writes (.float (.finite q))) :
    readDocument (scanner text limit unread).strict files name =
      if document.depth ≤ maxDepth then .ok document else refusedDocument name := by
  obtain ⟨tree, htree, -⟩ := Option.map_eq_some_iff.1 hdumped
  have hdumpable : Dumpable text limit document :=
    ⟨hkeys, writes_of_writtenTree document tree htree hdoubles, hdepth⟩
  obtain ⟨source, hsource, hparse⟩ := parseJson_dumps storeOptions unread hdumpable
    (show ∀ c ∈ "\n".toList, Json.isBlank c = true by simp [Json.isBlank])
  obtain rfl := Option.some.inj (hdumped.symm.trans hsource)
  rw [readDocument, hfile, parsedFile, fileText, hparse]
  by_cases hdeep : document.depth ≤ maxDepth
  · rw [if_pos hdeep, if_pos hdeep]
    rfl
  · rw [if_neg hdeep, if_neg hdeep]
    rfl

end Written

/-! ## A capture -/

section ReadCapture

variable {parser : StrictParser} {files : String → Option Bytes}

/-- **A capture is read** where each of its documents is. -/
theorem readCapture_ok {document : String → JsonValue}
    (h : ∀ name ∈ captureFiles, readDocument parser files name = .ok (document name)) :
    readCapture parser files =
      .ok (.ofList (captureFiles.map fun name => (name, document name))) := by
  have hall : ∀ names : List String, (∀ name ∈ names, name ∈ captureFiles) →
      names.mapM (fun name => (readDocument parser files name).map fun value => (name, value)) =
        .ok (names.map fun name => (name, document name)) := by
    intro names hnames
    induction names with
    | nil => rfl
    | cons name names ih =>
        obtain ⟨hname, hrest⟩ := List.forall_mem_cons.1 hnames
        rw [List.mapM_cons, h name hname, ih hrest]
        rfl
  rw [readCapture, hall captureFiles fun _ hname => hname]
  rfl

/-- The catalog sees five documents only. -/
theorem describedOf_congr (lax : LaxNumbers) {documents documents' : Dict String JsonValue}
    (h : ∀ name ∈ captureFiles, documents.get? name = documents'.get? name) :
    describedOf lax documents = describedOf lax documents' := by
  have hvalidated : ∀ {α : Type} (read : JsonValue → Option α), ∀ name ∈ captureFiles,
      validated read documents name = validated read documents' name := by
    intro α read name hname
    rw [validated, validated, h name hname]
  rw [describedOf, describedOf, hvalidated _ _ (by decide), hvalidated _ _ (by decide),
    hvalidated _ _ (by decide), hvalidated _ _ (by decide), hvalidated _ _ (by decide)]

end ReadCapture

end Capture

end Tydomio
