import Tydomio.Capture.Alike

/-!
# Descriptors looked up alike

A data value takes its descriptor from another body, under the ids of the
objects around it and the name of its item. Where ids are renamed alike in
both bodies the same descriptor is found, since two ids have one text after
the renaming exactly when they have one before (`biUnique_textAlike`), and of
a descriptor only kept values are read.
-/

namespace Tydomio

open Common

namespace Capture

/-! ## Texts of ids -/

section Texts

variable (ids : ℤ → ℤ)

/-- **Two texts of ids that correspond**: of renamed integers, or the same. -/
def TextAlike (text text' : String) : Prop :=
  (∃ n : ℤ, text = toString n ∧ text' = toString (ids n)) ∨
    (∀ n : ℤ, text ≠ toString n) ∧ text' = text

/-- **Two descriptor keys that correspond**: texts of ids, then one name. -/
inductive KeyAlike : List String → List String → Prop
  | name (name : String) : KeyAlike [name] [name]
  | level {text text' : String} {key key' : List String} : TextAlike ids text text' →
      KeyAlike key key' → KeyAlike (text :: key) (text' :: key')

variable {ids} (hids : Function.Injective ids)

include hids

theorem biUnique_textAlike : Relator.BiUnique (TextAlike ids) := by
  refine ⟨?_, ?_⟩
  · rintro text other text' (⟨n, rfl, rfl⟩ | ⟨hno, rfl⟩) (⟨m, rfl, hm⟩ | ⟨hno', hm⟩)
    · rw [hids (Text.intText_injective hm)]
    · exact absurd hm.symm (hno' (ids n))
    · exact absurd hm (hno (ids m))
    · exact hm
  · rintro text text' other (⟨n, rfl, rfl⟩ | ⟨hno, rfl⟩) (⟨m, hm, rfl⟩ | ⟨hno', rfl⟩)
    · rw [Text.intText_injective hm]
    · exact absurd rfl (hno' n)
    · exact absurd hm (hno m)
    · rfl

theorem biUnique_keyAlike : Relator.BiUnique (KeyAlike ids) := by
  obtain ⟨hleft, hright⟩ := biUnique_textAlike hids
  refine ⟨?_, ?_⟩
  · intro key other key' h
    induction h generalizing other with
    | name name =>
        intro h'
        cases h' with
        | name => rfl
        | level _ hrest => cases hrest
    | level htext hkey ih =>
        intro h'
        cases h' with
        | name => cases hkey
        | level htext' hkey' => rw [hleft htext htext', ih hkey']
  · intro key key' other h
    induction h generalizing other with
    | name name =>
        intro h'
        cases h' with
        | name => rfl
        | level _ hrest => cases hrest
    | level htext hkey ih =>
        intro h'
        cases h' with
        | name => cases hkey
        | level htext' hkey' => rw [hright htext htext', ih hkey']

omit hids

theorem keyAlike_concat {levels levels' : List String}
    (h : List.Forall₂ (TextAlike ids) levels levels') (name : String) :
    KeyAlike ids (levels ++ [name]) (levels' ++ [name]) := by
  induction h with
  | nil => exact .name name
  | cons htext _ ih => exact .level htext ih

/-- Two ids that correspond have texts that do. -/
theorem IdAlike.str {value value' : JsonValue} (h : IdAlike ids value value')
    (hleaf : value.isLeaf = true) (texts : Texts) :
    TextAlike ids (texts.str value) (texts.str value') := by
  cases h with
  | int n => exact .inl ⟨n, rfl, rfl⟩
  | text n => exact .inl ⟨n, rfl, rfl⟩
  | other hvalue =>
      refine .inr ⟨fun n htext => ?_, rfl⟩
      cases value with
      | null => exact Text.ne_intText (by decide : 'N' ∈ "None".toList) rfl (by decide) n htext
      | bool b =>
          cases b with
          | true => exact Text.ne_intText (by decide : 'T' ∈ "True".toList) rfl (by decide) n htext
          | false =>
              exact Text.ne_intText (by decide : 'F' ∈ "False".toList) rfl (by decide) n htext
      | int m => exact (hvalue m).1 rfl
      | float x => exact texts.float_ne_int x n htext
      | str text =>
          have hstr : text = toString n := htext
          exact (hvalue n).2 (by rw [hstr])
      | list items => cases hleaf
      | dict items => cases hleaf

/-- So have missing ids. -/
theorem textAlike_null (texts : Texts) : TextAlike ids (texts.str .null) (texts.str .null) :=
  .inr ⟨fun n => Text.ne_intText (by decide : 'N' ∈ "None".toList) rfl (by decide) n, rfl⟩

/-- The texts that are numbered correspond. -/
theorem IdAlike.idText {value value' : JsonValue} (h : IdAlike ids value value') :
    Option.Rel (TextAlike ids) (idText value) (idText value') := by
  have hdigits : ∀ n : ℤ, toString n ≠ "" := Text.intText_ne_empty
  cases h with
  | int n => exact .some (.inl ⟨n, rfl, rfl⟩)
  | text n =>
      rw [Capture.idText, Capture.idText, if_neg (hdigits n), if_neg (hdigits (ids n))]
      exact .some (.inl ⟨n, rfl, rfl⟩)
  | other hvalue =>
      cases value with
      | int m => exact absurd rfl (hvalue m).1
      | str text =>
          rw [Capture.idText]
          split
          · exact .none
          · exact .some (.inr ⟨fun n htext => (hvalue n).2 (by rw [htext]), rfl⟩)
      | _ => exact .none

end Texts

/-! ## Fields under a rule -/

section Fields

/-- A rule of an action completes at a path. -/
def Acts (policy : EndpointPolicy) (path : List Step) (action : Action) : Prop :=
  ∃ rule, (Position.along policy path).completeRule = some rule ∧ rule.action = action

variable {ids : ℤ → ℤ} {names : String → String → String} {policy : EndpointPolicy}
  {path : List Step} {value value' : JsonValue}

theorem LeafAlike.eq_of_keep (hact : Acts policy path .keep)
    (h : LeafAlike ids names (Position.along policy path).completeRule value value') :
    value = value' := by
  obtain ⟨rule, hrule, haction⟩ := hact
  simpa only [LeafAlike, hrule, haction] using h

theorem LeafAlike.idAlike (hact : Acts policy path .id)
    (h : LeafAlike ids names (Position.along policy path).completeRule value value') :
    IdAlike ids value value' := by
  obtain ⟨rule, hrule, haction⟩ := hact
  simpa only [LeafAlike, hrule, haction] using h

/-- **A kept value**: the same, or no leaf. -/
theorem eq_or_not_isLeaf (hact : Acts policy path .keep)
    (h : Alike ids names policy path value value') :
    value = value' ∨ value.isLeaf = false ∧ value'.isLeaf = false := by
  cases h with
  | leaf _ _ hrule => exact .inl (hrule.eq_of_keep hact)
  | list _ => exact .inr ⟨rfl, rfl⟩
  | dict _ => exact .inr ⟨rfl, rfl⟩

variable {items items' : List (String × JsonValue)}

theorem field_eq_or_not_isLeaf (h : ObjectsAlike ids names policy path items items') {key : String}
    (hact : Acts policy (path ++ [.key key]) .keep) :
    field items key = field items' key ∨
      (field items key).isLeaf = false ∧ (field items' key).isLeaf = false := by
  rcases h.fields.field key with ⟨hnull, hnull'⟩ | halike
  · exact .inl (hnull.trans hnull'.symm)
  · exact eq_or_not_isLeaf hact halike

/-- The value under a key is a scalar. -/
theorem isLeaf_field {key : String} (h : JsonValue.scalarUnderFields key items = true) :
    (field items key).isLeaf = true := by
  induction items with
  | nil => rfl
  | cons item items ih =>
      obtain ⟨name, value⟩ := item
      rw [JsonValue.scalarUnderFields, Bool.and_eq_true, Bool.and_eq_true] at h
      rw [field, Dict.lookup_cons_eq]
      by_cases hkey : key = name
      · simpa [hkey] using h.1.1
      · rw [if_neg hkey]
        exact ih h.2

/-- **The texts of two ids** at an ID rule. -/
theorem textAlike_field (h : ObjectsAlike ids names policy path items items')
    (hact : Acts policy (path ++ [.key "id"]) .id) (texts : Texts) :
    TextAlike ids (texts.str (field items "id")) (texts.str (field items' "id")) := by
  have hleaf := isLeaf_field h.scalar
  rcases h.fields.field "id" with ⟨hnull, hnull'⟩ | halike
  · rw [hnull, hnull']
    exact textAlike_null texts
  · revert hleaf halike
    generalize field items "id" = value, field items' "id" = value'
    intro hleaf halike
    cases halike with
    | leaf _ _ hrule => exact (hrule.idAlike hact).str hleaf texts
    | list _ => cases hleaf
    | dict _ => cases hleaf

/-! ## What is read of a descriptor -/

/-- **Two descriptors used alike**, for any number and any text. -/
structure SameUse (items items' : List (String × JsonValue)) : Prop where
  number : ∀ value, numberOf value (field items "min") = numberOf value (field items' "min")
  enum : ∀ text, enumOf text (field items "enum_values") = enumOf text (field items' "enum_values")

theorem SameUse.refl (items : List (String × JsonValue)) : SameUse items items :=
  ⟨fun _ => rfl, fun _ => rfl⟩

/-- The rules of a descriptor that are read. -/
structure DescriptorKept (policy : EndpointPolicy) (path : List Step) : Prop where
  name : Acts policy (path ++ [.key "name"]) .keep
  min : Acts policy (path ++ [.key "min"]) .keep
  enum : Acts policy (path ++ [.key "enum_values"] ++ [.item]) .keep

theorem numberOf_of_not_isLeaf {minimum : JsonValue} (h : minimum.isLeaf = false)
    (value : JsonValue) : numberOf value minimum = .ok (placeholder value) := by
  cases minimum with
  | list items => cases value <;> rfl
  | dict items => cases value <;> rfl
  | _ => cases h

theorem any_isText_of_alike (hact : Acts policy (path ++ [.item]) .keep)
    {values values' : List JsonValue}
    (h : AlikeItems ids names policy path values values') (text : String) :
    values.any (isText text) = values'.any (isText text) := by
  have hnone : ∀ {value : JsonValue}, value.isLeaf = false → isText text value = false := by
    intro value hvalue
    cases value with
    | str _ => cases hvalue
    | _ => rfl
  induction values generalizing values' with
  | nil =>
      cases h
      rfl
  | cons value values ih =>
      cases h with
      | cons hvalue hvalues =>
          rw [List.any_cons, List.any_cons, ih hvalues]
          rcases eq_or_not_isLeaf hact hvalue with rfl | ⟨hleaf, hleaf'⟩
          · rfl
          · rw [hnone hleaf, hnone hleaf']

/-- **Alike descriptors are used alike.** -/
theorem ObjectsAlike.sameUse (h : ObjectsAlike ids names policy path items items')
    (hkept : DescriptorKept policy path) : SameUse items items' where
  number value := by
    rcases field_eq_or_not_isLeaf h hkept.min with heq | ⟨hleaf, hleaf'⟩
    · rw [heq]
    · rw [numberOf_of_not_isLeaf hleaf, numberOf_of_not_isLeaf hleaf']
  enum text := by
    rcases h.fields.field "enum_values" with ⟨hnull, hnull'⟩ | halike
    · rw [hnull, hnull']
    · revert halike
      generalize field items "enum_values" = values, field items' "enum_values" = values'
      intro halike
      cases halike with
      | leaf hleaf hleaf' _ =>
          have hredacted : ∀ values : JsonValue, values.isLeaf = true →
              enumOf text values = redacted := by
            intro values hvalues
            cases values with
            | list _ => cases hvalues
            | _ => rfl
          rw [hredacted _ hleaf, hredacted _ hleaf']
      | list hvalues => rw [enumOf, enumOf, any_isText_of_alike hkept.enum hvalues]
      | dict _ => rfl

/-! ## Lists of objects -/

theorem AlikeItems.forall₂ {values values' : List JsonValue}
    (h : AlikeItems ids names policy path values values')
    (hscalar : JsonValue.scalarUnderItems "id" values = true) :
    List.Forall₂ (fun value value' => Alike ids names policy (path ++ [.item]) value value' ∧
      value.scalarUnder "id" = true) values values' := by
  induction values generalizing values' with
  | nil =>
      cases h
      exact .nil
  | cons value values ih =>
      rw [JsonValue.scalarUnderItems, Bool.and_eq_true] at hscalar
      cases h with
      | cons hvalue hvalues => exact .cons ⟨hvalue, hscalar.1⟩ (ih hvalues hscalar.2)

/-- **The objects of two lists**, one for one. -/
theorem objectsOf_rel (h : Alike ids names policy path value value')
    (hscalar : value.scalarUnder "id" = true) :
    List.Forall₂ (ObjectsAlike ids names policy (path ++ [.item])) (objectsOf value)
      (objectsOf value') := by
  cases h with
  | leaf hleaf hleaf' _ =>
      have hnone : ∀ value : JsonValue, value.isLeaf = true → objectsOf value = [] := by
        intro value hvalue
        cases value with
        | list _ => cases hvalue
        | _ => rfl
      rw [hnone value hleaf, hnone value' hleaf']
      exact .nil
  | dict _ => exact .nil
  | list hvalues =>
      refine List.rel_filterMap ?_ (hvalues.forall₂ hscalar)
      rintro item item' ⟨hitem, hid⟩
      cases hitem with
      | leaf hleaf hleaf' _ =>
          beta_reduce
          split
          · cases hleaf
          · split
            · cases hleaf'
            · exact .none
      | list _ => exact .none
      | dict hfields => exact .some ⟨hfields, hid⟩

/-- The objects of a field of two objects. -/
theorem objectsOf_field_rel (h : ObjectsAlike ids names policy path items items') (key : String) :
    List.Forall₂ (ObjectsAlike ids names policy (path ++ [.key key] ++ [.item]))
      (objectsOf (field items key)) (objectsOf (field items' key)) := by
  have hscalar : (field items key).scalarUnder "id" = true := by
    have hitems := h.scalar
    clear h
    induction items with
    | nil => rfl
    | cons item items ih =>
        obtain ⟨name, value⟩ := item
        rw [JsonValue.scalarUnderFields, Bool.and_eq_true, Bool.and_eq_true] at hitems
        rw [field, Dict.lookup_cons_eq]
        by_cases hkey : key = name
        · rw [if_pos hkey]
          exact hitems.1.2
        · rw [if_neg hkey]
          exact ih hitems.2
  rcases h.fields.field key with ⟨hnull, hnull'⟩ | halike
  · rw [hnull, hnull']
    exact .nil
  · exact objectsOf_rel halike hscalar

/-! ## The index -/

/-- What an index holds, under keys that correspond. -/
def IndexAlike (ids : ℤ → ℤ) (index index' : DescriptorIndex) : Prop :=
  List.Forall₂ (fun e e' => KeyAlike ids e.1 e'.1 ∧ SameUse e.2 e'.2) index.entries index'.entries

/-- **The rules that an index rests on**, of the list at a path: ids are
numbered and what is read of a descriptor is kept. -/
def Indexed (policy : EndpointPolicy) : List String → List Step → Prop
  | [], path => Acts policy (path ++ [.item] ++ [.key "id"]) .id ∧
      DescriptorKept policy (path ++ [.item] ++ [.key "metadata"] ++ [.item])
  | next :: levels, path => Acts policy (path ++ [.item] ++ [.key "id"]) .id ∧
      Indexed policy levels (path ++ [.item] ++ [.key next])

variable (hids : Function.Injective ids) (texts : Texts)

include hids

theorem indexAlike_indexOne (hkept : DescriptorKept policy path) {levels levels' : List String}
    (hlevels : List.Forall₂ (TextAlike ids) levels levels')
    (h : ObjectsAlike ids names policy path items items') {index index' : DescriptorIndex}
    (hindex : IndexAlike ids index index') :
    IndexAlike ids (indexOne levels index items) (indexOne levels' index' items') := by
  rcases field_eq_or_not_isLeaf h hkept.name with hname | ⟨hleaf, hleaf'⟩
  · unfold indexOne
    rw [← hname]
    split
    · exact Dict.setDefault_rel (biUnique_keyAlike hids) hindex (keyAlike_concat hlevels _)
        (h.sameUse hkept)
    · exact hindex
  · have hnone : ∀ {levels : List String} {index : DescriptorIndex}
        {items : List (String × JsonValue)}, (field items "name").isLeaf = false →
        indexOne levels index items = index := by
      intro levels index items hname
      unfold indexOne
      split
      · rename_i hstr
        rw [hstr] at hname
        cases hname
      · rfl
    rw [hnone hleaf, hnone hleaf']
    exact hindex

/-- **Alike metadata is indexed alike.** The induction is on the levels
between the ids. -/
theorem indexAlike_visitItems (levels : List String) :
    ∀ (path : List Step) (items items' : JsonValue) (start start' : List String)
      (index index' : DescriptorIndex), Indexed policy levels path →
      List.Forall₂ (ObjectsAlike ids names policy (path ++ [.item])) (objectsOf items)
        (objectsOf items') →
      List.Forall₂ (TextAlike ids) start start' → IndexAlike ids index index' →
      IndexAlike ids (visitItems texts items start levels index)
        (visitItems texts items' start' levels index') := by
  induction levels with
  | nil =>
      intro path items items' start start' index index' hindexed hobjects hstart hindex
      obtain ⟨hid, hkept⟩ := hindexed
      refine List.rel_foldl ?_ hindex hobjects
      intro index index' hindex item item' hitem
      have hlevels := List.rel_append hstart (.cons (textAlike_field hitem hid texts) .nil)
      refine List.rel_foldl ?_ hindex (objectsOf_field_rel hitem "metadata")
      intro index index' hindex descriptor descriptor' hdescriptor
      exact indexAlike_indexOne hids hkept hlevels hdescriptor hindex
  | cons next levels ih =>
      intro path items items' start start' index index' hindexed hobjects hstart hindex
      obtain ⟨hid, hindexed⟩ := hindexed
      refine List.rel_foldl ?_ hindex hobjects
      intro index index' hindex item item' hitem
      have hlevels := List.rel_append hstart (.cons (textAlike_field hitem hid texts) .nil)
      exact ih _ _ _ _ _ _ _ hindexed (objectsOf_field_rel hitem next) hlevels hindex

omit hids

/-! ## The keys of an index -/

/-- All keys of an index have one length. -/
def KeysOfLength (n : ℕ) (index : DescriptorIndex) : Prop := ∀ key ∈ index, key.length = n

theorem keysOfLength_indexOne {n : ℕ} {index : DescriptorIndex} (h : KeysOfLength n index)
    {levels : List String} (hlevels : levels.length + 1 = n)
    (descriptor : List (String × JsonValue)) :
    KeysOfLength n (indexOne levels index descriptor) := by
  unfold indexOne
  split
  · rename_i name _
    intro key hkey
    have hmem : key ∈ insertNew index.keys (levels ++ [name]) := by
      rw [← Dict.keys_set]
      exact hkey
    rcases mem_insertNew.1 hmem with hold | rfl
    · exact h key hold
    · rw [List.length_append, List.length_singleton]
      exact hlevels
  · exact h

/-- **A key of an index has a text for each level, and two more.** -/
theorem keysOfLength_visitItems {n : ℕ} (levels : List String) :
    ∀ (items : JsonValue) (start : List String) (index : DescriptorIndex),
      start.length + levels.length + 2 = n → KeysOfLength n index →
      KeysOfLength n (visitItems texts items start levels index) := by
  induction levels with
  | nil =>
      intro items start index hn hindex
      refine List.foldlRecOn (motive := KeysOfLength n) _ _ hindex fun index hindex item _ => ?_
      have hkey : (start ++ [texts.str (field item "id")]).length + 1 = n := by
        rw [List.length_append, List.length_singleton]
        exact hn
      exact List.foldlRecOn (motive := KeysOfLength n) _ _ hindex fun index hindex descriptor _ =>
        keysOfLength_indexOne hindex hkey descriptor
  | cons next levels ih =>
      intro items start index hn hindex
      refine List.foldlRecOn (motive := KeysOfLength n) _ _ hindex fun index hindex item _ => ?_
      refine ih _ _ _ ?_ hindex
      rw [List.length_append, List.length_singleton, ← hn, List.length_cons]
      omega

theorem get?_eq_none_of_length {n : ℕ} {index : DescriptorIndex} (h : KeysOfLength n index)
    {key : List String} (hkey : key.length ≠ n) : index.get? key = none :=
  Dict.get?_eq_none_iff.2 fun hmem => hkey (h key hmem)

/-! ## The key of a data value -/

/-- The steps to a data value, through the levels between the ids. -/
def dataSteps : List String → List Step
  | [] => [.item, .key "data", .item, .key "value"]
  | next :: levels => .item :: .key next :: dataSteps levels

/-- **The rules that the key of a data value rests on**, of the list at a
path: ids are numbered and the name is kept. -/
def Keyed (policy : EndpointPolicy) : List String → List Step → Prop
  | [], path => Acts policy (path ++ [.item] ++ [.key "id"]) .id ∧
      Acts policy (path ++ [.item] ++ [.key "data"] ++ [.item] ++ [.key "name"]) .keep
  | next :: levels, path => Acts policy (path ++ [.item] ++ [.key "id"]) .id ∧
      Keyed policy levels (path ++ [.item] ++ [.key next])

theorem dataKey_cons {item : List (String × JsonValue)}
    {inner : List (List (String × JsonValue))} (h : inner ≠ []) :
    dataKey texts (item :: inner) = texts.str (field item "id") :: dataKey texts inner := by
  rw [dataKey, dataKey, List.dropLast_cons_of_ne_nil h, List.getLast?_cons_of_ne_nil h]
  rfl

/-- **Alike data values have keys that correspond.** -/
theorem keyAlike_dataKey (levels : List String) :
    ∀ (path : List Step) (dicts dicts' : List (List (String × JsonValue))),
      Keyed policy levels path → DictsAlike ids names policy path (dataSteps levels) dicts dicts' →
      (field (dicts.getLast?.getD []) "name").isLeaf = true →
      KeyAlike ids (dataKey texts dicts) (dataKey texts dicts') := by
  induction levels with
  | nil =>
      intro path dicts dicts' hkeyed hdicts hname
      obtain ⟨hid, hkept⟩ := hkeyed
      obtain ⟨item, item', inner, inner', rfl, rfl, hitem, hinner⟩ := hdicts.of_item.of_key
      obtain ⟨data, data', last, last', rfl, rfl, hdata, hlast⟩ := hinner.of_item.of_key
      obtain ⟨rfl, rfl⟩ := hlast.of_nil
      have hsame : field data "name" = field data' "name" := by
        rcases field_eq_or_not_isLeaf hdata hkept with heq | ⟨hleaf, -⟩
        · exact heq
        · have hscalar : (field data "name").isLeaf = true := hname
          rw [hscalar] at hleaf
          cases hleaf
      have htext := textAlike_field hitem hid texts
      have hlast : KeyAlike ids [texts.str (field data "name")]
          [texts.str (field data' "name")] := by
        rw [hsame]
        exact .name _
      exact .level htext hlast
  | cons next levels ih =>
      intro path dicts dicts' hkeyed hdicts hname
      obtain ⟨hid, hkeyed⟩ := hkeyed
      obtain ⟨item, item', inner, inner', rfl, rfl, hitem, hinner⟩ := hdicts.of_item.of_key
      have hne : inner ≠ [] ∧ inner' ≠ [] := by
        obtain ⟨hlength, hlength'⟩ := hinner.length_eq
        have hpos : 0 < (dataSteps levels).countP fun step => step ≠ .item := by
          cases levels <;> simp [dataSteps]
        exact ⟨List.ne_nil_of_length_pos (hlength ▸ hpos),
          List.ne_nil_of_length_pos (hlength' ▸ hpos)⟩
      rw [List.getLast?_cons_of_ne_nil hne.1] at hname
      rw [dataKey_cons texts hne.1, dataKey_cons texts hne.2]
      exact .level (textAlike_field hitem hid texts) (ih _ _ _ hkeyed hinner hname)

theorem length_dataKey {dicts : List (List (String × JsonValue))} (h : dicts ≠ []) :
    (dataKey texts dicts).length = dicts.length := by
  rw [dataKey, List.length_append, List.length_map, List.length_dropLast, List.length_singleton]
  exact Nat.sub_add_cancel (List.length_pos_of_ne_nil h)

/-- A path with a text is a path of list items, or goes through more
objects. -/
theorem eq_or_countP_lt {steps : List Step} (hsteps : .key listItem ∉ steps) :
    ∀ path : List Step, path.map Step.text = steps.map Step.text →
      path = steps ∨
        steps.countP (fun step => step ≠ .item) < path.countP fun step => step ≠ .item := by
  induction steps with
  | nil => exact fun path h => .inl (List.map_eq_nil_iff.1 h)
  | cons step steps ih =>
      intro path h
      obtain ⟨step', path, rfl, hstep, hpath⟩ := List.map_eq_cons_iff.1 h
      rw [List.mem_cons, not_or] at hsteps
      have hrest := ih hsteps.2 path hpath
      cases step with
      | item =>
          cases step' with
          | item => simpa using hrest
          | key key =>
              have hkey : ¬ (Step.key key = .item) := nofun
              right
              rw [List.countP_cons_of_neg (by simp), List.countP_cons_of_pos (by simp)]
              rcases hrest with rfl | hlt
              · exact Nat.lt_succ_self _
              · exact Nat.lt_succ_of_lt hlt
      | key name =>
          cases step' with
          | item =>
              have hname : name = listItem := hstep.symm
              exact absurd (by rw [hname]) hsteps.1
          | key key =>
              have hkey : key = name := hstep
              subst hkey
              simpa using hrest

theorem countP_dataSteps (levels : List String) :
    (dataSteps levels).countP (fun step => step ≠ .item) = levels.length + 2 := by
  induction levels with
  | nil => rfl
  | cons next levels ih => simpa [dataSteps] using ih

include hids

/-- **Alike data values find descriptors used alike**, in indices that hold
alike descriptors. -/
theorem sameUse_lookup {levels : List String} (hlevels : .key listItem ∉ dataSteps levels)
    {index index' : DescriptorIndex} (hindex : IndexAlike ids index index')
    (hlength : KeysOfLength (levels.length + 2) index)
    (hlength' : KeysOfLength (levels.length + 2) index') (hkeyed : Keyed policy levels [])
    {dicts dicts' : List (List (String × JsonValue))}
    (hpath : path.map Step.text = (dataSteps levels).map Step.text)
    (hdicts : DictsAlike ids names policy [] path dicts dicts')
    (hname : (field (dicts.getLast?.getD []) "name").isLeaf = true) :
    SameUse ((index.get? (dataKey texts dicts)).getD [])
      ((index'.get? (dataKey texts dicts')).getD []) := by
  rcases eq_or_countP_lt hlevels path hpath with rfl | hlt
  · have hkey := keyAlike_dataKey texts levels [] dicts dicts' hkeyed hdicts hname
    exact Dict.getD_rel (Dict.lookup_rel (biUnique_keyAlike hids) hindex hkey) (.refl [])
  · -- through an object with a key `[]`, no descriptor is found
    obtain ⟨hdepth, hdepth'⟩ := hdicts.length_eq
    rw [countP_dataSteps] at hlt
    have hnone : ∀ {index : DescriptorIndex} {dicts : List (List (String × JsonValue))},
        KeysOfLength (levels.length + 2) index → levels.length + 2 < dicts.length →
        index.get? (dataKey texts dicts) = none := by
      intro index dicts hindex hdicts
      refine get?_eq_none_of_length hindex ?_
      rw [length_dataKey texts (List.ne_nil_of_length_pos (by omega))]
      exact hdicts.ne'
    rw [hnone hlength (hdepth ▸ hlt), hnone hlength' (hdepth' ▸ hlt)]
    exact .refl []

end Fields

end Capture

end Tydomio
