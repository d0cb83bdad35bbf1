import Tydomio.Capture.Report

/-!
# Two captures that differ in what is to be hidden

Two bodies are alike at a path where they have one shape and the same keys,
and leaves that differ only as their rule allows: in the value where there
is no rule or a REDACT rule, in the number of an id, in the text of a name.
The facts of this file take alike bodies apart: their fields, their objects,
their places, and what a rewriting makes of them.
-/

namespace Tydomio

open Common

namespace JsonValue

mutual

/-- **What stands under a key is a scalar**, in every object. -/
def scalarUnder (name : String) : JsonValue → Bool
  | list items => scalarUnderItems name items
  | dict items => scalarUnderFields name items
  | _ => true

/-- So in every object in a list. -/
def scalarUnderItems (name : String) : List JsonValue → Bool
  | [] => true
  | item :: items => scalarUnder name item && scalarUnderItems name items

/-- So in an object, and in every object under its keys. -/
def scalarUnderFields (name : String) : List (String × JsonValue) → Bool
  | [] => true
  | (key, value) :: items =>
      (key ≠ name || value.isLeaf) && scalarUnder name value && scalarUnderFields name items

end

end JsonValue

namespace Capture

/-! ## Leaves -/

section Leaves

variable (ids : ℤ → ℤ) (names : String → String → String)

/-- **Two ids that correspond** under a renaming of the integers. -/
inductive IdAlike : JsonValue → JsonValue → Prop
  /-- An integer is renamed. -/
  | int (n : ℤ) : IdAlike (.int n) (.int (ids n))
  /-- So is the decimal text of one. -/
  | text (n : ℤ) : IdAlike (.str (toString n)) (.str (toString (ids n)))
  /-- Anything else is the same. -/
  | other {value : JsonValue} : (∀ n : ℤ, value ≠ .int n ∧ value ≠ .str (toString n)) →
      IdAlike value value

/-- **Two names that correspond** under a renaming of the names of a kind. -/
inductive NameAlike (kind : String) : JsonValue → JsonValue → Prop
  /-- A text is renamed. -/
  | text (text : String) : NameAlike kind (.str text) (.str (names kind text))
  /-- Anything else is the same. -/
  | other {value : JsonValue} : jsonTypeName value ≠ "str" → NameAlike kind value value

/-- **What two leaves may differ in**, by the rule that completes at them. -/
def LeafAlike (rule : Option Rule) (value value' : JsonValue) : Prop :=
  match rule with
  | none => jsonTypeName value = jsonTypeName value'
  | some rule =>
      match rule.action with
      | .redact => jsonTypeName value = jsonTypeName value'
      | .id => IdAlike ids value value'
      | .name => NameAlike names (State.kindOf rule) value value'
      | .keep | .value => value = value'

variable (policy : EndpointPolicy)

mutual

/-- **Two bodies alike at a path.** -/
inductive Alike : List Step → JsonValue → JsonValue → Prop
  /-- Two leaves, as their rule allows. -/
  | leaf {path : List Step} {value value' : JsonValue} : value.isLeaf = true →
      value'.isLeaf = true →
      LeafAlike ids names (Position.along policy path).completeRule value value' →
      Alike path value value'
  /-- Two lists, item by item. -/
  | list {path : List Step} {items items' : List JsonValue} : AlikeItems path items items' →
      Alike path (.list items) (.list items')
  /-- Two objects, key by key. -/
  | dict {path : List Step} {items items' : List (String × JsonValue)} :
      AlikeFields path items items' → Alike path (.dict items) (.dict items')

/-- The items of two lists. -/
inductive AlikeItems : List Step → List JsonValue → List JsonValue → Prop
  | nil {path : List Step} : AlikeItems path [] []
  | cons {path : List Step} {item item' : JsonValue} {items items' : List JsonValue} :
      Alike (path ++ [.item]) item item' → AlikeItems path items items' →
      AlikeItems path (item :: items) (item' :: items')

/-- The items of two objects: the same keys. -/
inductive AlikeFields : List Step → List (String × JsonValue) → List (String × JsonValue) → Prop
  | nil {path : List Step} : AlikeFields path [] []
  | cons {path : List Step} {key : String} {value value' : JsonValue}
      {items items' : List (String × JsonValue)} :
      Alike (path ++ [.key key]) value value' → AlikeFields path items items' →
      AlikeFields path ((key, value) :: items) ((key, value') :: items')

end

/-- Two objects alike, with a scalar for an id. -/
structure ObjectsAlike (path : List Step) (items items' : List (String × JsonValue)) : Prop where
  fields : AlikeFields ids names policy path items items'
  scalar : JsonValue.scalarUnderFields "id" items = true

/-- **The objects around a node**, along the rest of the path to it. -/
inductive DictsAlike : List Step → List Step → List (List (String × JsonValue)) →
    List (List (String × JsonValue)) → Prop
  | nil {path : List Step} : DictsAlike path [] [] []
  | item {path rest : List Step} {dicts dicts' : List (List (String × JsonValue))} :
      DictsAlike (path ++ [.item]) rest dicts dicts' → DictsAlike path (.item :: rest) dicts dicts'
  | key {path rest : List Step} {key : String} {items items' : List (String × JsonValue)}
      {dicts dicts' : List (List (String × JsonValue))} :
      ObjectsAlike ids names policy path items items' →
      DictsAlike (path ++ [.key key]) rest dicts dicts' →
      DictsAlike path (.key key :: rest) (items :: dicts) (items' :: dicts')

/-- The object around a data value has a scalar for a name. -/
def ScalarName (leaf : Leaf) : Prop :=
  ∀ rule, leaf.rule policy = some rule → rule.action = .value →
    (field (leaf.dicts.getLast?.getD []) "name").isLeaf = true

/-- **Two places that correspond.** -/
inductive PlaceAlike : Place → Place → Prop
  /-- One key of two objects. -/
  | key (path : List Step) (key : String) : PlaceAlike (.key path key) (.key path key)
  /-- Two leaves at one path. -/
  | leaf {path : List Step} {dicts dicts' : List (List (String × JsonValue))}
      {value value' : JsonValue} : value.isLeaf = true →
      LeafAlike ids names (Position.along policy path).completeRule value value' →
      DictsAlike ids names policy [] path dicts dicts' → ScalarName policy ⟨path, dicts, value⟩ →
      PlaceAlike (.leaf ⟨path, dicts, value⟩) (.leaf ⟨path, dicts', value'⟩)

end Leaves

/-! ## Objects around a node -/

section Dicts

variable {ids : ℤ → ℤ} {names : String → String → String} {policy : EndpointPolicy}

theorem DictsAlike.of_nil {path : List Step} {dicts dicts' : List (List (String × JsonValue))}
    (h : DictsAlike ids names policy path [] dicts dicts') : dicts = [] ∧ dicts' = [] := by
  cases h
  exact ⟨rfl, rfl⟩

theorem DictsAlike.of_item {path rest : List Step}
    {dicts dicts' : List (List (String × JsonValue))}
    (h : DictsAlike ids names policy path (.item :: rest) dicts dicts') :
    DictsAlike ids names policy (path ++ [.item]) rest dicts dicts' := by
  cases h with
  | item hrest => exact hrest

theorem DictsAlike.of_key {path rest : List Step} {key : String}
    {dicts dicts' : List (List (String × JsonValue))}
    (h : DictsAlike ids names policy path (.key key :: rest) dicts dicts') :
    ∃ items items' inner inner', dicts = items :: inner ∧ dicts' = items' :: inner' ∧
      ObjectsAlike ids names policy path items items' ∧
      DictsAlike ids names policy (path ++ [.key key]) rest inner inner' := by
  cases h with
  | key hitems hrest => exact ⟨_, _, _, _, rfl, rfl, hitems, hrest⟩

theorem DictsAlike.concat_item {path rest : List Step}
    {dicts dicts' : List (List (String × JsonValue))}
    (h : DictsAlike ids names policy path rest dicts dicts') :
    DictsAlike ids names policy path (rest ++ [.item]) dicts dicts' := by
  induction h with
  | nil => exact .item .nil
  | item _ ih => exact .item ih
  | key hitems _ ih => exact .key hitems ih

theorem DictsAlike.concat_key {path rest : List Step}
    {dicts dicts' : List (List (String × JsonValue))}
    (h : DictsAlike ids names policy path rest dicts dicts')
    {items items' : List (String × JsonValue)}
    (hitems : ObjectsAlike ids names policy (path ++ rest) items items') (key : String) :
    DictsAlike ids names policy path (rest ++ [.key key]) (dicts ++ [items])
      (dicts' ++ [items']) := by
  induction h with
  | nil =>
      rw [List.append_nil] at hitems
      exact .key hitems .nil
  | item _ ih =>
      rw [List.append_cons] at hitems
      exact .item (ih hitems)
  | key hfirst _ ih =>
      rw [List.append_cons] at hitems
      exact .key hfirst (ih hitems)

/-- There is an object for each key of the path. -/
theorem DictsAlike.length_eq {path rest : List Step}
    {dicts dicts' : List (List (String × JsonValue))}
    (h : DictsAlike ids names policy path rest dicts dicts') :
    dicts.length = rest.countP (fun step => step ≠ .item) ∧
      dicts'.length = rest.countP (fun step => step ≠ .item) := by
  induction h with
  | nil => exact ⟨rfl, rfl⟩
  | item _ ih => simpa using ih
  | key _ _ ih => simpa using ih

/-! ## Fields -/

/-- **One field of two objects**: missing in both, or alike. -/
theorem AlikeFields.field {path : List Step} {items items' : List (String × JsonValue)}
    (h : AlikeFields ids names policy path items items') (key : String) :
    (field items key = .null ∧ field items' key = .null) ∨
      Alike ids names policy (path ++ [.key key]) (field items key) (field items' key) := by
  induction items generalizing items' with
  | nil =>
      cases h
      exact .inl ⟨rfl, rfl⟩
  | cons item items ih =>
      cases h with
      | cons hvalue hitems =>
          rename_i name value value' items'
          rw [Capture.field, Capture.field, Dict.lookup_cons_eq, Dict.lookup_cons_eq]
          by_cases hkey : key = name
          · subst hkey
            rw [if_pos rfl, if_pos rfl]
            exact .inr hvalue
          · rw [if_neg hkey, if_neg hkey]
            exact ih hitems

/-! ## Places -/

/-- A value has a scalar for every id and for the name of every data value. -/
structure ScalarKeys (policy : EndpointPolicy) (path : List Step)
    (dicts : List (List (String × JsonValue))) (value : JsonValue) : Prop where
  id : value.scalarUnder "id" = true
  name : ∀ leaf, .leaf leaf ∈ places path dicts value → ScalarName policy leaf

variable (ids names policy)

/-- **Alike bodies have corresponding places.** -/
theorem forall₂_placeAlike (value : JsonValue) :
    ∀ path dicts dicts' value', ScalarKeys policy path dicts value →
      Alike ids names policy path value value' →
      DictsAlike ids names policy [] path dicts dicts' →
      List.Forall₂ (PlaceAlike ids names policy) (places path dicts value)
        (places path dicts' value') := by
  refine @JsonValue.induction
    (fun value => ∀ path dicts dicts' value', ScalarKeys policy path dicts value →
      Alike ids names policy path value value' →
      DictsAlike ids names policy [] path dicts dicts' →
      List.Forall₂ (PlaceAlike ids names policy) (places path dicts value)
        (places path dicts' value'))
    (fun items => ∀ path dicts dicts' items', JsonValue.scalarUnderItems "id" items = true →
      (∀ leaf, .leaf leaf ∈ placesItems path dicts items → ScalarName policy leaf) →
      AlikeItems ids names policy path items items' →
      DictsAlike ids names policy [] path dicts dicts' →
      List.Forall₂ (PlaceAlike ids names policy) (placesItems path dicts items)
        (placesItems path dicts' items'))
    (fun items => ∀ path dicts dicts' items', JsonValue.scalarUnderFields "id" items = true →
      (∀ leaf, .leaf leaf ∈ placesKeys path dicts items → ScalarName policy leaf) →
      AlikeFields ids names policy path items items' →
      (∀ key, DictsAlike ids names policy [] (path ++ [.key key]) dicts dicts') →
      List.Forall₂ (PlaceAlike ids names policy) (placesKeys path dicts items)
        (placesKeys path dicts' items'))
    ?leaf ?list ?dict ?nil ?cons ?noField ?field value
  case leaf =>
    intro value hleaf path dicts dicts' value' hscalar halike hdicts
    cases halike with
    | leaf hvalue hvalue' hrule =>
        have hname := hscalar.name
        rw [places_leaf hvalue] at hname ⊢
        rw [places_leaf hvalue']
        exact .cons (.leaf hvalue hrule hdicts (hname _ (List.mem_singleton_self _))) .nil
    | list _ => cases hleaf
    | dict _ => cases hleaf
  case list =>
    intro items ih path dicts dicts' value' hscalar halike hdicts
    cases halike with
    | leaf hvalue _ _ => cases hvalue
    | list hitems => exact ih path dicts dicts' _ hscalar.id hscalar.name hitems hdicts
  case dict =>
    intro items ih path dicts dicts' value' hscalar halike hdicts
    cases halike with
    | leaf hvalue _ _ => cases hvalue
    | dict hitems =>
        refine ih path _ _ _ hscalar.id hscalar.name hitems fun key => ?_
        exact hdicts.concat_key ⟨hitems, hscalar.id⟩ key
  case nil =>
    intro path dicts dicts' items' _ _ halike _
    cases halike
    exact .nil
  case cons =>
    intro item items ihitem ih path dicts dicts' items' hid hname halike hdicts
    rw [JsonValue.scalarUnderItems, Bool.and_eq_true] at hid
    rw [placesItems] at hname
    cases halike with
    | cons hitem hitems =>
        refine List.rel_append (ihitem _ _ _ _ ⟨hid.1, ?_⟩ hitem hdicts.concat_item)
          (ih _ _ _ _ hid.2 ?_ hitems hdicts)
        · exact fun leaf hleaf => hname leaf (List.mem_append_left _ hleaf)
        · exact fun leaf hleaf => hname leaf (List.mem_append_right _ hleaf)
  case noField =>
    intro path dicts dicts' items' _ _ halike _
    cases halike
    exact .nil
  case field =>
    intro key item items ihitem ih path dicts dicts' items' hid hname halike hdicts
    rw [JsonValue.scalarUnderFields, Bool.and_eq_true, Bool.and_eq_true] at hid
    rw [placesKeys] at hname
    cases halike with
    | cons hitem hitems =>
        refine .cons (.key path key) (List.rel_append
          (ihitem _ _ _ _ ⟨hid.1.2, ?_⟩ hitem (hdicts key)) (ih _ _ _ _ hid.2 ?_ hitems hdicts))
        · exact fun leaf hleaf =>
            hname leaf (List.mem_cons_of_mem _ (List.mem_append_left _ hleaf))
        · exact fun leaf hleaf =>
            hname leaf (List.mem_cons_of_mem _ (List.mem_append_right _ hleaf))

variable {ids names policy} {r r' : Rewrite} (hkey : r.key = r'.key)
  (hleaf : ∀ leaf leaf', PlaceAlike ids names policy (.leaf leaf) (.leaf leaf') →
    r.leaf leaf = r'.leaf leaf')

include hkey hleaf

/-- **Alike bodies are rewritten to one body** where corresponding leaves
are rewritten to one value. -/
theorem node_eq_of_alike (value : JsonValue) :
    ∀ path dicts dicts' value', ScalarKeys policy path dicts value →
      Alike ids names policy path value value' →
      DictsAlike ids names policy [] path dicts dicts' →
      r.node path dicts value = r'.node path dicts' value' := by
  refine @JsonValue.induction
    (fun value => ∀ path dicts dicts' value', ScalarKeys policy path dicts value →
      Alike ids names policy path value value' →
      DictsAlike ids names policy [] path dicts dicts' →
      r.node path dicts value = r'.node path dicts' value')
    (fun items => ∀ path dicts dicts' items', JsonValue.scalarUnderItems "id" items = true →
      (∀ leaf, .leaf leaf ∈ placesItems path dicts items → ScalarName policy leaf) →
      AlikeItems ids names policy path items items' →
      DictsAlike ids names policy [] path dicts dicts' →
      r.items' path dicts items = r'.items' path dicts' items')
    (fun items => ∀ path dicts dicts' items', JsonValue.scalarUnderFields "id" items = true →
      (∀ leaf, .leaf leaf ∈ placesKeys path dicts items → ScalarName policy leaf) →
      AlikeFields ids names policy path items items' →
      (∀ key, DictsAlike ids names policy [] (path ++ [.key key]) dicts dicts') →
      r.fields path dicts items = r'.fields path dicts' items')
    ?leaf ?list ?dict ?nil ?cons ?noField ?field value
  case leaf =>
    intro value hvalue path dicts dicts' value' hscalar halike hdicts
    cases halike with
    | leaf _ hvalue' hrule =>
        have hname := hscalar.name
        rw [places_leaf hvalue] at hname
        rw [r.node_leaf hvalue, r'.node_leaf hvalue']
        exact hleaf _ _ (.leaf hvalue hrule hdicts (hname _ (List.mem_singleton_self _)))
    | list _ => cases hvalue
    | dict _ => cases hvalue
  case list =>
    intro items ih path dicts dicts' value' hscalar halike hdicts
    cases halike with
    | leaf hvalue _ _ => cases hvalue
    | list hitems =>
        exact congrArg JsonValue.list (ih path dicts dicts' _ hscalar.id hscalar.name hitems hdicts)
  case dict =>
    intro items ih path dicts dicts' value' hscalar halike hdicts
    cases halike with
    | leaf hvalue _ _ => cases hvalue
    | dict hitems =>
        refine congrArg JsonValue.dict (ih path _ _ _ hscalar.id hscalar.name hitems fun key => ?_)
        exact hdicts.concat_key ⟨hitems, hscalar.id⟩ key
  case nil =>
    intro path dicts dicts' items' _ _ halike _
    cases halike
    rfl
  case cons =>
    intro item items ihitem ih path dicts dicts' items' hid hname halike hdicts
    rw [JsonValue.scalarUnderItems, Bool.and_eq_true] at hid
    rw [placesItems] at hname
    cases halike with
    | cons hitem hitems =>
        rw [Rewrite.items', Rewrite.items',
          ihitem _ _ _ _ ⟨hid.1, fun leaf hleaf => hname leaf (List.mem_append_left _ hleaf)⟩
            hitem hdicts.concat_item,
          ih _ _ _ _ hid.2 (fun leaf hleaf => hname leaf (List.mem_append_right _ hleaf))
            hitems hdicts]
  case noField =>
    intro path dicts dicts' items' _ _ halike _
    cases halike
    rfl
  case field =>
    intro key item items ihitem ih path dicts dicts' items' hid hname halike hdicts
    rw [JsonValue.scalarUnderFields, Bool.and_eq_true, Bool.and_eq_true] at hid
    rw [placesKeys] at hname
    cases halike with
    | cons hitem hitems =>
        have hfirst := ihitem _ _ _ _ ⟨hid.1.2, fun leaf hleaf =>
          hname leaf (List.mem_cons_of_mem _ (List.mem_append_left _ hleaf))⟩ hitem (hdicts key)
        have hrest := ih _ _ _ _ hid.2 (fun leaf hleaf =>
          hname leaf (List.mem_cons_of_mem _ (List.mem_append_right _ hleaf))) hitems hdicts
        rw [Rewrite.fields, Rewrite.fields, hkey, hfirst, hrest]

end Dicts

end Capture

end Tydomio
