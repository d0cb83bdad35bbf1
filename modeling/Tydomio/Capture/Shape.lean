import Tydomio.Capture.Render

/-!
# The shape of an anonymized body

Rewriting a body changes no list, keeps the keys of each object apart and in
order, and leaves at each leaf a value of the same type: `anonymize_shape`.
The first part is about any rewriting, with the places of the rewritten body
read off those of the raw one (`forall₂_places`).
-/

namespace Tydomio

open Common

namespace Capture

/-! ## Rewriting any body -/

/-- **The same shape**: the same lists and objects, and leaves of the same
types. -/
inductive SameShape : JsonValue → JsonValue → Prop
  /-- Two leaves of one type. -/
  | leaf {value value' : JsonValue} : value.isLeaf = true →
      jsonTypeName value = jsonTypeName value' → SameShape value value'
  /-- Two lists, item by item. -/
  | list {items items' : List JsonValue} : List.Forall₂ SameShape items items' →
      SameShape (.list items) (.list items')
  /-- Two objects, key by key, whatever the keys. -/
  | dict {items items' : List (String × JsonValue)} :
      List.Forall₂ SameShape (items.map Prod.snd) (items'.map Prod.snd) →
      SameShape (.dict items) (.dict items')

/-- The type says whether a value is a leaf. -/
theorem isLeaf_iff (value : JsonValue) :
    value.isLeaf = true ↔ jsonTypeName value ≠ "list" ∧ jsonTypeName value ≠ "dict" := by
  cases value <;> simp [JsonValue.isLeaf, jsonTypeName]

theorem isLeaf_of_jsonTypeName {value value' : JsonValue} (hleaf : value.isLeaf = true)
    (h : jsonTypeName value = jsonTypeName value') : value'.isLeaf = true := by
  rw [isLeaf_iff, ← h, ← isLeaf_iff]
  exact hleaf

namespace Rewrite

/-- A rewriting keeps the type of a leaf. -/
def KeepsType (r : Rewrite) (leaf : Leaf) : Prop :=
  jsonTypeName leaf.value = jsonTypeName (r.leaf leaf)

/-- What a place of a body becomes. -/
inductive Maps (r : Rewrite) : Place → Place → Prop
  /-- A key goes with the path of its object. -/
  | key (path : List Step) (key : String) :
      Maps r (.key path key) (.key (r.path path) (r.key path key))
  /-- A leaf goes with its path. -/
  | leaf (leaf leaf' : Leaf) : leaf'.path = r.path leaf.path → leaf'.value = r.leaf leaf →
      Maps r (.leaf leaf) (.leaf leaf')

variable (r : Rewrite)

theorem sameShape_node (value : JsonValue) :
    ∀ path dicts, (∀ leaf, .leaf leaf ∈ places path dicts value → r.KeepsType leaf) →
      SameShape value (r.node path dicts value) := by
  refine @JsonValue.induction
    (fun value => ∀ path dicts, (∀ leaf, .leaf leaf ∈ places path dicts value → r.KeepsType leaf) →
      SameShape value (r.node path dicts value))
    (fun items => ∀ path dicts,
      (∀ leaf, .leaf leaf ∈ placesItems path dicts items → r.KeepsType leaf) →
      List.Forall₂ SameShape items (r.items' path dicts items))
    (fun items => ∀ path dicts,
      (∀ leaf, .leaf leaf ∈ placesKeys path dicts items → r.KeepsType leaf) →
      List.Forall₂ SameShape (items.map Prod.snd) ((r.fields path dicts items).map Prod.snd))
    ?leaf ?list ?dict ?nil ?cons ?noField ?field value
  case leaf =>
    intro value hleaf path dicts h
    rw [places_leaf hleaf] at h
    rw [r.node_leaf hleaf]
    exact .leaf hleaf (h _ (List.mem_singleton_self _))
  case list =>
    intro items ih path dicts h
    rw [places] at h
    exact .list (ih path dicts h)
  case dict =>
    intro items ih path dicts h
    rw [places] at h
    exact .dict (ih path _ h)
  case nil =>
    intro path dicts _
    exact .nil
  case cons =>
    intro item items ihitem ih path dicts h
    rw [placesItems] at h
    have hitem := ihitem _ _ fun leaf hleaf => h leaf (List.mem_append_left _ hleaf)
    have hitems := ih _ _ fun leaf hleaf => h leaf (List.mem_append_right _ hleaf)
    exact .cons hitem hitems
  case noField =>
    intro path dicts _
    exact .nil
  case field =>
    intro key item items ihitem ih path dicts h
    rw [placesKeys] at h
    have hitem := ihitem _ _ fun leaf hleaf =>
      h leaf (List.mem_cons_of_mem _ (List.mem_append_left _ hleaf))
    have hitems := ih _ _ fun leaf hleaf =>
      h leaf (List.mem_cons_of_mem _ (List.mem_append_right _ hleaf))
    exact .cons hitem hitems

/-- **The places of a rewritten body**, one for one. -/
theorem forall₂_places (value : JsonValue) :
    ∀ path dicts dicts', (∀ leaf, .leaf leaf ∈ places path dicts value → r.KeepsType leaf) →
      List.Forall₂ r.Maps (places path dicts value)
        (places (r.path path) dicts' (r.node path dicts value)) := by
  refine @JsonValue.induction
    (fun value => ∀ path dicts dicts',
      (∀ leaf, .leaf leaf ∈ places path dicts value → r.KeepsType leaf) →
      List.Forall₂ r.Maps (places path dicts value)
        (places (r.path path) dicts' (r.node path dicts value)))
    (fun items => ∀ path dicts dicts',
      (∀ leaf, .leaf leaf ∈ placesItems path dicts items → r.KeepsType leaf) →
      List.Forall₂ r.Maps (placesItems path dicts items)
        (placesItems (r.path path) dicts' (r.items' path dicts items)))
    (fun items => ∀ path dicts dicts',
      (∀ leaf, .leaf leaf ∈ placesKeys path dicts items → r.KeepsType leaf) →
      List.Forall₂ r.Maps (placesKeys path dicts items)
        (placesKeys (r.path path) dicts' (r.fields path dicts items)))
    ?leaf ?list ?dict ?nil ?cons ?noField ?field value
  case leaf =>
    intro value hleaf path dicts dicts' h
    rw [places_leaf hleaf] at h ⊢
    have htype := h _ (List.mem_singleton_self _)
    rw [r.node_leaf hleaf, places_leaf (isLeaf_of_jsonTypeName hleaf htype)]
    exact .cons (.leaf _ _ rfl rfl) .nil
  case list =>
    intro items ih path dicts dicts' h
    rw [places] at h ⊢
    exact ih path dicts dicts' h
  case dict =>
    intro items ih path dicts dicts' h
    rw [places] at h ⊢
    exact ih path _ _ h
  case nil =>
    intro path dicts dicts' _
    exact .nil
  case cons =>
    intro item items ihitem ih path dicts dicts' h
    rw [placesItems] at h ⊢
    have hitem := ihitem _ _ dicts' fun leaf hleaf => h leaf (List.mem_append_left _ hleaf)
    have hitems := ih _ _ dicts' fun leaf hleaf => h leaf (List.mem_append_right _ hleaf)
    rw [path_concat_item] at hitem
    exact List.rel_append hitem hitems
  case noField =>
    intro path dicts dicts' _
    exact .nil
  case field =>
    intro key item items ihitem ih path dicts dicts' h
    rw [placesKeys] at h ⊢
    have hitem := ihitem _ _ dicts' fun leaf hleaf =>
      h leaf (List.mem_cons_of_mem _ (List.mem_append_left _ hleaf))
    have hitems := ih _ _ dicts' fun leaf hleaf =>
      h leaf (List.mem_cons_of_mem _ (List.mem_append_right _ hleaf))
    rw [path_concat_key] at hitem
    exact .cons (.key path key) (List.rel_append hitem hitems)

/-- The keys of each object stay apart. -/
theorem distinctKeys_node (value : JsonValue) :
    value.distinctKeys = true → ∀ path dicts,
      (∀ path' key key', .key path' key ∈ places path dicts value →
        r.key path' key = r.key path' key' → key = key') →
      (∀ leaf, .leaf leaf ∈ places path dicts value → r.KeepsType leaf) →
      (r.node path dicts value).distinctKeys = true := by
  refine @JsonValue.induction
    (fun value => value.distinctKeys = true → ∀ path dicts,
      (∀ path' key key', .key path' key ∈ places path dicts value →
        r.key path' key = r.key path' key' → key = key') →
      (∀ leaf, .leaf leaf ∈ places path dicts value → r.KeepsType leaf) →
      (r.node path dicts value).distinctKeys = true)
    (fun items => JsonValue.distinctItems items = true → ∀ path dicts,
      (∀ path' key key', .key path' key ∈ placesItems path dicts items →
        r.key path' key = r.key path' key' → key = key') →
      (∀ leaf, .leaf leaf ∈ placesItems path dicts items → r.KeepsType leaf) →
      JsonValue.distinctItems (r.items' path dicts items) = true)
    (fun items => JsonValue.distinctFields items = true → ∀ path dicts,
      (∀ path' key key', .key path' key ∈ placesKeys path dicts items →
        r.key path' key = r.key path' key' → key = key') →
      (∀ leaf, .leaf leaf ∈ placesKeys path dicts items → r.KeepsType leaf) →
      JsonValue.distinctFields (r.fields path dicts items) = true)
    ?leaf ?list ?dict ?nil ?cons ?noField ?field value
  case leaf =>
    intro value hleaf _ path dicts _ h
    rw [places_leaf hleaf] at h
    have hout := isLeaf_of_jsonTypeName hleaf (h _ (List.mem_singleton_self _))
    rw [r.node_leaf hleaf]
    cases hvalue : r.leaf ⟨path, dicts, value⟩ with
    | list items =>
        rw [hvalue] at hout
        cases hout
    | dict items =>
        rw [hvalue] at hout
        cases hout
    | _ => rfl
  case list =>
    intro items ih hdistinct path dicts hkeys h
    rw [places] at hkeys h
    exact ih hdistinct path dicts hkeys h
  case dict =>
    intro items ih hdistinct path dicts hkeys h
    rw [JsonValue.distinctKeys, Bool.and_eq_true, decide_eq_true_eq] at hdistinct
    rw [places] at hkeys h
    rw [node, JsonValue.distinctKeys, Bool.and_eq_true, decide_eq_true_eq, map_fst_fields]
    refine ⟨List.Nodup.map_on (fun key hkey key' _ => ?_) hdistinct.1,
      ih hdistinct.2 path _ hkeys h⟩
    exact hkeys path key key' (key_mem_placesKeys hkey)
  case nil =>
    intro _ path dicts _ _
    rfl
  case cons =>
    intro item items ihitem ih hdistinct path dicts hkeys h
    rw [JsonValue.distinctItems, Bool.and_eq_true] at hdistinct
    rw [placesItems] at hkeys h
    rw [items', JsonValue.distinctItems, Bool.and_eq_true]
    refine ⟨ihitem hdistinct.1 _ _ ?_ ?_, ih hdistinct.2 _ _ ?_ ?_⟩
    · exact fun path' key key' hkey => hkeys path' key key' (List.mem_append_left _ hkey)
    · exact fun leaf hleaf => h leaf (List.mem_append_left _ hleaf)
    · exact fun path' key key' hkey => hkeys path' key key' (List.mem_append_right _ hkey)
    · exact fun leaf hleaf => h leaf (List.mem_append_right _ hleaf)
  case noField =>
    intro _ path dicts _ _
    rfl
  case field =>
    intro key item items ihitem ih hdistinct path dicts hkeys h
    rw [JsonValue.distinctFields, Bool.and_eq_true] at hdistinct
    rw [placesKeys] at hkeys h
    rw [fields, JsonValue.distinctFields, Bool.and_eq_true]
    refine ⟨ihitem hdistinct.1 _ _ ?_ ?_, ih hdistinct.2 _ _ ?_ ?_⟩
    · exact fun path' key key' hkey =>
        hkeys path' key key' (List.mem_cons_of_mem _ (List.mem_append_left _ hkey))
    · exact fun leaf hleaf => h leaf (List.mem_cons_of_mem _ (List.mem_append_left _ hleaf))
    · exact fun path' key key' hkey =>
        hkeys path' key key' (List.mem_cons_of_mem _ (List.mem_append_right _ hkey))
    · exact fun leaf hleaf => h leaf (List.mem_cons_of_mem _ (List.mem_append_right _ hleaf))

/-! ## The keys and the leaves of a rewritten body -/

variable {r} {body : JsonValue}

/-- Its keys, one for one. -/
theorem keysOf_body (h : ∀ leaf ∈ leaves body, r.KeepsType leaf) :
    keysOf (r.body body) =
      (keysOf body).map fun place => (r.path place.1, r.key place.1 place.2) := by
  have hplaces := r.forall₂_places body [] [] [] fun leaf hleaf =>
    h leaf (List.mem_filterMap.2 ⟨_, hleaf, rfl⟩)
  unfold keysOf
  refine List.Forall₂.rec rfl ?_ hplaces
  intro place place' rest rest' hmaps _ ih
  cases hmaps with
  | key path key => exact congrArg ((r.path path, r.key path key) :: ·) ih
  | leaf leaf leaf' hpath hvalue =>
      rw [List.filterMap_cons_none rfl, List.filterMap_cons_none rfl, ih]

/-- Its leaves, one for one. -/
theorem forall₂_leaves (h : ∀ leaf ∈ leaves body, r.KeepsType leaf) :
    List.Forall₂ (fun leaf leaf' => leaf'.path = r.path leaf.path ∧ leaf'.value = r.leaf leaf)
      (leaves body) (leaves (r.body body)) := by
  have hplaces := r.forall₂_places body [] [] [] fun leaf hleaf =>
    h leaf (List.mem_filterMap.2 ⟨_, hleaf, rfl⟩)
  unfold leaves
  refine List.Forall₂.rec .nil ?_ hplaces
  intro place place' rest rest' hmaps _ ih
  cases hmaps with
  | key path key =>
      rw [List.filterMap_cons_none rfl, List.filterMap_cons_none rfl]
      exact ih
  | leaf leaf leaf' hpath hvalue => exact .cons ⟨hpath, hvalue⟩ ih

end Rewrite

/-! ## The types of the leaves -/

/-- A leaf place holds a leaf. -/
theorem isLeaf_of_mem_places (value : JsonValue) :
    ∀ path dicts leaf, .leaf leaf ∈ places path dicts value → leaf.value.isLeaf = true := by
  refine @JsonValue.induction
    (fun value => ∀ path dicts leaf, .leaf leaf ∈ places path dicts value →
      leaf.value.isLeaf = true)
    (fun items => ∀ path dicts leaf, .leaf leaf ∈ placesItems path dicts items →
      leaf.value.isLeaf = true)
    (fun items => ∀ path dicts leaf, .leaf leaf ∈ placesKeys path dicts items →
      leaf.value.isLeaf = true)
    ?leaf ?list ?dict ?nil ?cons ?noField ?field value
  case leaf =>
    intro value hleaf path dicts leaf hmem
    rw [places_leaf hleaf, List.mem_singleton] at hmem
    cases hmem
    exact hleaf
  case list =>
    intro items ih path dicts leaf hmem
    exact ih path dicts leaf hmem
  case dict =>
    intro items ih path dicts leaf hmem
    exact ih path _ leaf hmem
  case nil =>
    intro path dicts leaf hmem
    cases hmem
  case cons =>
    intro item items ihitem ih path dicts leaf hmem
    rw [placesItems, List.mem_append] at hmem
    exact hmem.elim (ihitem _ _ leaf) (ih _ _ leaf)
  case noField =>
    intro path dicts leaf hmem
    cases hmem
  case field =>
    intro key item items ihitem ih path dicts leaf hmem
    rw [placesKeys, List.mem_cons, List.mem_append] at hmem
    rcases hmem with hmem | hmem | hmem
    · cases hmem
    · exact ihitem _ _ leaf hmem
    · exact ih _ _ leaf hmem

theorem jsonTypeName_placeholder {value : JsonValue} (h : value.isLeaf = true) :
    jsonTypeName value = jsonTypeName (placeholder value) := by
  cases value with
  | list items => cases h
  | dict items => cases h
  | _ => rfl

/-- A number becomes one of its type. -/
theorem jsonTypeName_numberOf {value minimum out : JsonValue} (hleaf : value.isLeaf = true)
    (h : numberOf value minimum = .ok out) : jsonTypeName value = jsonTypeName out := by
  unfold numberOf at h
  split at h
  · unfold converted at h
    split at h
    · cases h
      rfl
    · cases h
  · cases h
    rfl
  · cases h
    rfl
  · rw [map_eq_ok_iff] at h
    obtain ⟨n, -, rfl⟩ := h
    rfl
  · cases h
    exact jsonTypeName_placeholder hleaf

/-- A data value becomes one of its type. -/
theorem jsonTypeName_valueOf {texts : Texts} {descriptors : Dict String DescriptorIndex}
    {url : String} {dicts : List (List (String × JsonValue))} {value out : JsonValue}
    (hleaf : value.isLeaf = true) (h : valueOf texts descriptors url dicts value = .ok out) :
    jsonTypeName value = jsonTypeName out := by
  cases value with
  | null => cases h; rfl
  | bool b => cases h; rfl
  | int n => exact jsonTypeName_numberOf rfl h
  | float x => exact jsonTypeName_numberOf rfl h
  | str text => cases h; rfl
  | list items => cases hleaf
  | dict items => cases hleaf

theorem jsonTypeName_outId (trail : List Stop) {value : JsonValue} (hleaf : value.isLeaf = true) :
    jsonTypeName value = jsonTypeName (outId trail value) := by
  cases value with
  | str text =>
      rw [outId]
      split <;> rfl
  | list items => cases hleaf
  | dict items => cases hleaf
  | _ => rfl

theorem jsonTypeName_outName (trail : List Stop) (kind : String) {value : JsonValue}
    (hleaf : value.isLeaf = true) :
    jsonTypeName value = jsonTypeName (outName trail kind value) := by
  cases value with
  | list items => cases hleaf
  | dict items => cases hleaf
  | _ => rfl

/-- **A leaf keeps its type**, where it raises nothing. -/
theorem keepsType_rewriteOf {trail : List Stop} {texts : Texts}
    {descriptors : Dict String DescriptorIndex} {url : String} {policy : EndpointPolicy}
    {leaf : Leaf} (hleaf : leaf.value.isLeaf = true)
    (h : Stop.failure texts descriptors ⟨url, policy, .leaf leaf⟩ = none) :
    (rewriteOf trail texts descriptors url policy).KeepsType leaf := by
  have hout : (rewriteOf trail texts descriptors url policy).leaf leaf =
      outLeaf trail texts descriptors url policy leaf := rfl
  rw [Rewrite.KeepsType, hout]
  cases hrule : leaf.rule policy with
  | none =>
      rw [outLeaf_of_none hrule]
      exact jsonTypeName_placeholder hleaf
  | some rule =>
      cases haction : rule.action with
      | keep =>
          rw [outLeaf_of_keep hrule haction]
          split
          · rfl
          · exact jsonTypeName_placeholder hleaf
      | id =>
          rw [outLeaf_of_id hrule haction]
          exact jsonTypeName_outId trail hleaf
      | name =>
          rw [outLeaf_of_name hrule haction]
          exact jsonTypeName_outName trail _ hleaf
      | redact =>
          rw [outLeaf_of_redact hrule haction]
          exact jsonTypeName_placeholder hleaf
      | value =>
          cases hvalue : valueOf texts descriptors url leaf.dicts leaf.value with
          | error e =>
              rw [failure_of_error hrule haction hvalue] at h
              cases h
          | ok out =>
              rw [outLeaf_of_value hrule haction hvalue]
              exact jsonTypeName_valueOf hleaf hvalue

/-! ## A capture -/

namespace Captured

/-- The keys that are renamed. -/
def renamedKeys (capture : Captured) : List String := capture.trail.filterMap Stop.renamedKey

variable {capture : Captured} {url : String} {body : JsonValue}

/-- The leaves of a body keep their types. -/
theorem keepsType {texts : Texts} {result : Anonymized} (hok : anonymize texts capture = .ok result)
    (h : capture.bodies.get? url = some body) :
    ∀ leaf ∈ leaves body, (rewriteOf capture.trail texts (capture.descriptors texts) url
      (capture.policyOf url)).KeepsType leaf := by
  intro leaf hleaf
  have hplace := place_of_mem_leaves hleaf
  exact keepsType_rewriteOf (isLeaf_of_mem_places body [] [] leaf hplace)
    (failure_eq_none hok (mem_trail h hplace))

end Captured

/-- **An anonymized capture has the shape of the raw one.** Of each url
there is a body, with the lists, the objects and the types of the leaves of
the raw body, and no two keys of an object alike. A key is itself exactly
where a rule active at its object names it or its suffix, or where it is an
identifier outside an opaque subtree, and otherwise the token of a number
that the raw key alone decides, in the whole capture. -/
theorem anonymize_shape {texts : Texts} {capture : Captured} {result : Anonymized}
    (hok : anonymize texts capture = .ok result) :
    (∀ url, (result.bodies.get? url).isSome = (capture.bodies.get? url).isSome) ∧
    ∃ number : String → ℕ,
      (∀ key ∈ capture.renamedKeys, ∀ key' ∈ capture.renamedKeys,
        number key = number key' → key = key') ∧
      ∀ url body out, capture.bodies.get? url = some body → result.bodies.get? url = some out →
        SameShape body out ∧ out.distinctKeys = true ∧
        List.Forall₂ (fun raw out =>
          out.2 = if (Position.along (capture.policyOf url) raw.1).declares raw.2 = true ∨
              (Position.along (capture.policyOf url) raw.1).isOpaque = false ∧
                isIdentifier raw.2 = true
            then raw.2 else "<key-" ++ toString (number raw.2) ++ ">")
          (keysOf body) (keysOf out) := by
  refine ⟨fun url => ?_, keyNumber capture.trail, ?_, ?_⟩
  · rw [anonymize_body hok, Option.isSome_map]
  · intro key hkey key' _ hnumber
    exact (number_inj hkey).1 hnumber
  · intro url body out hbody hout
    rw [anonymize_body hok, hbody, Option.map_some, Option.some.injEq] at hout
    subst hout
    have htypes := Captured.keepsType hok hbody
    have hplaces : ∀ leaf, .leaf leaf ∈ places [] [] body → (rewriteOf capture.trail texts
        (capture.descriptors texts) url (capture.policyOf url)).KeepsType leaf :=
      fun leaf hleaf => htypes leaf (List.mem_filterMap.2 ⟨_, hleaf, rfl⟩)
    refine ⟨Rewrite.sameShape_node _ body [] [] hplaces, ?_, ?_⟩
    · refine Rewrite.distinctKeys_node _ body ?_ [] [] ?_ hplaces
      · exact capture.distinct body (Dict.mem_values.2 ⟨url, hbody⟩)
      · intro path key key' hkey
        exact outKey_injective (capture.namesNoToken_policyOf url) (Captured.mem_trail hbody hkey)
    · have hkeys := Rewrite.keysOf_body htypes
      rw [Captured.outBody, hkeys, List.forall₂_map_right_iff, List.forall₂_same]
      intro raw _
      have hkeeps : (Position.along (capture.policyOf url) raw.1).keeps raw.2 = true ↔
          (Position.along (capture.policyOf url) raw.1).declares raw.2 = true ∨
            (Position.along (capture.policyOf url) raw.1).isOpaque = false ∧
              isIdentifier raw.2 = true := by
        simp [Position.keeps]
      exact if_congr hkeeps rfl rfl

/-- A protocol with a key that no rule names and that is no identifier. -/
def protocolsCapture : Captured :=
  ⟨.ofList [("/protocols", .list [.dict [("protocol", .str "zigbee"), ("my key", .int 3)]])],
    .ofList [("/protocols", 200)], by decide⟩

/-- What becomes of it. -/
def protocolsAnonymized : Anonymized :=
  ⟨.ofList [("/protocols", .list [.dict [("protocol", .str "zigbee"), ("<key-1>", .int 0)]])],
    [⟨"/protocols", "[].<key-1>", "int", "no-rule"⟩], [⟨"/protocols", "[].<key-1>"⟩]⟩

/-- Its shape is kept. -/
theorem anonymize_shape_protocols :
    SameShape (.list [.dict [("protocol", .str "zigbee"), ("my key", .int 3)]])
      (.list [.dict [("protocol", .str "zigbee"), ("<key-1>", .int 0)]]) := by
  have hok : anonymize .simple protocolsCapture = .ok protocolsAnonymized := rfl
  obtain ⟨-, number, -, hbodies⟩ := anonymize_shape hok
  exact (hbodies "/protocols" _ _ rfl rfl).1

end Capture

end Tydomio
