import Mathlib
import Tydomio.Common.Json.RoundTrip
import Tydomio.Capture.Model.Dumps
import Tydomio.Capture.Strict

/-!
# What is dumped is loaded

A value of the language is written as a tree of numbers, and the text of the
tree is read as the tree. Converting its numbers gives the value again, with
its keys in the order they were written in.
-/

namespace Tydomio

open Common

namespace JsonValue

mutual

/-- **The leaves of a value**, in their order. -/
def scalars : JsonValue → List JsonValue
  | list items => scalarsItems items
  | dict items => scalarsFields items
  | value => [value]

/-- Those of the items of a list. -/
def scalarsItems : List JsonValue → List JsonValue
  | [] => []
  | item :: items => scalars item ++ scalarsItems items

/-- Those of the values of an object. -/
def scalarsFields : List (String × JsonValue) → List JsonValue
  | [] => []
  | (_, value) :: items => scalars value ++ scalarsFields items

end

end JsonValue

namespace Capture

/-- **A number that has a text, and whose text is read back**: an integer
within the digit limit, or a double whose text is a number of JSON and stands
for the double, as that of every finite double of the language does. -/
def FloatText.Writes (text : FloatText) : JsonValue → Prop
  | .int n => digitsOf (toString n) ≤ maxStrDigits
  | .float x => ∃ q, x = .finite q ∧ (Json.Numeral.float (text.repr q).toList).Proper ∧
      text.float (text.repr q) = .finite q
  | _ => True

/-- A conversion that takes each such text for its double. -/
structure Hooks.Converts (hooks : Hooks) (text : FloatText) : Prop where
  parseFloat : ∀ source q, text.float source = .finite q →
    hooks.parseFloat source = .ok (.finite q)

theorem converts_plainHooks (text : FloatText) : (plainHooks text.float).Converts text where
  parseFloat _ _ h := congrArg Except.ok h

theorem converts_strictHooks (text : FloatText) : (strictHooks text.float).Converts text where
  parseFloat source q h := by
    show finiteFloat text.float source = _
    rw [finiteFloat, h]

/-! ## Numbers -/

theorem intOf_intText {n : ℤ} (h : digitsOf (toString n) ≤ maxStrDigits) :
    intOf (toString n) = .ok n := by
  rw [intOf, if_neg (by omega), Int.toString_eq_repr, Int.toInt?_repr, Option.getD_some]

section Written

variable {text : FloatText} {allowNan : Bool} {hooks : Hooks}

/-- **A tree that is read as a value.** -/
structure ReadAs (hooks : Hooks) (value : JsonValue) (tree : Json.Tree) : Prop where
  depth : tree.depth = value.depth
  proper : ∀ numeral ∈ tree.numerals, numeral.Proper
  value : hooks.value (treeOf tree) = .ok value

theorem readAs_int {n : ℤ} (h : text.Writes (.int n)) :
    ∃ numeral, intNumeral n = some numeral ∧ ReadAs hooks (.int n) (.number numeral) := by
  have hdigits : ¬ maxStrDigits < digitsOf (toString n) := not_lt.2 h
  refine ⟨.int (toString n).toList, if_neg hdigits, rfl, ?_, ?_⟩
  · intro numeral hmem
    obtain rfl := List.mem_singleton.1 hmem
    exact Json.proper_intText n
  · show (intOf (String.ofList (toString n).toList)).map JsonValue.int = _
    rw [String.ofList_toList, intOf_intText h]
    rfl

theorem readAs_float (hhooks : hooks.Converts text) {x : PyFloat} (h : text.Writes (.float x)) :
    ∃ numeral, floatNumeral text allowNan x = some numeral ∧
      ReadAs hooks (.float x) (.number numeral) := by
  obtain ⟨q, rfl, hproper, hfloat⟩ := h
  refine ⟨_, rfl, rfl, ?_, ?_⟩
  · intro numeral hmem
    obtain rfl := List.mem_singleton.1 hmem
    exact hproper
  · show (hooks.parseFloat (String.ofList (text.repr q).toList)).map JsonValue.float = _
    rw [String.ofList_toList, hhooks.parseFloat _ q hfloat]
    rfl

/-- **What is written of a value is read as the value.** -/
theorem readAs_writtenTree (hhooks : hooks.Converts text) (value : JsonValue) :
    value.distinctKeys = true → (∀ leaf ∈ value.scalars, text.Writes leaf) →
      ∃ tree, writtenTree text allowNan value = some tree ∧ ReadAs hooks value tree := by
  refine @JsonValue.induction
    (fun value => value.distinctKeys = true → (∀ leaf ∈ value.scalars, text.Writes leaf) →
      ∃ tree, writtenTree text allowNan value = some tree ∧ ReadAs hooks value tree)
    (fun items => JsonValue.distinctItems items = true →
      (∀ leaf ∈ JsonValue.scalarsItems items, text.Writes leaf) →
      ∃ trees, writtenItems text allowNan items = some trees ∧
        Json.Tree.depthItems trees = JsonValue.depthItems items ∧
        (∀ numeral ∈ Json.Tree.numeralsItems trees, numeral.Proper) ∧
        hooks.valueItems (treesOf trees) = .ok items)
    (fun items => JsonValue.distinctFields items = true →
      (∀ leaf ∈ JsonValue.scalarsFields items, text.Writes leaf) →
      ∃ trees, writtenFields text allowNan items = some trees ∧
        Json.Tree.depthFields trees = JsonValue.depthFields items ∧
        (∀ numeral ∈ Json.Tree.numeralsFields trees, numeral.Proper) ∧
        ∀ before, ((before ++ items).map Prod.fst).Nodup →
          hooks.valueFields before (fieldTreesOf trees) = .ok (before ++ items))
    ?leaf ?list ?dict ?nil ?cons ?noField ?field value
  case leaf =>
    intro value hleaf _ hwrites
    cases value with
    | null => exact ⟨.null, rfl, rfl, by simp [Json.Tree.numerals], rfl⟩
    | bool b => exact ⟨.bool b, rfl, rfl, by simp [Json.Tree.numerals], rfl⟩
    | str s => exact ⟨.str s, rfl, rfl, by simp [Json.Tree.numerals], rfl⟩
    | int n =>
        obtain ⟨numeral, hnumeral, hread⟩ :=
          readAs_int (hwrites (.int n) (List.mem_singleton_self _))
        exact ⟨.number numeral, by rw [writtenTree, hnumeral, Option.map_some], hread⟩
    | float x =>
        obtain ⟨numeral, hnumeral, hread⟩ :=
          readAs_float hhooks (hwrites (.float x) (List.mem_singleton_self _))
        exact ⟨.number numeral, by rw [writtenTree, hnumeral, Option.map_some], hread⟩
    | list items => cases hleaf
    | dict items => cases hleaf
  case list =>
    intro items ih hkeys hwrites
    obtain ⟨trees, htrees, hdepth, hproper, hvalue⟩ := ih hkeys hwrites
    refine ⟨.list trees, by rw [writtenTree, htrees, Option.map_some],
      congrArg (· + 1) hdepth, hproper, ?_⟩
    rw [treeOf, Hooks.value, hvalue]
    rfl
  case dict =>
    intro items ih hkeys hwrites
    rw [JsonValue.distinctKeys, Bool.and_eq_true, decide_eq_true_eq] at hkeys
    obtain ⟨trees, htrees, hdepth, hproper, hvalue⟩ := ih hkeys.2 hwrites
    refine ⟨.dict trees, by rw [writtenTree, htrees, Option.map_some],
      congrArg (· + 1) hdepth, hproper, ?_⟩
    rw [treeOf, Hooks.value, hvalue [] hkeys.1]
    rfl
  case nil =>
    intro _ _
    exact ⟨[], rfl, rfl, by simp [Json.Tree.numeralsItems], rfl⟩
  case cons =>
    intro item items hitem hitems hkeys hwrites
    rw [JsonValue.distinctItems, Bool.and_eq_true] at hkeys
    obtain ⟨tree, htree, hread⟩ :=
      hitem hkeys.1 fun leaf hleaf => hwrites leaf (List.mem_append_left _ hleaf)
    obtain ⟨more, hmore, hdepth, hproper, hvalue⟩ :=
      hitems hkeys.2 fun leaf hleaf => hwrites leaf (List.mem_append_right _ hleaf)
    refine ⟨tree :: more, ?_, ?_, ?_, ?_⟩
    · rw [writtenItems, htree, hmore]
      rfl
    · rw [Json.Tree.depthItems, JsonValue.depthItems, hread.depth, hdepth]
    · intro numeral hmem
      exact (List.mem_append.1 hmem).elim (hread.proper numeral) (hproper numeral)
    · rw [treesOf, Hooks.valueItems, hread.value, hvalue]
      rfl
  case noField =>
    intro _ _
    refine ⟨[], rfl, rfl, by simp [Json.Tree.numeralsFields], fun before _ => ?_⟩
    rw [fieldTreesOf, Hooks.valueFields, List.append_nil]
  case field =>
    intro key value items hvalue hitems hkeys hwrites
    rw [JsonValue.distinctFields, Bool.and_eq_true] at hkeys
    obtain ⟨tree, htree, hread⟩ :=
      hvalue hkeys.1 fun leaf hleaf => hwrites leaf (List.mem_append_left _ hleaf)
    obtain ⟨more, hmore, hdepth, hproper, hmoreValue⟩ :=
      hitems hkeys.2 fun leaf hleaf => hwrites leaf (List.mem_append_right _ hleaf)
    refine ⟨(key, tree) :: more, ?_, ?_, ?_, fun before hnodup => ?_⟩
    · rw [writtenFields, htree, hmore]
      rfl
    · rw [Json.Tree.depthFields, JsonValue.depthFields, hread.depth, hdepth]
    · intro numeral hmem
      exact (List.mem_append.1 hmem).elim (hread.proper numeral) (hproper numeral)
    · -- the key is new, so its value goes to the end
      have hnew : key ∉ before.map Prod.fst := by
        intro hmem
        rw [List.map_append, List.nodup_append] at hnodup
        exact hnodup.2.2 key hmem key List.mem_cons_self rfl
      rw [List.append_cons] at hnodup ⊢
      rw [fieldTreesOf, Hooks.valueFields, hread.value]
      show hooks.valueFields (Dict.setEntries key value before) (fieldTreesOf more) = _
      rw [Dict.setEntries_of_not_mem value hnew, hmoreValue _ hnodup]

end Written

/-! ## Sorted keys -/

section Sorted

/-- Sorting keeps the items. -/
theorem perm_sortItems {α : Type} (items : List (String × α)) : (sortItems items).Perm items :=
  List.mergeSort_perm _ _

variable {items items' : List (String × JsonValue)}

theorem depthFields_perm (h : items.Perm items') :
    JsonValue.depthFields items = JsonValue.depthFields items' := by
  induction h with
  | nil => rfl
  | cons item _ ih => rw [JsonValue.depthFields, JsonValue.depthFields, ih]
  | swap item item' items =>
      simp only [JsonValue.depthFields]
      omega
  | trans _ _ ih ih' => rw [ih, ih']

theorem mem_scalarsFields {leaf : JsonValue} :
    leaf ∈ JsonValue.scalarsFields items ↔ ∃ item ∈ items, leaf ∈ item.2.scalars := by
  induction items with
  | nil => simp [JsonValue.scalarsFields]
  | cons item items ih =>
      rw [JsonValue.scalarsFields, List.mem_append, ih, List.exists_mem_cons_iff]

theorem distinctFields_iff :
    JsonValue.distinctFields items = true ↔ ∀ item ∈ items, item.2.distinctKeys = true := by
  induction items with
  | nil => simp [JsonValue.distinctFields]
  | cons item items ih =>
      rw [JsonValue.distinctFields, Bool.and_eq_true, ih, List.forall_mem_cons]

theorem map_fst_sortedKeysFields (items : List (String × JsonValue)) :
    (sortedKeysFields items).map Prod.fst = items.map Prod.fst := by
  induction items with
  | nil => rfl
  | cons item items ih => rw [sortedKeysFields, List.map_cons, List.map_cons, ih]

/-- A value in another order: as deep, with the same leaves. -/
structure Reordered (value value' : JsonValue) : Prop where
  depth : value'.depth = value.depth
  scalars : ∀ leaf, leaf ∈ value'.scalars ↔ leaf ∈ value.scalars
  distinct : value.distinctKeys = true → value'.distinctKeys = true

/-- A value with its keys sorted is the value reordered. -/
theorem reordered_sortedKeys (value : JsonValue) : Reordered value (sortedKeys value) := by
  refine @JsonValue.induction (fun value => Reordered value (sortedKeys value))
    (fun items => JsonValue.depthItems (sortedKeysItems items) = JsonValue.depthItems items ∧
      (∀ x, x ∈ JsonValue.scalarsItems (sortedKeysItems items) ↔ x ∈ JsonValue.scalarsItems items) ∧
      (JsonValue.distinctItems items = true →
        JsonValue.distinctItems (sortedKeysItems items) = true))
    (fun items => JsonValue.depthFields (sortedKeysFields items) = JsonValue.depthFields items ∧
      (∀ x, x ∈ JsonValue.scalarsFields (sortedKeysFields items) ↔
        x ∈ JsonValue.scalarsFields items) ∧
      (JsonValue.distinctFields items = true →
        JsonValue.distinctFields (sortedKeysFields items) = true))
    ?leaf ?list ?dict ?nil ?cons ?noField ?field value
  case leaf =>
    intro value hleaf
    cases value with
    | list items => cases hleaf
    | dict items => cases hleaf
    | _ => exact ⟨rfl, fun x => Iff.rfl, id⟩
  case list =>
    intro items ih
    exact ⟨congrArg (· + 1) ih.1, ih.2.1, ih.2.2⟩
  case dict =>
    intro items ih
    have hperm := perm_sortItems (sortedKeysFields items)
    refine ⟨congrArg (· + 1) ((depthFields_perm hperm).trans ih.1), fun x => ?_, fun h => ?_⟩
    · rw [sortedKeys, JsonValue.scalars, JsonValue.scalars, ← ih.2.1 x, mem_scalarsFields,
        mem_scalarsFields]
      simp only [hperm.mem_iff]
    · rw [JsonValue.distinctKeys, Bool.and_eq_true, decide_eq_true_eq] at h
      have hfields := distinctFields_iff.1 (ih.2.2 h.2)
      rw [sortedKeys, JsonValue.distinctKeys, Bool.and_eq_true, decide_eq_true_eq,
        (hperm.map Prod.fst).nodup_iff, map_fst_sortedKeysFields]
      exact ⟨h.1, distinctFields_iff.2 fun item hitem => hfields item (hperm.mem_iff.1 hitem)⟩
  case nil => exact ⟨rfl, fun x => Iff.rfl, id⟩
  case cons =>
    intro item items hitem hitems
    refine ⟨?_, fun x => ?_, fun h => ?_⟩
    · rw [sortedKeysItems, JsonValue.depthItems, JsonValue.depthItems, hitem.depth, hitems.1]
    · rw [sortedKeysItems, JsonValue.scalarsItems, JsonValue.scalarsItems, List.mem_append,
        List.mem_append, hitem.scalars, hitems.2.1]
    · rw [JsonValue.distinctItems, Bool.and_eq_true] at h
      rw [sortedKeysItems, JsonValue.distinctItems, hitem.distinct h.1, hitems.2.2 h.2]
      rfl
  case noField => exact ⟨rfl, fun x => Iff.rfl, id⟩
  case field =>
    intro key value items hvalue hitems
    refine ⟨?_, fun x => ?_, fun h => ?_⟩
    · rw [sortedKeysFields, JsonValue.depthFields, JsonValue.depthFields, hvalue.depth, hitems.1]
    · rw [sortedKeysFields, JsonValue.scalarsFields, JsonValue.scalarsFields, List.mem_append,
        List.mem_append, hvalue.scalars, hitems.2.1]
    · rw [JsonValue.distinctFields, Bool.and_eq_true] at h
      rw [sortedKeysFields, JsonValue.distinctFields, hvalue.distinct h.1, hitems.2.2 h.2]
      rfl

theorem reordered_order (options : DumpsOptions) (value : JsonValue) :
    Reordered value (options.order value) := by
  unfold DumpsOptions.order
  split
  · exact reordered_sortedKeys value
  · exact ⟨rfl, fun x => Iff.rfl, id⟩

end Sorted

/-! ## Texts -/

section Dumpable

variable {text : FloatText} {n : ℕ}

/-- **A value of the language that has a text**, nested no deeper than `n`. -/
structure Dumpable (text : FloatText) (n : ℕ) (value : JsonValue) : Prop where
  keys : value.distinctKeys = true
  writes : ∀ leaf ∈ value.scalars, text.Writes leaf
  depth : value.depth ≤ n

/-- A value without parts has a text where its number has one. -/
theorem dumpable_leaf {value : JsonValue} (hleaf : value.isLeaf = true) (h : text.Writes value) :
    Dumpable text n value := by
  cases value with
  | list items => cases hleaf
  | dict items => cases hleaf
  | _ =>
      refine ⟨rfl, fun leaf hmem => ?_, Nat.zero_le n⟩
      rw [List.mem_singleton.1 hmem]
      exact h

theorem Dumpable.mono {m : ℕ} {value : JsonValue} (h : Dumpable text n value) (hle : n ≤ m) :
    Dumpable text m value := ⟨h.keys, h.writes, h.depth.trans hle⟩

/-- A list has a text where its items have. -/
theorem Dumpable.list {items : List JsonValue} (h : ∀ item ∈ items, Dumpable text n item) :
    Dumpable text (n + 1) (.list items) := by
  have hitems : JsonValue.distinctItems items = true ∧
      (∀ leaf ∈ JsonValue.scalarsItems items, text.Writes leaf) ∧
      JsonValue.depthItems items ≤ n := by
    induction items with
    | nil => exact ⟨rfl, by simp [JsonValue.scalarsItems], Nat.zero_le n⟩
    | cons item items ih =>
        obtain ⟨hkeys, hwrites, hdepth⟩ :=
          ih fun item hitem => h item (List.mem_cons_of_mem _ hitem)
        have hitem := h item List.mem_cons_self
        refine ⟨?_, fun leaf hleaf => ?_, max_le hitem.depth hdepth⟩
        · rw [JsonValue.distinctItems, hitem.keys, hkeys]
          rfl
        · exact (List.mem_append.1 hleaf).elim (hitem.writes leaf) (hwrites leaf)
  exact ⟨hitems.1, hitems.2.1, Nat.succ_le_succ hitems.2.2⟩

/-- And an object where its values have. -/
theorem Dumpable.dict {items : List (String × JsonValue)} (hkeys : (items.map Prod.fst).Nodup)
    (h : ∀ item ∈ items, Dumpable text n item.2) : Dumpable text (n + 1) (.dict items) := by
  have hdepth : JsonValue.depthFields items ≤ n := by
    clear hkeys
    induction items with
    | nil => exact Nat.zero_le n
    | cons item items ih =>
        exact max_le (h item List.mem_cons_self).depth
          (ih fun item hitem => h item (List.mem_cons_of_mem _ hitem))
  refine ⟨?_, fun leaf hleaf => ?_, Nat.succ_le_succ hdepth⟩
  · rw [JsonValue.distinctKeys, Bool.and_eq_true, decide_eq_true_eq, distinctFields_iff]
    exact ⟨hkeys, fun item hitem => (h item hitem).keys⟩
  · obtain ⟨item, hitem, hleaf⟩ := mem_scalarsFields.1 hleaf
    exact (h item hitem).writes leaf hleaf

end Dumpable

section Texts

variable {text : FloatText} {value : JsonValue} {blanks : String} {limit : ℕ}
  (options : DumpsOptions) (unread : String → Reading)

/-- **A value is dumped, and the text is read**, as deep as the parser goes,
whatever blanks follow. -/
theorem read_dumps (h : Dumpable text limit value)
    (hblanks : ∀ c ∈ blanks.toList, Json.isBlank c = true) :
    ∃ source, dumps text options value = some source ∧
      ∀ hooks : Hooks, hooks.Converts text →
        hooks.loads ((scanner text limit unread).read (source ++ blanks)) =
          .ok (options.order value) := by
  have horder := reordered_order options value
  have hread : ∀ hooks : Hooks, hooks.Converts text → ∃ tree,
      writtenTree text options.allowNan (options.order value) = some tree ∧
        ReadAs hooks (options.order value) tree :=
    fun hooks hhooks => readAs_writtenTree hhooks _ (horder.distinct h.keys)
      fun leaf hleaf => h.writes leaf ((horder.scalars leaf).1 hleaf)
  obtain ⟨tree, htree, hlimit, hproper, -⟩ := hread _ (converts_plainHooks text)
  rw [horder.depth] at hlimit
  have hscan := Json.scan_write options.style (hlimit.trans_le h.depth) hproper hblanks
  have hvalue : (scanner text limit unread).read
      (.ofList (Json.write options.style 0 tree) ++ blanks) = .value (treeOf tree) := by
    simp only [scanner, String.toList_append, String.toList_ofList, hscan]
  refine ⟨.ofList (Json.write options.style 0 tree), by rw [dumps, htree, Option.map_some],
    fun hooks hhooks => ?_⟩
  obtain ⟨tree', htree', hread'⟩ := hread hooks hhooks
  obtain rfl := Option.some.inj (htree.symm.trans htree')
  rw [hvalue]
  exact hread'.value

theorem decodeUtf8_encodeUtf8 (source : String) : decodeUtf8 (encodeUtf8 source) = some source :=
  decodeUtf8_encoded source

/-- `parse_json` of it. -/
theorem parseJson_dumps (h : Dumpable text limit value)
    (hblanks : ∀ c ∈ blanks.toList, Json.isBlank c = true) :
    ∃ source, dumps text options value = some source ∧
      parseJson (scanner text limit unread).strict (encodeUtf8 (source ++ blanks)) =
        if value.depth ≤ maxDepth then .ok (options.order value)
        else .error (.notJson "Nested too deep") := by
  obtain ⟨source, hsource, hread⟩ := read_dumps options unread h hblanks
  refine ⟨source, hsource, ?_⟩
  have hloads : (scanner text limit unread).strict.loads (source ++ blanks) =
      .ok (options.order value) := hread _ (converts_strictHooks text)
  have hdecode : (scanner text limit unread).strict.decode (encodeUtf8 (source ++ blanks)) =
      some (source ++ blanks) := decodeUtf8_encodeUtf8 _
  simp only [parseJson, hdecode, hloads]
  rw [checked_eq _ 0 (Nat.zero_le _), (reordered_order options value).depth, Nat.zero_add]

/-- **What is dumped is loaded**, whatever the style: `json.loads` gives the
value, its keys in the order they were written in, and so does `parse_json`
where the value nests no deeper than `MAX_DEPTH`; a deeper one it refuses. -/
theorem dumps_loads (text : FloatText) (options : DumpsOptions) (limit : ℕ)
    (unread : String → Reading) (value : JsonValue) (blanks : String)
    (h : Dumpable text limit value) (hblanks : ∀ c ∈ blanks.toList, Json.isBlank c = true) :
    ∃ source, dumps text options value = some source ∧
      (scanner text limit unread).plain (source ++ blanks) = .ok (options.order value) ∧
      parseJson (scanner text limit unread).strict (encodeUtf8 (source ++ blanks)) =
        if value.depth ≤ maxDepth then .ok (options.order value)
        else .error (.notJson "Nested too deep") := by
  obtain ⟨source, hsource, hread⟩ := read_dumps options unread h hblanks
  obtain ⟨source', hsource', hparse⟩ := parseJson_dumps options unread h hblanks
  obtain rfl := Option.some.inj (hsource.symm.trans hsource')
  exact ⟨source, hsource, hread _ (converts_plainHooks text), hparse⟩

/-- A double and its text, as the language has them. -/
def halfText : FloatText where
  repr _ := "0.5"
  float _ := .finite (1 / 2)

theorem writes_half : halfText.Writes (.float (.finite (1 / 2))) :=
  ⟨1 / 2, rfl, by decide, rfl⟩

/-- A file of one double. -/
theorem dumps_loads_half :
    ∃ source, dumps halfText storeOptions (.dict [("b", .list [.float (.finite (1 / 2))])]) =
        some source ∧
      (scanner halfText 2 fun _ => .stopped [] .badSyntax).plain (source ++ "\n") =
        .ok (.dict [("b", .list [.float (.finite (1 / 2))])]) ∧
      parseJson (scanner halfText 2 fun _ => .stopped [] .badSyntax).strict
          (encodeUtf8 (source ++ "\n")) =
        .ok (.dict [("b", .list [.float (.finite (1 / 2))])]) := by
  have hdumpable : Dumpable halfText 2 (.dict [("b", .list [.float (.finite (1 / 2))])]) :=
    .dict (List.nodup_singleton _) fun item hitem => by
      rw [List.mem_singleton.1 hitem]
      refine .list fun leaf hleaf => ?_
      rw [List.mem_singleton.1 hleaf]
      exact dumpable_leaf rfl writes_half
  obtain ⟨source, hsource, hplain, hparse⟩ := dumps_loads halfText storeOptions 2
    (fun _ => .stopped [] .badSyntax) _ "\n" hdumpable (by simp [Json.isBlank])
  rw [if_pos (by decide)] at hparse
  exact ⟨source, hsource, hplain, hparse⟩

end Texts

end Capture

end Tydomio
