import Tydomio.Common.Numbering
import Tydomio.Capture.Model.Loads

/-!
# The value of a text

What the conversion of a text makes of it: the exception of the first number
that does not convert (`Hooks.value_eq`), or the text filled in with its
numbers, each key once. The depth of the result is that of what is left of
the text, whatever the numbers, and `checked_eq` says that `_checked` bounds
it exactly.
-/

namespace Tydomio

open Common

/-! ## Depth -/

namespace JsonValue

mutual

/-- **How deep lists and objects nest.** -/
def depth : JsonValue → ℕ
  | list items => depthItems items + 1
  | dict items => depthFields items + 1
  | _ => 0

/-- The depth of the deepest item of a list. -/
def depthItems : List JsonValue → ℕ
  | [] => 0
  | item :: items => max (depth item) (depthItems items)

/-- The depth of the deepest value of an object. -/
def depthFields : List (String × JsonValue) → ℕ
  | [] => 0
  | (_, value) :: items => max (depth value) (depthFields items)

end

theorem depth_of_isLeaf {value : JsonValue} (h : value.isLeaf = true) : value.depth = 0 := by
  cases value with
  | list items => cases h
  | dict items => cases h
  | _ => rfl

theorem depthFields_setEntries_le (key : String) (value : JsonValue)
    (items : List (String × JsonValue)) :
    depthFields (Dict.setEntries key value items) ≤ max (depth value) (depthFields items) := by
  induction items with
  | nil => exact le_rfl
  | cons item items ih =>
      obtain ⟨name, old⟩ := item
      rw [Dict.setEntries]
      split
      · rw [depthFields, depthFields]
        omega
      · rw [depthFields, depthFields]
        omega

/-- The same keys, with values of the same depth. -/
def SameDepth (items items' : List (String × JsonValue)) : Prop :=
  List.Forall₂ (fun item item' => item.1 = item'.1 ∧ item.2.depth = item'.2.depth) items items'

theorem SameDepth.depthFields_eq {items items' : List (String × JsonValue)}
    (h : SameDepth items items') : depthFields items = depthFields items' := by
  induction h with
  | nil => rfl
  | @cons item item' items items' hitem _ ih =>
      rw [depthFields, depthFields, hitem.2, ih]

theorem SameDepth.setEntries {items items' : List (String × JsonValue)} {key : String}
    {value value' : JsonValue} (h : SameDepth items items') (hvalue : value.depth = value'.depth) :
    SameDepth (Dict.setEntries key value items) (Dict.setEntries key value' items') :=
  have heq : Relator.BiUnique (@Eq String) :=
    ⟨fun _ _ _ h h' => h.trans h'.symm, fun _ _ _ h h' => h.symm.trans h'⟩
  @Dict.setEntries_rel _ _ _ _ _ _ (@Eq String)
    (fun value value' : JsonValue => value.depth = value'.depth) heq _ _ _ _ _ _ h rfl hvalue

end JsonValue

namespace Capture

/-- **The depth is checked exactly.** -/
theorem checked_eq (value : JsonValue) : ∀ depth ≤ maxDepth, checked depth value =
    if depth + value.depth ≤ maxDepth then .ok value else .error (.notJson "Nested too deep") := by
  refine @JsonValue.induction
    (fun value => ∀ depth ≤ maxDepth, checked depth value =
      if depth + value.depth ≤ maxDepth then .ok value else .error (.notJson "Nested too deep"))
    (fun items => ∀ depth < maxDepth, checkedItems depth items =
      if depth + 1 + JsonValue.depthItems items ≤ maxDepth then .ok items
      else .error (.notJson "Nested too deep"))
    (fun items => ∀ depth < maxDepth, checkedFields depth items =
      if depth + 1 + JsonValue.depthFields items ≤ maxDepth then .ok items
      else .error (.notJson "Nested too deep"))
    ?leaf ?list ?dict ?nil ?cons ?noField ?field value
  case leaf =>
    intro value hleaf depth hdepth
    rw [JsonValue.depth_of_isLeaf hleaf, Nat.add_zero, if_pos hdepth]
    cases value with
    | list items => cases hleaf
    | dict items => cases hleaf
    | _ => rfl
  case list =>
    intro items ih depth hdepth
    rw [checked, JsonValue.depth, Nat.add_comm _ 1, ← Nat.add_assoc]
    by_cases hlt : depth < maxDepth
    · rw [if_neg (Nat.not_le.2 hlt), ih depth hlt]
      split <;> rfl
    · rw [if_pos (Nat.not_lt.1 hlt), if_neg (by omega)]
  case dict =>
    intro items ih depth hdepth
    rw [checked, JsonValue.depth, Nat.add_comm _ 1, ← Nat.add_assoc]
    by_cases hlt : depth < maxDepth
    · rw [if_neg (Nat.not_le.2 hlt), ih depth hlt]
      split <;> rfl
    · rw [if_pos (Nat.not_lt.1 hlt), if_neg (by omega)]
  case nil =>
    intro depth hdepth
    rw [JsonValue.depthItems, if_pos (by omega)]
    rfl
  case cons =>
    intro item items ihitem ih depth hdepth
    rw [checkedItems, ihitem _ hdepth, ih _ hdepth, JsonValue.depthItems]
    by_cases hfirst : depth + 1 + item.depth ≤ maxDepth
    · by_cases hrest : depth + 1 + JsonValue.depthItems items ≤ maxDepth
      · rw [if_pos hfirst, if_pos hrest, if_pos (by omega)]
        rfl
      · rw [if_pos hfirst, if_neg hrest, if_neg (by omega)]
        rfl
    · have hmax : ¬ depth + 1 + max item.depth (JsonValue.depthItems items) ≤ maxDepth := by omega
      rw [if_neg hfirst, if_neg hmax]
      rfl
  case noField =>
    intro depth hdepth
    rw [JsonValue.depthFields, if_pos (by omega)]
    rfl
  case field =>
    intro key item items ihitem ih depth hdepth
    rw [checkedFields, ihitem _ hdepth, ih _ hdepth, JsonValue.depthFields]
    by_cases hfirst : depth + 1 + item.depth ≤ maxDepth
    · by_cases hrest : depth + 1 + JsonValue.depthFields items ≤ maxDepth
      · rw [if_pos hfirst, if_pos hrest, if_pos (by omega)]
        rfl
      · rw [if_pos hfirst, if_neg hrest, if_neg (by omega)]
        rfl
    · have hmax : ¬ depth + 1 + max item.depth (JsonValue.depthFields items) ≤ maxDepth := by omega
      rw [if_neg hfirst, if_neg hmax]
      rfl

/-! ## A text that was read -/

namespace Tree

mutual

/-- **The numbers of a text**, in their order. -/
def numerals : Tree → List Numeral
  | number numeral => [numeral]
  | list items => numeralsItems items
  | dict items => numeralsFields items
  | _ => []

/-- Those of the items of a list. -/
def numeralsItems : List Tree → List Numeral
  | [] => []
  | item :: items => numerals item ++ numeralsItems items

/-- Those of the values of an object. -/
def numeralsFields : List (String × Tree) → List Numeral
  | [] => []
  | (_, item) :: items => numerals item ++ numeralsFields items

end

mutual

/-- **How deep lists and objects nest in a text.** -/
def depth : Tree → ℕ
  | list items => depthItems items + 1
  | dict items => depthFields items + 1
  | _ => 0

/-- The depth of the deepest item of a list. -/
def depthItems : List Tree → ℕ
  | [] => 0
  | item :: items => max (depth item) (depthItems items)

/-- The depth of the deepest value of an object. -/
def depthFields : List (String × Tree) → ℕ
  | [] => 0
  | (_, item) :: items => max (depth item) (depthFields items)

end

section Fill

variable (f : Numeral → JsonValue)

mutual

/-- **The value of a text**, given those of its numbers: of a key that comes
again the last value is left, in the first place. -/
def fill : Tree → JsonValue
  | null => .null
  | bool value => .bool value
  | str value => .str value
  | number numeral => f numeral
  | list items => .list (fillItems items)
  | dict items => .dict (fillFields [] items)

/-- Those of the items of a list. -/
def fillItems : List Tree → List JsonValue
  | [] => []
  | item :: items => fill item :: fillItems items

/-- Those of an object, written into it. -/
def fillFields (written : List (String × JsonValue)) :
    List (String × Tree) → List (String × JsonValue)
  | [] => written
  | (key, item) :: items => fillFields (Dict.setEntries key (fill item) written) items

end

end Fill

/-- What is left of a text, whatever its numbers. -/
def kept (tree : Tree) : JsonValue := tree.fill fun _ => .null

/-! A value depends on the numbers of the text, its depth not even on them. -/

section Congr

variable {f g : Numeral → JsonValue}

mutual

theorem fill_congr : ∀ tree : Tree, (∀ numeral ∈ tree.numerals, f numeral = g numeral) →
    tree.fill f = tree.fill g
  | null, _ => rfl
  | bool _, _ => rfl
  | str _, _ => rfl
  | number numeral, h => h numeral (List.mem_singleton_self _)
  | list items, h => congrArg JsonValue.list (fillItems_congr items h)
  | dict items, h => congrArg JsonValue.dict (fillFields_congr [] items h)

theorem fillItems_congr : ∀ items : List Tree,
    (∀ numeral ∈ numeralsItems items, f numeral = g numeral) → fillItems f items = fillItems g items
  | [], _ => rfl
  | item :: items, h => by
      rw [numeralsItems, List.forall_mem_append] at h
      rw [fillItems, fillItems, fill_congr item h.1, fillItems_congr items h.2]

theorem fillFields_congr (written : List (String × JsonValue)) : ∀ items : List (String × Tree),
    (∀ numeral ∈ numeralsFields items, f numeral = g numeral) →
      fillFields f written items = fillFields g written items
  | [], _ => rfl
  | (key, item) :: items, h => by
      rw [numeralsFields, List.forall_mem_append] at h
      rw [fillFields, fillFields, fill_congr item h.1, fillFields_congr _ items h.2]

end

mutual

theorem depth_fill (h : ∀ numeral, (f numeral).depth = (g numeral).depth) :
    ∀ tree : Tree, (tree.fill f).depth = (tree.fill g).depth
  | null => rfl
  | bool _ => rfl
  | str _ => rfl
  | number numeral => h numeral
  | list items => congrArg (· + 1) (depth_fillItems h items)
  | dict items => congrArg (· + 1) (sameDepth_fillFields h .nil items).depthFields_eq

theorem depth_fillItems (h : ∀ numeral, (f numeral).depth = (g numeral).depth) :
    ∀ items : List Tree,
      JsonValue.depthItems (fillItems f items) = JsonValue.depthItems (fillItems g items)
  | [] => rfl
  | item :: items => by
      rw [fillItems, fillItems, JsonValue.depthItems, JsonValue.depthItems, depth_fill h item,
        depth_fillItems h items]

theorem sameDepth_fillFields (h : ∀ numeral, (f numeral).depth = (g numeral).depth)
    {written written' : List (String × JsonValue)}
    (hwritten : JsonValue.SameDepth written written') : ∀ items : List (String × Tree),
      JsonValue.SameDepth (fillFields f written items) (fillFields g written' items)
  | [] => hwritten
  | (_, item) :: items => sameDepth_fillFields h (hwritten.setEntries (depth_fill h item)) items

end

end Congr

mutual

/-- What is left does not nest deeper than the text. -/
theorem depth_kept_le : ∀ tree : Tree, tree.kept.depth ≤ tree.depth
  | null => le_rfl
  | bool _ => le_rfl
  | str _ => le_rfl
  | number _ => le_rfl
  | list items => Nat.succ_le_succ (depthItems_kept_le items)
  | dict items => Nat.succ_le_succ ((depthFields_kept_le [] items).trans (Nat.zero_max _).le)

theorem depthItems_kept_le : ∀ items : List Tree,
    JsonValue.depthItems (fillItems (fun _ => .null) items) ≤ depthItems items
  | [] => le_rfl
  | item :: items => by
      have hitem := depth_kept_le item
      have hitems := depthItems_kept_le items
      rw [kept] at hitem
      rw [fillItems, JsonValue.depthItems, depthItems]
      omega

theorem depthFields_kept_le (written : List (String × JsonValue)) :
    ∀ items : List (String × Tree),
      JsonValue.depthFields (fillFields (fun _ => .null) written items) ≤
        max (JsonValue.depthFields written) (depthFields items)
  | [] => le_max_left _ _
  | (key, item) :: items => by
      have hitem := depth_kept_le item
      have hset := JsonValue.depthFields_setEntries_le key item.kept written
      have hitems := depthFields_kept_le (Dict.setEntries key item.kept written) items
      rw [fillFields, depthFields]
      rw [kept] at hitem hset hitems
      omega

end

end Tree

/-! ## Conversion -/

namespace Hooks

variable (hooks : Hooks)

/-- The exception of a number that does not convert. -/
def failure (numeral : Numeral) : Option StrictError :=
  match hooks.number numeral with
  | .ok _ => none
  | .error e => some e

/-- The value of a number that converts. -/
def converted (numeral : Numeral) : JsonValue :=
  (hooks.number numeral).toOption.getD .null

/-- The result, unless a number does not convert. -/
def settle {α : Type} (numerals : List Numeral) (result : α) : Except StrictError α :=
  match numerals.findSome? hooks.failure with
  | none => .ok result
  | some e => .error e

variable {hooks}

theorem number_eq (numeral : Numeral) : hooks.number numeral =
    hooks.settle [numeral] (hooks.converted numeral) := by
  rw [settle, List.findSome?_singleton, failure, converted]
  cases hooks.number numeral <;> rfl

theorem settle_map {α β : Type} (numerals : List Numeral) (result : α) (g : α → β) :
    (hooks.settle numerals result).map g = hooks.settle numerals (g result) := by
  rw [settle, settle]
  cases numerals.findSome? hooks.failure <;> rfl

theorem settle_append {α β : Type} (numerals rest : List Numeral) (result : α)
    (next : α → Except StrictError β) (out : β) (h : next result = hooks.settle rest out) :
    (hooks.settle numerals result >>= next) = hooks.settle (numerals ++ rest) out := by
  rw [settle, settle, List.findSome?_append]
  cases numerals.findSome? hooks.failure with
  | none =>
      rw [Option.none_or]
      exact h
  | some e => rfl

mutual

/-- **The value of a text**: that of its numbers, or the exception of the
first that does not convert. -/
theorem value_eq : ∀ tree : Tree,
    hooks.value tree = hooks.settle tree.numerals (tree.fill hooks.converted)
  | .null => rfl
  | .bool _ => rfl
  | .str _ => rfl
  | .number numeral => number_eq numeral
  | .list items => by
      rw [value, valueItems_eq items, settle_map]
      rfl
  | .dict items => by
      rw [value, valueFields_eq [] items, settle_map]
      rfl

theorem valueItems_eq : ∀ items : List Tree, hooks.valueItems items =
    hooks.settle (Tree.numeralsItems items) (Tree.fillItems hooks.converted items)
  | [] => rfl
  | item :: items => by
      rw [valueItems, value_eq item, Tree.numeralsItems]
      refine settle_append _ _ _ _ _ ?_
      have hrest : (hooks.settle (Tree.numeralsItems items)
            (Tree.fillItems hooks.converted items) >>= fun items =>
              pure (Tree.fill hooks.converted item :: items)) =
          hooks.settle (Tree.numeralsItems items ++ []) _ :=
        settle_append _ _ _ _ _ rfl
      rw [valueItems_eq items, hrest, List.append_nil]
      rfl

theorem valueFields_eq (written : List (String × JsonValue)) : ∀ items : List (String × Tree),
    hooks.valueFields written items =
      hooks.settle (Tree.numeralsFields items) (Tree.fillFields hooks.converted written items)
  | [] => rfl
  | (key, item) :: items => by
      rw [valueFields, value_eq item, Tree.numeralsFields]
      refine settle_append _ _ _ _ _ ?_
      exact valueFields_eq _ items

end

theorem settle_eq_ok_iff {α : Type} {numerals : List Numeral} {result out : α} :
    hooks.settle numerals result = .ok out ↔
      (∀ numeral ∈ numerals, hooks.failure numeral = none) ∧ out = result := by
  rw [settle, ← List.findSome?_eq_none_iff]
  cases numerals.findSome? hooks.failure with
  | none => exact ⟨fun h => ⟨rfl, (Except.ok.inj h).symm⟩, fun h => h.2 ▸ rfl⟩
  | some e => exact iff_of_false nofun fun h => nomatch h.1

theorem mapM_eq_settle (numerals : List Numeral) :
    numerals.mapM hooks.number = hooks.settle numerals (numerals.map hooks.converted) := by
  induction numerals with
  | nil => rfl
  | cons numeral numerals ih =>
      have hrest : (hooks.settle numerals (numerals.map hooks.converted) >>= fun values =>
            pure (hooks.converted numeral :: values)) =
          hooks.settle (numerals ++ []) _ :=
        settle_append _ _ _ _ _ rfl
      rw [List.mapM_cons, number_eq]
      refine settle_append [numeral] numerals _ _ _ ?_
      rw [ih, hrest, List.append_nil]
      rfl

end Hooks

end Capture

end Tydomio
