import Mathlib.Data.List.Induction
import Mathlib.Data.List.Nodup

/-!
# Insertion-ordered dictionaries

A dictionary that remembers the order in which its keys were first
inserted: writing a key it holds keeps the key's place, writing a new one
appends it. Mathlib's `AList` moves a rewritten key to the front, so its
order is the one thing it cannot carry. The keys' distinctness is a field,
so a dictionary that holds a key twice cannot be built.

`get?_set`, `get?_filter` and `get?_ofList` are the equations everything
else reads a dictionary through.
-/

namespace Common

/-- **A dictionary in insertion order.** -/
structure Dict (K V : Type*) where
  /-- The items, oldest key first. -/
  entries : List (K × V)
  nodup : (entries.map Prod.fst).Nodup

namespace Dict

variable {K V : Type*}

@[ext] theorem ext {d e : Dict K V} (h : d.entries = e.entries) : d = e := by
  cases d; cases e; cases h; rfl

instance [DecidableEq K] [DecidableEq V] : DecidableEq (Dict K V) := fun d e =>
  decidable_of_iff (d.entries = e.entries) ⟨ext, fun h => h ▸ rfl⟩

/-- No item. -/
def empty : Dict K V := ⟨[], List.nodup_nil⟩

instance : EmptyCollection (Dict K V) := ⟨empty⟩

/-- The keys, in insertion order. -/
def keys (d : Dict K V) : List K := d.entries.map Prod.fst

/-- The values, in the order of their keys. -/
def values (d : Dict K V) : List V := d.entries.map Prod.snd

/-- The items whose key and value pass a test, in the same order. -/
def filter (p : K → V → Bool) (d : Dict K V) : Dict K V :=
  ⟨d.entries.filter fun e => p e.1 e.2,
    d.nodup.sublist (List.Sublist.map _ List.filter_sublist)⟩

instance : Membership K (Dict K V) := ⟨fun d k => k ∈ d.keys⟩

theorem mem_def {d : Dict K V} {k : K} : k ∈ d ↔ k ∈ d.entries.map Prod.fst := Iff.rfl

variable [DecidableEq K]

/-- The value under a key. -/
def get? (d : Dict K V) (k : K) : Option V := d.entries.lookup k

/-- Whether a key is present. -/
def contains (d : Dict K V) (k : K) : Bool := (d.get? k).isSome

/-- The dictionary without a key. -/
def erase (d : Dict K V) (k : K) : Dict K V := d.filter fun k' _ => k' ≠ k

/-- What `set` does to the items: the key's own place if it has one, the
end otherwise. -/
def setEntries (k : K) (v : V) : List (K × V) → List (K × V)
  | [] => [(k, v)]
  | e :: es => if e.1 = k then (k, v) :: es else e :: setEntries k v es

theorem map_fst_setEntries (k : K) (v : V) (es : List (K × V)) :
    (setEntries k v es).map Prod.fst =
      if k ∈ es.map Prod.fst then es.map Prod.fst else es.map Prod.fst ++ [k] := by
  induction es with
  | nil => simp [setEntries]
  | cons e es ih =>
      by_cases h : e.1 = k
      · simp [setEntries, h]
      · have hk : ¬ k = e.1 := fun hk => h hk.symm
        simp only [setEntries, if_neg h, List.map_cons, ih, List.mem_cons, hk, false_or]
        split <;> rfl

/-- The dictionary with a key written. -/
def set (d : Dict K V) (k : K) (v : V) : Dict K V :=
  ⟨setEntries k v d.entries, by
    rw [map_fst_setEntries]
    split
    · exact d.nodup
    · rename_i h
      rw [List.nodup_append]
      exact ⟨d.nodup, List.nodup_singleton k, fun a ha b hb hab =>
        h (by rw [List.mem_singleton] at hb; rw [← hb, ← hab]; exact ha)⟩⟩

theorem setEntries_of_not_mem {k : K} (v : V) {es : List (K × V)} (h : k ∉ es.map Prod.fst) :
    setEntries k v es = es ++ [(k, v)] := by
  induction es with
  | nil => rfl
  | cons e es ih =>
      rw [List.map_cons, List.mem_cons, not_or] at h
      rw [setEntries, if_neg (Ne.symm h.1), ih h.2, List.cons_append]

/-- A new key goes to the end. -/
theorem entries_set_of_not_mem {d : Dict K V} {k : K} (v : V) (h : k ∉ d) :
    (d.set k v).entries = d.entries ++ [(k, v)] :=
  setEntries_of_not_mem v h

/-- New keys, each once, go to the end in their order. -/
theorem entries_foldl_set {es : List (K × V)} {d : Dict K V} (hnodup : (es.map Prod.fst).Nodup)
    (hnew : ∀ e ∈ es, e.1 ∉ d) :
    (es.foldl (fun d e => d.set e.1 e.2) d).entries = d.entries ++ es := by
  induction es generalizing d with
  | nil => rw [List.foldl_nil, List.append_nil]
  | cons e es ih =>
      rw [List.map_cons, List.nodup_cons] at hnodup
      have hentries := entries_set_of_not_mem e.2 (hnew e List.mem_cons_self)
      have hfresh : ∀ e' ∈ es, e'.1 ∉ d.set e.1 e.2 := by
        intro e' he' hmem
        rw [mem_def, hentries, List.map_append, List.mem_append] at hmem
        refine hmem.elim (hnew e' (List.mem_cons_of_mem _ he')) fun hsame => hnodup.1 ?_
        rw [List.map_singleton, List.mem_singleton] at hsame
        rw [← hsame]
        exact List.mem_map_of_mem he'
      rw [List.foldl_cons, ih hnodup.2 hfresh, hentries, List.append_assoc, List.singleton_append]

/-- Write each pair in turn: the last of a key wins, its first fixes the
place. -/
def ofList (es : List (K × V)) : Dict K V := es.foldl (fun d e => d.set e.1 e.2) ∅

/-- Pairs of distinct keys are the items. -/
theorem entries_ofList {es : List (K × V)} (h : (es.map Prod.fst).Nodup) :
    (ofList es).entries = es :=
  entries_foldl_set h fun _ _ hmem => List.not_mem_nil hmem

/-- Write, for each pair in turn whose key passes a test, the value that `f`
gives of the one under the key so far. -/
def upsertAll {A : Type*} (p : K → Bool) (f : Option V → A → V) (items : List (K × A))
    (d : Dict K V) : Dict K V :=
  items.foldl (fun d e => if p e.1 then d.set e.1 (f (d.get? e.1) e.2) else d) d

/-- What a list of pairs holds under a key, in order. -/
def itemsOf {A : Type*} (k : K) (items : List (K × A)) : List A :=
  (items.filter fun e => e.1 = k).map Prod.snd

/-! ## Reading what was written -/

@[simp] theorem get?_empty (k : K) : (∅ : Dict K V).get? k = none := rfl

theorem lookup_cons_eq (e : K × V) (es : List (K × V)) (k : K) :
    (e :: es).lookup k = if k = e.1 then some e.2 else es.lookup k := by
  rw [List.lookup_cons]
  by_cases h : k = e.1
  · simp [h]
  · have hb : (k == e.1) = false := by simpa using h
    rw [hb, if_neg h]

theorem lookup_setEntries (k k' : K) (v : V) (es : List (K × V)) :
    (setEntries k v es).lookup k' = if k' = k then some v else es.lookup k' := by
  induction es with
  | nil => simp only [setEntries, lookup_cons_eq]
  | cons e es ih =>
      by_cases h : e.1 = k
      · by_cases hk : k' = k <;> simp [setEntries, lookup_cons_eq, h, hk]
      · simp only [setEntries, if_neg h, lookup_cons_eq, ih]
        by_cases hk : k' = k
        · have hne : ¬ k' = e.1 := fun he => h (he.symm.trans hk)
          simp only [if_neg hne, if_pos hk]
        · simp only [if_neg hk]

theorem get?_set (d : Dict K V) (k k' : K) (v : V) :
    (d.set k v).get? k' = if k' = k then some v else d.get? k' :=
  lookup_setEntries k k' v d.entries

@[simp] theorem get?_set_self (d : Dict K V) (k : K) (v : V) :
    (d.set k v).get? k = some v := by rw [get?_set, if_pos rfl]

theorem get?_set_of_ne (d : Dict K V) {k k' : K} (v : V) (h : k' ≠ k) :
    (d.set k v).get? k' = d.get? k' := by rw [get?_set, if_neg h]

/-- A key's value, as an item of the list: distinctness makes it the only
one. -/
theorem get?_eq_some_iff {d : Dict K V} {k : K} {v : V} :
    d.get? k = some v ↔ (k, v) ∈ d.entries := by
  obtain ⟨es, hes⟩ := d
  change es.lookup k = some v ↔ (k, v) ∈ es
  induction es with
  | nil => simp
  | cons e es ih =>
      obtain ⟨ek, ev⟩ := e
      simp only [List.map_cons, List.nodup_cons] at hes
      rw [lookup_cons_eq]
      by_cases hk : k = ek
      · subst hk
        have hno : (k, v) ∉ es := fun h => hes.1 (List.mem_map_of_mem h)
        simp [hno, eq_comm]
      · simp only [List.mem_cons, Prod.mk.injEq, hk, false_and, false_or]
        exact ih hes.2

theorem mem_values {d : Dict K V} {v : V} : v ∈ d.values ↔ ∃ k, d.get? k = some v := by
  simp only [get?_eq_some_iff, values, List.mem_map, Prod.exists, exists_eq_right]

theorem mem_iff {d : Dict K V} {k : K} : k ∈ d ↔ ∃ v, d.get? k = some v := by
  simp only [mem_def, List.mem_map, Prod.exists, exists_and_right, exists_eq_right,
    get?_eq_some_iff]

theorem get?_eq_none_iff {d : Dict K V} {k : K} : d.get? k = none ↔ k ∉ d := by
  rw [mem_iff, Option.eq_none_iff_forall_ne_some, not_exists]

@[simp] theorem contains_iff {d : Dict K V} {k : K} : d.contains k = true ↔ k ∈ d := by
  rw [contains, Option.isSome_iff_exists, mem_iff]

instance (d : Dict K V) (k : K) : Decidable (k ∈ d) := decidable_of_iff _ contains_iff

theorem eq_empty_iff {d : Dict K V} : d = ∅ ↔ ∀ k v, d.get? k ≠ some v := by
  refine ⟨fun h k v => by rw [h, get?_empty]; nofun, fun h => ext ?_⟩
  refine List.eq_nil_iff_forall_not_mem.2 fun e he => h e.1 e.2 ?_
  exact get?_eq_some_iff.2 he

theorem get?_filter (p : K → V → Bool) (d : Dict K V) (k : K) :
    (d.filter p).get? k = (d.get? k).filter (p k) := by
  ext v
  rw [Option.filter_eq_some_iff, get?_eq_some_iff, get?_eq_some_iff]
  simp [filter]

/-- A test of the key alone. -/
theorem get?_filter_key (p : K → Bool) (d : Dict K V) (k : K) :
    (d.filter fun k _ => p k).get? k = if p k then d.get? k else none := by
  rw [get?_filter]
  cases d.get? k <;> simp [Option.filter]

theorem get?_erase (d : Dict K V) (k k' : K) :
    (d.erase k).get? k' = if k' = k then none else d.get? k' := by
  rw [erase, get?_filter]
  by_cases h : k' = k
  · cases d.get? k' <;> simp [h]
  · cases d.get? k' <;> simp [h]

/-- Writing the pairs of a list over a dictionary: the last pair of the key
decides, and the dictionary where the list has none. -/
theorem get?_foldl_set (es : List (K × V)) (d : Dict K V) (k : K) :
    (es.foldl (fun d e => d.set e.1 e.2) d).get? k = (es.reverse.lookup k).or (d.get? k) := by
  induction es generalizing d with
  | nil => simp
  | cons e es ih =>
      rw [List.foldl_cons, ih, get?_set, List.reverse_cons, List.lookup_append, lookup_cons_eq]
      by_cases hk : k = e.1
      · simp only [if_pos hk, Option.or_assoc, Option.some_or]
      · simp only [if_neg hk, List.lookup_nil, Option.or_none]

/-- The last pair of the key decides. -/
theorem get?_ofList (es : List (K × V)) (k : K) :
    (ofList es).get? k = es.reverse.lookup k := by
  rw [ofList, get?_foldl_set, get?_empty, Option.or_none]

/-- What is under a key is a pair of the list. -/
theorem mem_of_get?_ofList {es : List (K × V)} {k : K} {v : V} (h : (ofList es).get? k = some v) :
    (k, v) ∈ es := by
  rw [get?_ofList] at h
  have hmem : ∀ l : List (K × V), l.lookup k = some v → (k, v) ∈ l := by
    intro l hl
    induction l with
    | nil => cases hl
    | cons e l ih =>
        rw [lookup_cons_eq] at hl
        split at hl
        · rename_i hk
          rw [hk, ← Option.some.inj hl]
          exact List.mem_cons_self
        · exact List.mem_cons_of_mem _ (ih hl)
  exact List.mem_reverse.1 (hmem _ h)

/-- A dictionary made of the values of another that give one. -/
theorem get?_ofList_filterMap {W : Type*} (d : Dict K V) (g : V → Option W) (k : K) :
    (ofList (d.entries.filterMap fun e => (g e.2).map (e.1, ·))).get? k = (d.get? k).bind g := by
  have hkeys : (d.entries.filterMap fun e => (g e.2).map (e.1, ·)).map Prod.fst =
      (d.entries.filter fun e => (g e.2).isSome).map Prod.fst := by
    rw [List.map_filterMap, ← List.filterMap_eq_map, ← List.filterMap_eq_filter,
      List.filterMap_filterMap]
    refine List.filterMap_congr fun e _ => ?_
    cases hg : g e.2 <;> simp [hg, Option.guard]
  have hnodup : ((d.entries.filterMap fun e => (g e.2).map (e.1, ·)).map Prod.fst).Nodup := by
    rw [hkeys]
    exact d.nodup.sublist (List.filter_sublist.map _)
  ext w
  rw [get?_eq_some_iff, entries_ofList hnodup, List.mem_filterMap, Option.bind_eq_some_iff]
  constructor
  · rintro ⟨⟨k', v⟩, hmem, heq⟩
    obtain ⟨w', hw, heq⟩ := Option.map_eq_some_iff.1 heq
    cases heq
    exact ⟨v, get?_eq_some_iff.2 hmem, hw⟩
  · rintro ⟨v, hv, hw⟩
    exact ⟨(k, v), get?_eq_some_iff.1 hv, by rw [hw]; rfl⟩

/-- A dictionary with its values changed. -/
theorem get?_ofList_map {W : Type*} (d : Dict K V) (g : V → W) (k : K) :
    (ofList (d.entries.map fun e => (e.1, g e.2))).get? k = (d.get? k).map g := by
  have h := get?_ofList_filterMap d (fun v => some (g v)) k
  rw [← List.filterMap_eq_map, Option.map_eq_bind]
  exact h

theorem mem_itemsOf {A : Type*} {k : K} {items : List (K × A)} {x : A} :
    x ∈ itemsOf k items ↔ (k, x) ∈ items := by
  rw [itemsOf, List.mem_map]
  constructor
  · rintro ⟨⟨k', x'⟩, hmem, rfl⟩
    obtain ⟨hitem, hkey⟩ := List.mem_filter.1 hmem
    rw [← of_decide_eq_true hkey]
    exact hitem
  · exact fun h => ⟨(k, x), List.mem_filter.2 ⟨h, decide_eq_true rfl⟩, rfl⟩

theorem itemsOf_map {A B : Type*} (f : A → K) (g : A → B) (l : List A) (k : K) :
    itemsOf k (l.map fun a => (f a, g a)) = (l.filter fun a => f a = k).map g := by
  rw [itemsOf, List.filter_map, List.map_map]
  rfl

theorem lookup_eq_head?_itemsOf (es : List (K × V)) (k : K) :
    es.lookup k = (itemsOf k es).head? := by
  induction es with
  | nil => rfl
  | cons e es ih =>
      rw [lookup_cons_eq, ih]
      by_cases hk : k = e.1
      · simp [itemsOf, hk]
      · have hne : ¬ e.1 = k := fun h => hk h.symm
        simp [itemsOf, hk, hne]

/-- The same, in what the list holds under the key. -/
theorem get?_ofList_eq_getLast? (es : List (K × V)) (k : K) :
    (ofList es).get? k = (itemsOf k es).getLast? := by
  rw [get?_ofList, lookup_eq_head?_itemsOf, itemsOf, List.filter_reverse, List.map_reverse,
    List.head?_reverse]
  rfl

/-- After `upsertAll`, a key that passes the test holds what its own items
make of the value before, one after the other. -/
theorem get?_upsertAll {A : Type*} (p : K → Bool) (f : Option V → A → V) (items : List (K × A))
    (d : Dict K V) (k : K) :
    (upsertAll p f items d).get? k =
      if p k then (itemsOf k items).foldl (fun v a => some (f v a)) (d.get? k)
      else d.get? k := by
  induction items generalizing d with
  | nil => simp [upsertAll, itemsOf]
  | cons e items ih =>
      have hcons : upsertAll p f (e :: items) d =
          upsertAll p f items (if p e.1 then d.set e.1 (f (d.get? e.1) e.2) else d) := rfl
      rw [hcons, ih]
      by_cases hk : e.1 = k
      · rw [← hk]
        by_cases hp : p e.1 = true <;> simp [itemsOf, hp]
      · have hne : k ≠ e.1 := fun h => hk h.symm
        by_cases hp : p e.1 = true <;> simp [itemsOf, hp, hk, get?_set_of_ne _ _ hne]

/-- Of the keys that pass a test, the same is left. -/
theorem setEntries_filter (p : K → Bool) (k : K) (v : V) (es : List (K × V)) :
    (setEntries k v es).filter (fun e => p e.1) =
      if p k then setEntries k v (es.filter fun e => p e.1) else es.filter fun e => p e.1 := by
  induction es with
  | nil => by_cases hk : p k = true <;> simp [setEntries, hk]
  | cons e es ih =>
      rw [setEntries]
      by_cases he : e.1 = k
      · subst he
        by_cases hk : p e.1 = true <;> simp [setEntries, hk]
      · rw [if_neg he, List.filter_cons, ih, List.filter_cons]
        by_cases hp : p e.1 = true
        · by_cases hk : p k = true <;> simp [setEntries, hp, hk, he]
        · by_cases hk : p k = true <;> simp [hp, hk]

theorem entries_ofList_filter (p : K → Bool) (es : List (K × V)) :
    (ofList (es.filter fun e => p e.1)).entries = (ofList es).entries.filter fun e => p e.1 := by
  induction es using List.reverseRecOn with
  | nil => rfl
  | append_singleton es e ih =>
      rw [List.filter_append, ofList, ofList, List.foldl_append, List.foldl_append]
      have hlast : ((ofList es).set e.1 e.2).entries.filter (fun e => p e.1) =
          if p e.1 then setEntries e.1 e.2 ((ofList es).entries.filter fun e => p e.1)
          else (ofList es).entries.filter fun e => p e.1 :=
        setEntries_filter p e.1 e.2 _
      rw [List.foldl_cons, List.foldl_nil, ← ofList, ← ofList, hlast, ← ih]
      by_cases hp : p e.1 = true <;> simp [hp, set]

theorem ofList_filter (p : K → Bool) (es : List (K × V)) :
    ofList (es.filter fun e => p e.1) = (ofList es).filter fun k _ => p k :=
  ext (entries_ofList_filter p es)

theorem mem_ofList {es : List (K × V)} {k : K} : k ∈ ofList es ↔ k ∈ es.map Prod.fst := by
  rw [mem_iff, ← Option.isSome_iff_exists, get?_ofList, List.lookup_isSome_iff]
  simp

end Dict

end Common
