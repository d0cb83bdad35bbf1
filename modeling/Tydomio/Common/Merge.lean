import Tydomio.Common.Dict
import Mathlib.Data.List.Dedup
import Mathlib.Data.List.Induction
import Mathlib.Data.List.Sort

/-!
# Merging items into a dictionary

`Dict.mergeAll` goes through items and writes, under the key of each, what a
function makes of the value there and the item; the function also reports
conflicts. `Dict.mergeAll_spec` is the one induction over the items: where a
step represents the items of a key seen so far, so does the whole run, and
no conflict is reported exactly when the items of every key are consistent.

A sorted set is the list of its members in order (`eq_sortedSet_iff`), so
two listings that agree on members are equal. Where items are compared by a
relation only, two lists are `Matched` when each item of one is related to
one of the other.
-/

namespace Common

/-! ## Sorted listings -/

section Sorted

variable {α : Type*} [LinearOrder α]

/-- The list in order. -/
def sorted (xs : List α) : List α := xs.mergeSort fun a b => decide (a ≤ b)

/-- The members in order, each once. -/
def sortedSet (xs : List α) : List α := sorted xs.dedup

theorem mem_sorted {xs : List α} {a : α} : a ∈ sorted xs ↔ a ∈ xs := List.mem_mergeSort

theorem pairwise_le_sorted (xs : List α) : (sorted xs).Pairwise (· ≤ ·) := by
  have h := @List.pairwise_mergeSort α (fun a b => decide (a ≤ b))
    (by simpa using fun a b c hab hbc => le_trans hab hbc)
    (by simpa using fun a b => le_total a b) xs
  simpa only [decide_eq_true_eq, sorted] using h

/-- A list without repetitions is sorted into increasing order. -/
theorem pairwise_lt_sorted {xs : List α} (h : xs.Nodup) : (sorted xs).Pairwise (· < ·) := by
  have hnodup : (sorted xs).Nodup := (List.mergeSort_perm xs _).nodup_iff.2 h
  exact (pairwise_le_sorted xs).imp₂ (fun _ _ hle hne => lt_of_le_of_ne hle hne) hnodup

@[simp] theorem mem_sortedSet {xs : List α} {a : α} : a ∈ sortedSet xs ↔ a ∈ xs := by
  rw [sortedSet, mem_sorted, List.mem_dedup]

@[simp] theorem sortedSet_nil : sortedSet ([] : List α) = [] := by
  simp [sortedSet, sorted]

theorem pairwise_sortedSet (xs : List α) : (sortedSet xs).Pairwise (· < ·) :=
  pairwise_lt_sorted (List.nodup_dedup xs)

/-- Two increasing lists with the same members are equal. -/
theorem eq_of_pairwise_lt {xs ys : List α} (hxs : xs.Pairwise (· < ·)) (hys : ys.Pairwise (· < ·))
    (h : ∀ a, a ∈ xs ↔ a ∈ ys) : xs = ys := by
  have hperm : xs.Perm ys :=
    (List.perm_ext_iff_of_nodup (hxs.imp ne_of_lt) (hys.imp ne_of_lt)).2 h
  exact hperm.eq_of_pairwise (fun _ _ _ _ hab hba => absurd hba (lt_asymm hab)) hxs hys

/-- **A sorted set is the increasing list of its members.** -/
theorem eq_sortedSet_iff {xs ys : List α} :
    ys = sortedSet xs ↔ ys.Pairwise (· < ·) ∧ ∀ a, a ∈ ys ↔ a ∈ xs := by
  refine ⟨?_, fun ⟨hys, h⟩ => ?_⟩
  · rintro rfl
    exact ⟨pairwise_sortedSet xs, fun a => mem_sortedSet⟩
  · exact eq_of_pairwise_lt hys (pairwise_sortedSet xs) fun a => (h a).trans mem_sortedSet.symm

/-- A sorted set depends on the members only. -/
theorem sortedSet_congr {xs ys : List α} (h : ∀ a, a ∈ xs ↔ a ∈ ys) :
    sortedSet xs = sortedSet ys :=
  eq_sortedSet_iff.2 ⟨pairwise_sortedSet xs, fun a => mem_sortedSet.trans (h a)⟩

/-- Without repetitions sorting gives the sorted set. -/
theorem sorted_eq_sortedSet {xs : List α} (h : xs.Nodup) : sorted xs = sortedSet xs :=
  eq_sortedSet_iff.2 ⟨pairwise_lt_sorted h, fun _ => mem_sorted⟩

variable {β γ : Type*} {f : β → α} {g : γ → α} {xs : List β} {ys : List γ}

/-- A name listed is that of an item. -/
theorem exists_of_listed (h : xs.map f = sortedSet (ys.map g)) {x : β} (hx : x ∈ xs) :
    ∃ y ∈ ys, g y = f x := by
  rw [← List.mem_map, ← mem_sortedSet, ← h]
  exact List.mem_map_of_mem hx

/-- The name of an item is listed. -/
theorem listed_of_mem (h : xs.map f = sortedSet (ys.map g)) {y : γ} (hy : y ∈ ys) :
    ∃ x ∈ xs, f x = g y := by
  rw [← List.mem_map, h, mem_sortedSet]
  exact List.mem_map_of_mem hy

end Sorted

/-! ## Lists up to a relation -/

/-- **Two lists of the same items, up to a relation**: each item of one is
related to one of the other. -/
structure Matched {α : Type*} (r : α → α → Prop) (xs ys : List α) : Prop where
  left : ∀ x ∈ xs, ∃ y ∈ ys, r x y
  right : ∀ y ∈ ys, ∃ x ∈ xs, r x y

section Matched

variable {α K : Type*} {r : α → α → Prop} {key : α → K} {xs ys zs : List α}

/-- The same items, in any order and any number of times. -/
theorem matched_of_mem (hrefl : ∀ x ∈ xs, r x x) (hmem : ∀ x, x ∈ xs ↔ x ∈ ys) :
    Matched r xs ys where
  left x hx := ⟨x, (hmem x).1 hx, hrefl x hx⟩
  right y hy := ⟨y, (hmem y).2 hy, hrefl y ((hmem y).2 hy)⟩

/-- Lists with the same keys, where a key says what is related. -/
theorem matched_of_listed [LinearOrder K] (h : xs.map key = sortedSet (ys.map key))
    (hr : ∀ x ∈ xs, ∀ y ∈ ys, key y = key x → r x y) : Matched r xs ys where
  left x hx := by
    obtain ⟨y, hy, hkey⟩ := exists_of_listed h hx
    exact ⟨y, hy, hr x hx y hy hkey⟩
  right y hy := by
    obtain ⟨x, hx, hkey⟩ := listed_of_mem h hy
    exact ⟨x, hx, hr x hx y hy hkey.symm⟩

theorem Matched.append_left (h : Matched r xs ys) (hzs : ∀ z ∈ zs, r z z) :
    Matched r (zs ++ xs) (zs ++ ys) := by
  refine ⟨fun x hx => ?_, fun y hy => ?_⟩
  · rcases List.mem_append.1 hx with hx | hx
    · exact ⟨x, List.mem_append_left _ hx, hzs x hx⟩
    · obtain ⟨y, hy, hxy⟩ := h.left x hx
      exact ⟨y, List.mem_append_right _ hy, hxy⟩
  · rcases List.mem_append.1 hy with hy | hy
    · exact ⟨y, List.mem_append_left _ hy, hzs y hy⟩
    · obtain ⟨x, hx, hxy⟩ := h.right y hy
      exact ⟨x, List.mem_append_right _ hx, hxy⟩

/-- Where related items have one key, matched lists have the same keys. -/
theorem Matched.mem_map_iff (h : Matched r xs ys) (hkey : ∀ x y, r x y → key x = key y) (k : K) :
    k ∈ xs.map key ↔ k ∈ ys.map key := by
  simp only [List.mem_map]
  constructor
  · rintro ⟨x, hx, rfl⟩
    obtain ⟨y, hy, hxy⟩ := h.left x hx
    exact ⟨y, hy, (hkey x y hxy).symm⟩
  · rintro ⟨y, hy, rfl⟩
    obtain ⟨x, hx, hxy⟩ := h.right y hy
    exact ⟨x, hx, hkey x y hxy⟩

variable (hsymm : ∀ {x y}, r x y → r y x)
include hsymm

theorem Matched.symm (h : Matched r xs ys) : Matched r ys xs := by
  refine ⟨fun y hy => ?_, fun x hx => ?_⟩
  · obtain ⟨x, hx, hxy⟩ := h.right y hy
    exact ⟨x, hx, hsymm hxy⟩
  · obtain ⟨y, hy, hxy⟩ := h.left x hx
    exact ⟨y, hy, hsymm hxy⟩

variable (htrans : ∀ {x y z}, r x y → r y z → r x z)
include htrans

/-- Items related where they have one key stay so in a matched list. -/
theorem Matched.related (h : Matched r xs ys) (hkey : ∀ x y, r x y → key x = key y)
    (hxs : ∀ x ∈ xs, ∀ x' ∈ xs, key x = key x' → r x x') :
    ∀ y ∈ ys, ∀ y' ∈ ys, key y = key y' → r y y' := by
  intro y hy y' hy' heq
  obtain ⟨x, hx, hxy⟩ := h.right y hy
  obtain ⟨x', hx', hxy'⟩ := h.right y' hy'
  have hkeys : key x = key x' := (hkey x y hxy).trans (heq.trans (hkey x' y' hxy').symm)
  exact htrans (hsymm hxy) (htrans (hxs x hx x' hx' hkeys) hxy')

/-- **One more item**: what is related to each item so far is related to it
exactly when all items are related. -/
theorem related_concat_iff {v x : α} (hne : xs ≠ []) (hv : ∀ y ∈ xs, r v y) :
    r v x ↔ ∀ y ∈ xs ++ [x], ∀ z ∈ xs ++ [x], r y z := by
  refine ⟨fun hvx y hy z hz => ?_, fun hall => ?_⟩
  · have hboth : ∀ y ∈ xs ++ [x], r v y :=
      List.forall_mem_append.2 ⟨hv, List.forall_mem_singleton.2 hvx⟩
    exact htrans (hsymm (hboth y hy)) (hboth z hz)
  · obtain ⟨y, hy⟩ := List.exists_mem_of_ne_nil xs hne
    exact htrans (hv y hy) (hall y (List.mem_append_left _ hy) x
      (List.mem_append_right _ (List.mem_singleton_self _)))

end Matched

/-! ## Listings of a dictionary -/

namespace Dict

variable {K V A E : Type*}

/-- The values under a key of their own. -/
def byKey [DecidableEq K] (key : V → K) (values : List V) : Dict K V :=
  ofList (values.map fun value => (key value, value))

/-- The values in the order of their keys. -/
def listing [DecidableEq K] [LinearOrder K] (d : Dict K V) : List V :=
  (sorted d.keys).filterMap d.get?

/-- The dictionary with its keys in order. -/
def inOrder [DecidableEq K] [LinearOrder K] (d : Dict K V) : Dict K V :=
  ofList ((sorted d.keys).filterMap fun k => (d.get? k).map fun v => (k, v))

/-- Of values with distinct keys, the one under a key. -/
theorem get?_byKey [DecidableEq K] {key : V → K} {values : List V} (h : (values.map key).Nodup)
    {k : K} {v : V} : (byKey key values).get? k = some v ↔ v ∈ values ∧ key v = k := by
  have hkeys : (values.map fun value => (key value, value)).map Prod.fst = values.map key := by
    rw [List.map_map]
    rfl
  rw [get?_eq_some_iff, byKey, entries_ofList (hkeys ▸ h)]
  simp only [List.mem_map, Prod.mk.injEq]
  constructor
  · rintro ⟨value, hvalue, rfl, rfl⟩
    exact ⟨hvalue, rfl⟩
  · rintro ⟨hvalue, rfl⟩
    exact ⟨v, hvalue, rfl, rfl⟩

section Ordered

variable [DecidableEq K] [LinearOrder K] {d : Dict K V}

theorem mem_listing {v : V} : v ∈ d.listing ↔ ∃ k, d.get? k = some v := by
  rw [listing, List.mem_filterMap]
  refine exists_congr fun k => and_iff_right_of_imp fun hk => ?_
  exact mem_sorted.2 (mem_iff.2 ⟨v, hk⟩)

omit [LinearOrder K] in
/-- Looking up each of some keys of the dictionary. -/
theorem map_filterMap_get? {B : Type*} {f : K → V → B} {g : B → K} {ks : List K}
    (hks : ∀ k ∈ ks, k ∈ d) (h : ∀ k v, d.get? k = some v → g (f k v) = k) :
    (ks.filterMap fun k => (d.get? k).map (f k)).map g = ks := by
  induction ks with
  | nil => rfl
  | cons k ks ih =>
      obtain ⟨v, hv⟩ := mem_iff.1 (hks k List.mem_cons_self)
      have hrest := ih fun k' hk' => hks k' (List.mem_cons_of_mem _ hk')
      rw [List.filterMap_cons, hv, Option.map_some, List.map_cons, h k v hv, hrest]

/-- The keys of the values listed. -/
theorem map_listing {key : V → K} (h : ∀ k v, d.get? k = some v → key v = k) :
    d.listing.map key = sortedSet d.keys := by
  have hsorted : sortedSet d.keys = sorted d.keys := (sorted_eq_sortedSet d.nodup).symm
  rw [listing, hsorted]
  have hkeys : ∀ k ∈ sorted d.keys, k ∈ d := fun k hk => mem_sorted.1 hk
  have hmap := map_filterMap_get? (f := fun _ v => v) (g := key) hkeys h
  simpa only [Option.map_id'] using hmap

theorem entries_inOrder (d : Dict K V) : d.inOrder.entries =
    (sorted d.keys).filterMap fun k => (d.get? k).map fun v => (k, v) := by
  refine entries_ofList ?_
  rw [map_filterMap_get? (fun k hk => mem_sorted.1 hk) fun _ _ _ => rfl]
  exact (List.mergeSort_perm d.keys _).nodup_iff.2 d.nodup

theorem keys_inOrder (d : Dict K V) : d.inOrder.keys = sortedSet d.keys := by
  rw [keys, entries_inOrder, map_filterMap_get? (fun k hk => mem_sorted.1 hk) fun _ _ _ => rfl]
  exact sorted_eq_sortedSet d.nodup

@[simp] theorem get?_inOrder (d : Dict K V) (k : K) : d.inOrder.get? k = d.get? k := by
  ext v
  rw [get?_eq_some_iff, entries_inOrder, List.mem_filterMap]
  constructor
  · rintro ⟨k', -, hk'⟩
    obtain ⟨v', hv', heq⟩ := Option.map_eq_some_iff.1 hk'
    obtain ⟨rfl, rfl⟩ := Prod.mk.inj heq
    exact hv'
  · intro hv
    exact ⟨k, mem_sorted.2 (mem_iff.2 ⟨v, hv⟩), by rw [hv, Option.map_some]⟩

omit [LinearOrder K] in
/-- Entries of a dictionary are found by their keys. -/
theorem filterMap_get?_map_fst {es : List (K × V)} (h : ∀ e ∈ es, d.get? e.1 = some e.2) :
    ((es.map Prod.fst).filterMap fun k => (d.get? k).map fun v => (k, v)) = es := by
  induction es with
  | nil => rfl
  | cons e es ih =>
      rw [List.map_cons, List.filterMap_cons, h e List.mem_cons_self, Option.map_some,
        ih fun e he => h e (List.mem_cons_of_mem _ he)]

/-- **The entries sorted by key** are those of the dictionary in order. -/
theorem ofList_mergeSort (d : Dict K V) :
    ofList (d.entries.mergeSort fun e e' => decide (e.1 ≤ e'.1)) = d.inOrder := by
  have hkeys : (d.entries.mergeSort fun e e' => decide (e.1 ≤ e'.1)).map Prod.fst =
      sorted d.keys := List.map_mergeSort fun _ _ _ _ => rfl
  have hget : ∀ e ∈ d.entries.mergeSort fun e e' => decide (e.1 ≤ e'.1),
      d.get? e.1 = some e.2 := fun e he => get?_eq_some_iff.2 (List.mem_mergeSort.1 he)
  rw [inOrder, ← hkeys, filterMap_get?_map_fst hget]

/-- A dictionary whose keys are in order. -/
theorem inOrder_eq_self {d : Dict K V} (h : d.keys.Pairwise (· ≤ ·)) : d.inOrder = d := by
  have hsorted : d.entries.Pairwise fun e e' => decide (e.1 ≤ e'.1) = true :=
    (List.pairwise_map.1 h).imp fun hle => decide_eq_true hle
  rw [← ofList_mergeSort, List.mergeSort_of_pairwise hsorted]
  exact ext (entries_ofList d.nodup)

end Ordered

/-! ## Merging -/

variable [DecidableEq K]

/-- Write for each item in turn what `merge` makes of the value under its
key, and collect the conflicts. -/
def mergeAll (key : A → K) (merge : Option V → A → V × List E) (items : List A) (d : Dict K V) :
    Dict K V × List E :=
  items.foldl (fun (merged : Dict K V × List E) item =>
    let result := merge (merged.1.get? (key item)) item
    (merged.1.set (key item) result.1, merged.2 ++ result.2)) (d, [])

/-- The items of a key. -/
def named (key : A → K) (k : K) (items : List A) : List A := items.filter fun a => key a = k

/-- **A dictionary that represents items**: under each key, its value
represents the items of the key. -/
def Represents (key : A → K) (rep : Option V → List A → Prop) (d : Dict K V)
    (items : List A) : Prop :=
  ∀ k, rep (d.get? k) (named key k items)

variable {key : A → K} {merge : Option V → A → V × List E}

theorem named_concat_self (item : A) (items : List A) :
    named key (key item) (items ++ [item]) = named key (key item) items ++ [item] := by
  simp [named, List.filter_append]

theorem named_concat_of_ne {k : K} {item : A} (items : List A) (h : key item ≠ k) :
    named key k (items ++ [item]) = named key k items := by
  simp [named, List.filter_append, h]

theorem mergeAll_cons (item : A) (items : List A) (d : Dict K V) :
    mergeAll key merge (item :: items) d =
      let result := merge (d.get? (key item)) item
      let rest := mergeAll key merge items (d.set (key item) result.1)
      (rest.1, result.2 ++ rest.2) := by
  have hshift : ∀ (items : List A) (d : Dict K V) (es : List E),
      items.foldl (fun (merged : Dict K V × List E) item =>
        let result := merge (merged.1.get? (key item)) item
        (merged.1.set (key item) result.1, merged.2 ++ result.2)) (d, es) =
      ((mergeAll key merge items d).1, es ++ (mergeAll key merge items d).2) := by
    intro items
    induction items with
    | nil => intro d es; simp [mergeAll]
    | cons item items ih =>
        intro d es
        rw [List.foldl_cons, mergeAll, List.foldl_cons, ih, ih]
        simp
  rw [mergeAll, List.foldl_cons, hshift]
  simp

/-- **What every merge keeps holds of every value** of the result. -/
theorem mergeAll_forall {P : V → Prop} {ok : A → Prop}
    (hmerge : ∀ known item, (∀ v ∈ known, P v) → ok item → P (merge known item).1)
    {items : List A} (hitems : ∀ item ∈ items, ok item) {d : Dict K V}
    (hd : ∀ k v, d.get? k = some v → P v) :
    ∀ k v, (mergeAll key merge items d).1.get? k = some v → P v := by
  induction items generalizing d with
  | nil => exact hd
  | cons item items ih =>
      rw [mergeAll_cons]
      refine ih (fun item hitem => hitems item (List.mem_cons_of_mem _ hitem)) fun k v hv => ?_
      rw [get?_set] at hv
      split at hv
      · obtain rfl := Option.some.inj hv
        exact hmerge _ item (fun v hv => hd _ v hv) (hitems item List.mem_cons_self)
      · exact hd k v hv

section Spec

variable {rep : Option V → List A → Prop} {consistent : List A → Prop}

/-- What is consistent with later items is so without them. -/
theorem consistent_of_append (hearlier : ∀ items item, consistent (items ++ [item]) →
    consistent items) {k : K} (items later : List A)
    (h : consistent (named key k (items ++ later))) : consistent (named key k items) := by
  induction later using List.reverseRecOn with
  | nil =>
      rw [List.append_nil] at h
      exact h
  | append_singleton later item ih =>
      rw [← List.append_assoc] at h
      refine ih ?_
      by_cases hk : key item = k
      · subst hk
        rw [named_concat_self] at h
        exact hearlier _ _ h
      · rw [named_concat_of_ne _ hk] at h
        exact h

variable {ok : A → Prop} (hstep : ∀ v items item, ok item → rep v items → consistent items →
    ((merge v item).2 = [] ↔ consistent (items ++ [item])) ∧
    (consistent (items ++ [item]) → rep (some (merge v item).1) (items ++ [item])))
include hstep

/-- Merging one item. -/
theorem represents_set {d : Dict K V} {prior : List A} {item : A} (hok : ok item)
    (hrep : Represents key rep d prior) (hprior : ∀ k, consistent (named key k prior)) :
    ((merge (d.get? (key item)) item).2 = [] ↔
      ∀ k, consistent (named key k (prior ++ [item]))) ∧
    ((∀ k, consistent (named key k (prior ++ [item]))) →
      Represents key rep (d.set (key item) (merge (d.get? (key item)) item).1)
        (prior ++ [item])) := by
  obtain ⟨hconflict, hvalue⟩ := hstep _ _ item hok (hrep (key item)) (hprior (key item))
  refine ⟨?_, fun hall k => ?_⟩
  · rw [hconflict]
    refine ⟨fun hitem k => ?_, fun hall => ?_⟩
    · by_cases hk : key item = k
      · subst hk
        rw [named_concat_self]
        exact hitem
      · rw [named_concat_of_ne prior hk]
        exact hprior k
    · have hitem := hall (key item)
      rw [named_concat_self] at hitem
      exact hitem
  · rw [get?_set]
    by_cases hk : k = key item
    · subst hk
      have hitem := hall (key item)
      rw [named_concat_self] at hitem ⊢
      rw [if_pos rfl]
      exact hvalue hitem
    · rw [if_neg hk, named_concat_of_ne prior (Ne.symm hk)]
      exact hrep k

/-- **Merging items one by one represents them all**, and reports no
conflict exactly when the items of each key are consistent. -/
theorem mergeAll_spec (hearlier : ∀ items item, consistent (items ++ [item]) → consistent items)
    {d : Dict K V} {prior items : List A} (hok : ∀ item ∈ items, ok item)
    (hrep : Represents key rep d prior) (hprior : ∀ k, consistent (named key k prior)) :
    ((mergeAll key merge items d).2 = [] ↔ ∀ k, consistent (named key k (prior ++ items))) ∧
    ((∀ k, consistent (named key k (prior ++ items))) →
      Represents key rep (mergeAll key merge items d).1 (prior ++ items)) := by
  induction items generalizing d prior with
  | nil =>
      rw [List.append_nil]
      exact ⟨iff_of_true rfl hprior, fun _ => hrep⟩
  | cons item items ih =>
      obtain ⟨hconflict, hvalue⟩ :=
        represents_set hstep (hok item List.mem_cons_self) hrep hprior
      rw [mergeAll_cons, List.append_cons]
      by_cases hall : ∀ k, consistent (named key k (prior ++ [item]))
      · obtain ⟨hrest, hvalues⟩ :=
          ih (fun i hi => hok i (List.mem_cons_of_mem _ hi)) (hvalue hall) hall
        refine ⟨?_, hvalues⟩
        rw [List.append_eq_nil_iff, ← hrest]
        exact and_iff_right (hconflict.2 hall)
      · -- an item that conflicts is reported, whatever comes after it
        have hlater : ¬ ∀ k, consistent (named key k (prior ++ [item] ++ items)) :=
          fun h => hall fun k => consistent_of_append hearlier _ items (h k)
        refine ⟨iff_of_false (fun hnil => hall ?_) hlater, fun h => absurd h hlater⟩
        exact hconflict.1 (List.append_eq_nil_iff.1 hnil).1

end Spec

/-! ## What a representation lists -/

section Listed

variable {rep : Option V → List A → Prop} {d : Dict K V} {items : List A}

theorem mem_named {k : K} {item : A} : item ∈ named key k items ↔ item ∈ items ∧ key item = k := by
  rw [named, List.mem_filter, decide_eq_true_eq]

theorem named_eq_nil_iff {k : K} : named key k items = [] ↔ k ∉ items.map key := by
  rw [List.eq_nil_iff_forall_not_mem, List.mem_map, not_exists]
  simp only [mem_named]

theorem named_append (k : K) (items later : List A) :
    named key k (items ++ later) = named key k items ++ named key k later :=
  List.filter_append items later

/-- The items of a dictionary under a key: its value, if any. -/
theorem named_fst {entries : List (K × V)} (h : (entries.map Prod.fst).Nodup) (k : K) :
    named Prod.fst k entries = ((get? ⟨entries, h⟩ k).map fun v => (k, v)).toList := by
  change _ = ((entries.lookup k).map fun v => (k, v)).toList
  induction entries with
  | nil => rfl
  | cons e entries ih =>
      rw [List.map_cons, List.nodup_cons] at h
      rw [lookup_cons_eq, named, List.filter_cons]
      by_cases hk : k = e.1
      · subst hk
        have hnone := named_eq_nil_iff.2 h.1
        rw [named] at hnone
        simp [hnone]
      · have hne : ¬ e.1 = k := fun he => hk he.symm
        have hrest := ih h.2
        rw [named] at hrest
        simp [hk, hne, hrest]

variable (hnone : ∀ items, rep none items ↔ items = [])
include hnone

/-- A dictionary that represents items holds their keys. -/
theorem Represents.mem_iff (hsome : ∀ v items, rep (some v) items → items ≠ [])
    (h : Represents key rep d items) {k : K} : k ∈ d ↔ k ∈ items.map key := by
  have hrep := h k
  rw [Dict.mem_iff]
  cases hv : d.get? k with
  | none =>
      rw [hv] at hrep
      have hno := named_eq_nil_iff.1 ((hnone _).1 hrep)
      exact iff_of_false (by simp) hno
  | some v =>
      rw [hv] at hrep
      have hmem : k ∈ items.map key := by
        by_contra hno
        exact hsome v _ hrep (named_eq_nil_iff.2 hno)
      exact iff_of_true ⟨v, rfl⟩ hmem

end Listed

section Listing

variable [LinearOrder K] {rep : Option V → List A → Prop} {d : Dict K V} {items : List A}
  {key : A → K} {name : V → K} (hnone : ∀ items, rep none items ↔ items = [])
  (hsome : ∀ v items, rep (some v) items → ∃ item ∈ items, key item = name v)

include hsome in
omit [LinearOrder K] in
/-- A value is under its name. -/
theorem Represents.name_eq (h : Represents key rep d items) {k : K} {v : V}
    (hv : d.get? k = some v) : name v = k := by
  have hrep := h k
  rw [hv] at hrep
  obtain ⟨item, hitem, hname⟩ := hsome v _ hrep
  exact hname.symm.trans (mem_named.1 hitem).2

include hnone hsome in
/-- **The listing of a dictionary that represents items**: their keys in
order, each once, and under each what represents its items. -/
theorem Represents.listing (h : Represents key rep d items) :
    d.listing.map name = sortedSet (items.map key) ∧
      ∀ v ∈ d.listing, rep (some v) (named key (name v) items) := by
  have hname : ∀ k v, d.get? k = some v → name v = k := fun k v hv => h.name_eq hsome hv
  have hnonempty : ∀ v items, rep (some v) items → items ≠ [] := by
    intro v items hrep
    obtain ⟨item, hitem, -⟩ := hsome v items hrep
    exact List.ne_nil_of_mem hitem
  refine ⟨?_, fun v hv => ?_⟩
  · rw [map_listing hname]
    exact sortedSet_congr fun k => h.mem_iff hnone hnonempty
  · obtain ⟨k, hk⟩ := mem_listing.1 hv
    have hrep := h k
    rw [hk] at hrep
    rw [hname k v hk]
    exact hrep

include hnone in
/-- And back: values so listed represent the items under their names. -/
theorem represents_byKey {values : List V} (hnames : values.map name = sortedSet (items.map key))
    (hvalues : ∀ v ∈ values, rep (some v) (named key (name v) items)) :
    Represents key rep (byKey name values) items := by
  have hnodup : (values.map name).Nodup := by
    rw [hnames]
    exact (pairwise_sortedSet _).imp ne_of_lt
  intro k
  cases hk : (byKey name values).get? k with
  | some v =>
      obtain ⟨hv, rfl⟩ := (get?_byKey hnodup).1 hk
      exact hvalues v hv
  | none =>
      rw [hnone, named_eq_nil_iff, ← mem_sortedSet, ← hnames, List.mem_map]
      rintro ⟨v, hv, rfl⟩
      have hsomeV := (get?_byKey hnodup).2 ⟨hv, rfl⟩
      rw [hk] at hsomeV
      cases hsomeV

end Listing

end Dict

/-- Two lists with the same image are related item by item where the
relation follows from the image. -/
theorem forall₂_of_map_eq {α β γ : Type*} {R : α → β → Prop} {f : α → γ} {g : β → γ}
    {xs : List α} {ys : List β} (h : xs.map f = ys.map g)
    (hR : ∀ x ∈ xs, ∀ y ∈ ys, f x = g y → R x y) : List.Forall₂ R xs ys := by
  induction xs generalizing ys with
  | nil =>
      rw [List.map_nil, eq_comm, List.map_eq_nil_iff] at h
      rw [h]
      exact .nil
  | cons x xs ih =>
      rcases ys with _ | ⟨y, ys⟩
      · cases h
      · obtain ⟨hhead, htail⟩ := List.cons.inj h
        refine .cons (hR x List.mem_cons_self y List.mem_cons_self hhead) (ih htail ?_)
        intro x' hx' y' hy'
        exact hR x' (List.mem_cons_of_mem _ hx') y' (List.mem_cons_of_mem _ hy')

end Common
