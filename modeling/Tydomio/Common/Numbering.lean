import Tydomio.Common.Dict
import Mathlib.Data.List.Forall2
import Mathlib.Data.List.Induction

/-!
# Numbering in order of first occurrence

Items met one after the other are numbered 1, 2, 3, … at their first
occurrence. `number xs x` says it of a whole list; a program says it with a
dictionary that labels a key it does not hold with one more than the keys it
holds, `Dict.label`. `Dict.get?_labelAll` connects the two, and with
`number_append_of_mem` a label once given stays.

`firsts` is the list itself with each item once, at its first occurrence:
what an ordered set holds after the items were added to it.
-/

namespace Common

section Firsts

variable {α β : Type*} [DecidableEq α] [DecidableEq β]

/-- The list with an item added at the end, unless it is there. -/
def insertNew (seen : List α) (x : α) : List α := if x ∈ seen then seen else seen ++ [x]

/-- The list with the items added one after the other. -/
def insertAll (seen xs : List α) : List α := xs.foldl insertNew seen

/-- The items, each once, in order of first occurrence. -/
def firsts (xs : List α) : List α := insertAll [] xs

theorem insertAll_append (seen xs ys : List α) :
    insertAll seen (xs ++ ys) = insertAll (insertAll seen xs) ys :=
  List.foldl_append

theorem firsts_append (xs ys : List α) : firsts (xs ++ ys) = insertAll (firsts xs) ys :=
  insertAll_append [] xs ys

theorem firsts_concat (xs : List α) (x : α) : firsts (xs ++ [x]) = insertNew (firsts xs) x :=
  firsts_append xs [x]

theorem mem_insertNew {seen : List α} {x y : α} : y ∈ insertNew seen x ↔ y ∈ seen ∨ y = x := by
  unfold insertNew
  split
  · rename_i h
    refine ⟨Or.inl, fun hy => hy.elim id ?_⟩
    rintro rfl
    exact h
  · rw [List.mem_append, List.mem_singleton]

theorem mem_insertAll {seen xs : List α} {y : α} : y ∈ insertAll seen xs ↔ y ∈ seen ∨ y ∈ xs := by
  induction xs generalizing seen with
  | nil => simp [insertAll]
  | cons x xs ih =>
      have hstep : insertAll seen (x :: xs) = insertAll (insertNew seen x) xs := rfl
      rw [hstep, ih, mem_insertNew, List.mem_cons, or_assoc]

@[simp] theorem mem_firsts {xs : List α} {y : α} : y ∈ firsts xs ↔ y ∈ xs := by
  rw [firsts, mem_insertAll, or_iff_right List.not_mem_nil]

theorem insertNew_nodup {seen : List α} (h : seen.Nodup) (x : α) : (insertNew seen x).Nodup := by
  unfold insertNew
  split
  · exact h
  · rename_i hx
    refine List.nodup_append.2 ⟨h, List.nodup_singleton x, fun a ha b hb hab => hx ?_⟩
    rw [← List.mem_singleton.1 hb, ← hab]
    exact ha

theorem insertAll_nodup {seen : List α} (h : seen.Nodup) (xs : List α) :
    (insertAll seen xs).Nodup := by
  induction xs generalizing seen with
  | nil => exact h
  | cons x xs ih => exact ih (insertNew_nodup h x)

theorem nodup_firsts (xs : List α) : (firsts xs).Nodup := insertAll_nodup List.nodup_nil xs

/-- What is there keeps its place. -/
theorem prefix_insertAll (seen xs : List α) : seen <+: insertAll seen xs := by
  induction xs generalizing seen with
  | nil => exact List.prefix_rfl
  | cons x xs ih =>
      refine List.IsPrefix.trans ?_ (ih (insertNew seen x))
      unfold insertNew
      split
      · exact List.prefix_rfl
      · exact List.prefix_append seen [x]

theorem firsts_prefix {xs ys : List α} (h : xs <+: ys) : firsts xs <+: firsts ys := by
  obtain ⟨zs, rfl⟩ := h
  rw [firsts_append]
  exact prefix_insertAll _ zs

section Rel

variable {R : α → β → Prop} (hR : Relator.BiUnique R)

include hR

theorem insertNew_rel {seen : List α} {seen' : List β} {x : α} {y : β}
    (h : List.Forall₂ R seen seen') (hxy : R x y) :
    List.Forall₂ R (insertNew seen x) (insertNew seen' y) := by
  have hmem : x ∈ seen ↔ y ∈ seen' := List.rel_mem hR hxy h
  unfold insertNew
  by_cases hin : x ∈ seen
  · rw [if_pos hin, if_pos (hmem.1 hin)]
    exact h
  · rw [if_neg hin, if_neg fun hy => hin (hmem.2 hy)]
    exact List.rel_append h (.cons hxy .nil)

/-- **A renaming keeps the order of first occurrence.** -/
theorem firsts_rel {xs : List α} {ys : List β} (h : List.Forall₂ R xs ys) :
    List.Forall₂ R (firsts xs) (firsts ys) := by
  have hstep : Relator.LiftFun (List.Forall₂ R) (Relator.LiftFun R (List.Forall₂ R))
      insertNew insertNew := fun _ _ hseen _ _ hxy => insertNew_rel hR hseen hxy
  exact List.rel_foldl hstep .nil h

omit hR

omit [DecidableEq α] [DecidableEq β] in
/-- The renaming that a function makes of the items of a list. -/
theorem biUnique_of_injOn {f : α → β} {xs : List α}
    (h : ∀ x ∈ xs, ∀ y ∈ xs, f x = f y → x = y) :
    Relator.BiUnique fun x y => x ∈ xs ∧ y = f x := by
  refine ⟨?_, ?_⟩
  · rintro x z y ⟨hx, rfl⟩ ⟨hz, hxz⟩
    exact h x hx z hz hxz
  · rintro x y z ⟨-, rfl⟩ ⟨-, rfl⟩
    rfl

omit [DecidableEq α] [DecidableEq β] in
theorem forall₂_graph (f : α → β) (xs : List α) :
    List.Forall₂ (fun x y => x ∈ xs ∧ y = f x) xs (xs.map f) := by
  rw [List.forall₂_map_right_iff, List.forall₂_same]
  exact fun x hx => ⟨hx, rfl⟩

section Same

omit [DecidableEq α] [DecidableEq β]

variable {γ : Type*} {R : α → β → Prop} {xs : List α} {ys : List β} (h : List.Forall₂ R xs ys)

include h

/-- What is the same at related items is the same list. -/
theorem flatMap_eq_of_rel {f : α → List γ} {g : β → List γ} (hfg : ∀ x y, R x y → f x = g y) :
    xs.flatMap f = ys.flatMap g := by
  induction h with
  | nil => rfl
  | cons hxy _ ih => rw [List.flatMap_cons, List.flatMap_cons, hfg _ _ hxy, ih]

theorem filterMap_eq_of_rel {f : α → Option γ} {g : β → Option γ}
    (hfg : ∀ x y, R x y → f x = g y) : xs.filterMap f = ys.filterMap g := by
  rw [List.filterMap_eq_flatMap_toList, List.filterMap_eq_flatMap_toList]
  exact flatMap_eq_of_rel h fun x y hxy => by rw [hfg x y hxy]

end Same

end Rel

/-- An injection keeps the order of first occurrence. -/
theorem firsts_map {f : α → β} {xs : List α} (h : ∀ x ∈ xs, ∀ y ∈ xs, f x = f y → x = y) :
    firsts (xs.map f) = (firsts xs).map f := by
  have hfirsts := firsts_rel (biUnique_of_injOn h) (forall₂_graph f xs)
  rw [← List.forall₂_eq_eq_eq, List.forall₂_map_right_iff]
  exact hfirsts.flip.imp fun _ _ hxy => hxy.2

end Firsts

/-! ## Numbers -/

section Number

variable {α β : Type*} [DecidableEq α] [DecidableEq β]

/-- The number of an item: 1 for the first, 2 for the next new one. -/
def number (xs : List α) (x : α) : ℕ := (firsts xs).idxOf x + 1

theorem number_pos (xs : List α) (x : α) : 0 < number xs x := Nat.succ_pos _

/-- A number once given stays. -/
theorem number_append_of_mem {xs : List α} {x : α} (h : x ∈ xs) (ys : List α) :
    number (xs ++ ys) x = number xs x := by
  obtain ⟨rest, hrest⟩ := firsts_prefix (List.prefix_append xs ys)
  rw [number, number, ← hrest, List.idxOf_append_of_mem (mem_firsts.2 h)]

/-- Different items have different numbers. -/
theorem number_inj {xs : List α} {x y : α} (hx : x ∈ xs) :
    number xs x = number xs y ↔ x = y := by
  rw [number, number, Nat.add_right_cancel_iff]
  exact List.idxOf_inj (mem_firsts.2 hx)

section Rel

variable {R : α → β → Prop} (hR : Relator.BiUnique R)

include hR

theorem idxOf_rel {xs : List α} {ys : List β} {x : α} {y : β} (h : List.Forall₂ R xs ys)
    (hxy : R x y) : xs.idxOf x = ys.idxOf y := by
  induction h with
  | nil => rfl
  | @cons x' y' _ _ hxy' _ ih =>
      have heq : x' = x ↔ y' = y := Relator.rel_eq hR hxy' hxy
      rw [List.idxOf_cons, List.idxOf_cons, ih]
      by_cases hx : x' = x
      · rw [hx, heq.1 hx, beq_self_eq_true, beq_self_eq_true]
      · rw [beq_false_of_ne hx, beq_false_of_ne fun hy => hx (heq.2 hy)]

/-- **A renaming keeps the numbers.** -/
theorem number_rel {xs : List α} {ys : List β} {x : α} {y : β} (h : List.Forall₂ R xs ys)
    (hxy : R x y) : number xs x = number ys y :=
  congrArg (· + 1) (idxOf_rel hR (firsts_rel hR h) hxy)

end Rel

/-- An injection keeps the numbers. -/
theorem number_map {f : α → β} {xs : List α} (h : ∀ x ∈ xs, ∀ y ∈ xs, f x = f y → x = y) {x : α}
    (hx : x ∈ xs) : number (xs.map f) (f x) = number xs x :=
  (number_rel (biUnique_of_injOn h) (forall₂_graph f xs) ⟨hx, rfl⟩).symm

/-- **The numbers given are 1 to n, in order of first occurrence.** -/
theorem firsts_map_number (xs : List α) :
    firsts (xs.map (number xs)) = List.range' 1 (firsts xs).length := by
  rw [firsts_map fun x hx y _ hxy => (number_inj hx).1 hxy]
  refine List.ext_getElem (by simp) fun i hi _ => ?_
  rw [List.length_map] at hi
  rw [List.getElem_map, List.getElem_range', number, (nodup_firsts xs).idxOf_getElem i hi]
  omega

/-- **A number that says only where an item first stands**: one of 1 to the
number of different items, the same whatever the items are renamed to. -/
structure Ordinal (xs : List α) (x : α) (n : ℕ) : Prop where
  pos : 0 < n
  le : n ≤ (firsts xs).length
  renamed : ∀ f : α → α, (∀ y ∈ xs, ∀ z ∈ xs, f y = f z → y = z) → number (xs.map f) (f x) = n

/-- The number of an item is one. -/
theorem ordinal_number {xs : List α} {x : α} (h : x ∈ xs) : Ordinal xs x (number xs x) where
  pos := number_pos xs x
  le := List.idxOf_lt_length_iff.2 (mem_firsts.2 h)
  renamed _ hf := number_map hf h

end Number

/-! ## Dictionaries of labels -/

namespace Dict

variable {K V : Type*} [DecidableEq K]

/-- `setdefault`: the value under a key, written there if the key is new,
and the dictionary after it. -/
def setDefault (d : Dict K V) (k : K) (v : V) : V × Dict K V :=
  let value := (d.get? k).getD v
  (value, d.set k value)

/-- A key labelled, unless it is, with the label of one more than the keys
held. -/
def label (f : ℕ → V) (d : Dict K V) (k : K) : Dict K V :=
  (d.setDefault k (f (d.entries.length + 1))).2

/-- The keys labelled one after the other. -/
def labelAll (f : ℕ → V) (ks : List K) : Dict K V := ks.foldl (label f) ∅

variable {f : ℕ → V} {ks : List K}

theorem labelAll_concat (ks : List K) (k : K) :
    labelAll f (ks ++ [k]) = label f (labelAll f ks) k :=
  List.foldl_append

theorem keys_set (d : Dict K V) (k : K) (v : V) : (d.set k v).keys = insertNew d.keys k :=
  map_fst_setEntries k v d.entries

theorem keys_labelAll : (labelAll f ks).keys = firsts ks := by
  induction ks using List.reverseRecOn with
  | nil => rfl
  | append_singleton ks k ih =>
      rw [labelAll_concat, label, setDefault, keys_set, ih, firsts_concat]

theorem length_labelAll : (labelAll f ks).entries.length = (firsts ks).length := by
  have hkeys : (labelAll f ks).keys.length = (firsts ks).length :=
    congrArg List.length keys_labelAll
  rwa [keys, List.length_map] at hkeys

/-- **A label is that of the number of its key.** -/
theorem get?_labelAll (k : K) :
    (labelAll f ks).get? k = if k ∈ ks then some (f (number ks k)) else none := by
  induction ks using List.reverseRecOn with
  | nil => rfl
  | append_singleton ks k' ih =>
      have hmem : k ∈ ks ++ [k'] ↔ k ∈ ks ∨ k = k' := by simp
      rw [labelAll_concat, label, setDefault, get?_set]
      by_cases hk : k ∈ ks
      · rw [number_append_of_mem hk, if_pos (hmem.2 (Or.inl hk))]
        split
        · rename_i heq
          rw [← heq, ih, if_pos hk, Option.getD_some]
        · rw [ih, if_pos hk]
      · by_cases hkk : k = k'
        · have hnew : k ∉ firsts ks := fun h => hk (mem_firsts.1 h)
          have hlast : number (ks ++ [k]) k = (firsts ks).length + 1 := by
            rw [number, firsts_concat, insertNew, if_neg hnew, List.idxOf_append_of_notMem hnew,
              List.idxOf_cons_self, Nat.add_zero]
          rw [if_pos hkk, if_pos (hmem.2 (Or.inr hkk)), ← hkk, ih, if_neg hk, Option.getD_none,
            hlast, length_labelAll]
        · rw [if_neg hkk, if_neg fun h => (hmem.1 h).elim hk hkk, ih, if_neg hk]

/-- What `setdefault` gives for the next key. -/
theorem setDefault_labelAll (k : K) :
    (labelAll f ks).setDefault k (f ((labelAll f ks).entries.length + 1)) =
      (f (number (ks ++ [k]) k), labelAll f (ks ++ [k])) := by
  have hget : (labelAll f (ks ++ [k])).get? k = some (f (number (ks ++ [k]) k)) := by
    rw [get?_labelAll, if_pos (List.mem_append_right _ (List.mem_singleton_self k))]
  rw [labelAll_concat] at hget
  refine Prod.ext ?_ (labelAll_concat ks k).symm
  rw [label, setDefault, get?_set_self] at hget
  exact Option.some.inj hget

/-! ## Renamed keys -/

/-- Related values or related defaults. -/
theorem getD_rel {A A' : Type*} {S : A → A' → Prop} {a : Option A} {a' : Option A'} {v : A}
    {v' : A'} (h : Option.Rel S a a') (hv : S v v') : S (a.getD v) (a'.getD v') := by
  cases h with
  | none => exact hv
  | some ha => exact ha

section Rel

variable {K' V' : Type*} [DecidableEq K'] {R : K → K' → Prop} {S : V → V' → Prop}
  (hR : Relator.BiUnique R)

include hR

/-- **Related items are looked up alike.** -/
theorem lookup_rel {es : List (K × V)} {es' : List (K' × V')} {k : K} {k' : K'}
    (h : List.Forall₂ (fun e e' => R e.1 e'.1 ∧ S e.2 e'.2) es es') (hk : R k k') :
    Option.Rel S (es.lookup k) (es'.lookup k') := by
  induction h with
  | nil => exact .none
  | @cons e e' _ _ he _ ih =>
      have heq : k = e.1 ↔ k' = e'.1 := Relator.rel_eq hR hk he.1
      rw [lookup_cons_eq, lookup_cons_eq]
      by_cases hkey : k = e.1
      · rw [if_pos hkey, if_pos (heq.1 hkey)]
        exact .some he.2
      · rw [if_neg hkey, if_neg fun hkey' => hkey (heq.2 hkey')]
        exact ih

theorem setEntries_rel {es : List (K × V)} {es' : List (K' × V')} {k : K} {k' : K'} {v : V}
    {v' : V'} (h : List.Forall₂ (fun e e' => R e.1 e'.1 ∧ S e.2 e'.2) es es') (hk : R k k')
    (hv : S v v') :
    List.Forall₂ (fun e e' => R e.1 e'.1 ∧ S e.2 e'.2) (setEntries k v es)
      (setEntries k' v' es') := by
  induction h with
  | nil => exact .cons ⟨hk, hv⟩ .nil
  | @cons e e' _ _ he hes ih =>
      have heq : e.1 = k ↔ e'.1 = k' := Relator.rel_eq hR he.1 hk
      rw [setEntries, setEntries]
      by_cases hkey : e.1 = k
      · rw [if_pos hkey, if_pos (heq.1 hkey)]
        exact .cons ⟨hk, hv⟩ hes
      · rw [if_neg hkey, if_neg fun hkey' => hkey (heq.2 hkey')]
        exact .cons he ih

/-- `setdefault` keeps related items related. -/
theorem setDefault_rel {d : Dict K V} {d' : Dict K' V'} {k : K} {k' : K'} {v : V} {v' : V'}
    (h : List.Forall₂ (fun e e' => R e.1 e'.1 ∧ S e.2 e'.2) d.entries d'.entries) (hk : R k k')
    (hv : S v v') :
    List.Forall₂ (fun e e' => R e.1 e'.1 ∧ S e.2 e'.2) (d.setDefault k v).2.entries
      (d'.setDefault k' v').2.entries := by
  exact setEntries_rel hR h hk (getD_rel (lookup_rel hR h hk) hv)

end Rel

end Dict

end Common
