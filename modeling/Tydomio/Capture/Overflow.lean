import Tydomio.Capture.Model.Json
import Tydomio.Capture.Render

/-!
# When a capture is anonymized without an exception

A number of a data value takes the type that was received, so an integer
`min` is converted where the value is a double. Only that conversion can
raise: every other step is total on what `parse_json` returns, whose doubles
are finite. `anonymize_returns_iff` is the exact condition.
-/

namespace Tydomio

open Common

namespace Capture

/-! ## The values of the parser -/

mutual

/-- Every leaf satisfies a property. -/
def LeafAll (p : JsonValue → Prop) : JsonValue → Prop
  | .list items => LeafAllItems p items
  | .dict items => LeafAllFields p items
  | value => p value

/-- Every leaf of the items of a list does. -/
def LeafAllItems (p : JsonValue → Prop) : List JsonValue → Prop
  | [] => True
  | item :: items => LeafAll p item ∧ LeafAllItems p items

/-- Every leaf under the keys of an object does. -/
def LeafAllFields (p : JsonValue → Prop) : List (String × JsonValue) → Prop
  | [] => True
  | (_, value) :: items => LeafAll p value ∧ LeafAllFields p items

end

/-- A leaf that `json.loads` makes with the hooks of `parse_json`: a double
is finite, and an integer is within the digit limit. -/
def ParsedLeaf : JsonValue → Prop
  | .int n => n.natAbs < 10 ^ 4300
  | .float (.finite _) => True
  | .float _ => False
  | _ => True

/-- **A value that `parse_json` can return.** -/
structure Parsed (value : JsonValue) : Prop where
  leaves : LeafAll ParsedLeaf value
  depth : checked 0 value = .ok value

/-! ## The leaves of a descriptor -/

section LeafAll

variable {p : JsonValue → Prop}

theorem leafAll_of_mem {items : List JsonValue} (h : LeafAllItems p items) :
    ∀ item ∈ items, LeafAll p item := by
  induction items with
  | nil => exact fun item hitem => absurd hitem List.not_mem_nil
  | cons first items ih => exact List.forall_mem_cons.2 ⟨h.1, ih h.2⟩

theorem leafAll_field {items : List (String × JsonValue)} (hnull : p .null)
    (h : LeafAllFields p items) (key : String) : LeafAll p (field items key) := by
  induction items with
  | nil => exact hnull
  | cons item items ih =>
      obtain ⟨name, value⟩ := item
      rw [field, Dict.lookup_cons_eq]
      split
      · exact h.1
      · exact ih h.2

theorem leafAll_objectsOf {value : JsonValue} (h : LeafAll p value) :
    ∀ fields ∈ objectsOf value, LeafAllFields p fields := by
  intro fields hfields
  cases value with
  | list items =>
      obtain ⟨item, hitem, heq⟩ := List.mem_filterMap.1 hfields
      have hall := leafAll_of_mem h item hitem
      cases item with
      | dict found =>
          cases heq
          exact hall
      | _ => cases heq
  | _ => cases hfields

/-- Every leaf of every descriptor of an index satisfies a property. -/
def IndexAll (p : JsonValue → Prop) (index : DescriptorIndex) : Prop :=
  ∀ key fields, index.get? key = some fields → LeafAllFields p fields

theorem indexAll_indexOne {index : DescriptorIndex} (hindex : IndexAll p index)
    (key : List String) {descriptor : List (String × JsonValue)}
    (h : LeafAllFields p descriptor) : IndexAll p (indexOne key index descriptor) := by
  unfold indexOne
  split
  · rename_i name _
    intro found fields hget
    rw [Dict.setDefault, Dict.get?_set] at hget
    split at hget
    · cases hold : index.get? (key ++ [name]) with
      | none =>
          rw [hold] at hget
          rw [← Option.some.inj hget]
          exact h
      | some old =>
          rw [hold] at hget
          rw [← Option.some.inj hget]
          exact hindex _ _ hold
    · exact hindex _ _ hget
  · exact hindex

/-- A fold whose steps keep a property keeps it. -/
theorem indexAll_foldl {α : Type} {f : DescriptorIndex → α → DescriptorIndex} {items : List α}
    {index : DescriptorIndex} (hindex : IndexAll p index)
    (hstep : ∀ index item, item ∈ items → IndexAll p index → IndexAll p (f index item)) :
    IndexAll p (items.foldl f index) := by
  induction items generalizing index with
  | nil => exact hindex
  | cons item items ih =>
      refine ih (hstep index item List.mem_cons_self hindex) fun index' item' hitem =>
        hstep index' item' (List.mem_cons_of_mem _ hitem)

/-- The descriptors indexed are parts of the body. -/
theorem indexAll_visitItems (texts : Texts) (hnull : p .null) (levels : List String) :
    ∀ (items : JsonValue) (start : List String) (index : DescriptorIndex), LeafAll p items →
      IndexAll p index → IndexAll p (visitItems texts items start levels index) := by
  induction levels with
  | nil =>
      intro items start index h hindex
      refine indexAll_foldl hindex fun index' item hitem hindex' => ?_
      have hfields := leafAll_objectsOf h item hitem
      refine indexAll_foldl hindex' fun index'' descriptor hdescriptor hindex'' => ?_
      have hmetadata := leafAll_field hnull hfields "metadata"
      exact indexAll_indexOne hindex'' _ (leafAll_objectsOf hmetadata descriptor hdescriptor)
  | cons next levels ih =>
      intro items start index h hindex
      refine indexAll_foldl hindex fun index' item hitem hindex' => ?_
      have hfields := leafAll_objectsOf h item hitem
      exact ih _ _ _ (leafAll_field hnull hfields next) hindex'

/-- The descriptor of a data value is a part of a captured body. -/
theorem leafAll_descriptorOf {texts : Texts} {capture : Captured} (hnull : p .null)
    (h : ∀ body ∈ capture.bodies.values, LeafAll p body) (url : String)
    (dicts : List (List (String × JsonValue))) :
    LeafAllFields p (descriptorOf texts (capture.descriptors texts) url dicts) := by
  unfold descriptorOf
  cases hindex : (capture.descriptors texts).get? url with
  | none => exact trivial
  | some index =>
      cases hget : index.get? (dataKey texts dicts) with
      | none =>
          rw [Option.getD_some, hget]
          exact trivial
      | some fields =>
          rw [Option.getD_some, hget, Option.getD_some]
          have hmem := Dict.mem_of_get?_ofList hindex
          obtain ⟨source, -, hsource⟩ := List.mem_filterMap.1 hmem
          split at hsource
          · obtain ⟨body, hbody, heq⟩ := Option.map_eq_some_iff.1 hsource
            obtain ⟨-, rfl⟩ := Prod.mk.inj heq
            have hall := h body (Dict.mem_values.2 ⟨_, hbody⟩)
            have hempty : IndexAll p ∅ := fun key fields hnone => by cases hnone
            exact indexAll_visitItems texts hnull _ body [] ∅ hall hempty _ _ hget
          · cases hsource

end LeafAll

/-! ## What raises -/

/-- `float(n)` fails from half a unit under `2 ** 1024` on. -/
theorem floatOfInt_eq_none_iff (n : ℤ) :
    floatOfInt n = none ↔ 2 ^ 1024 - 2 ^ 970 ≤ n.natAbs := by
  have hlt : roundBits 53 n.natAbs < 2 ^ 1024 ↔ n.natAbs < 2 ^ 1024 - 2 ^ (1024 - 53 - 1) :=
    roundBits_lt_iff (by omega) (by omega)
  rw [← Nat.not_lt, ← hlt, floatOfInt]
  split
  · rename_i h
    exact iff_of_false nofun fun hnot => hnot h
  · rename_i h
    exact iff_of_true rfl h

/-- **A data value whose conversion overflows**: a double whose descriptor
has an integer too large for one as its `min`. -/
structure Overflows (texts : Texts) (capture : Captured) (url : String) (leaf : Leaf) : Prop where
  rule : ∃ rule, leaf.rule (capture.policyOf url) = some rule ∧ rule.action = .value
  value : ∃ x, leaf.value = .float x
  minimum : ∃ n : ℤ, field (descriptorOf texts (capture.descriptors texts) url leaf.dicts) "min" =
    .int n ∧ 2 ^ 1024 - 2 ^ 970 ≤ n.natAbs

/-- The conversion of an integer. -/
theorem numberOf_float_int (x : PyFloat) (n : ℤ) :
    (∃ e, numberOf (.float x) (.int n) = .error e) ↔ 2 ^ 1024 - 2 ^ 970 ≤ n.natAbs := by
  have hconverted : ∀ result, (∃ e, converted result = .error e) ↔ result = none := by
    intro result
    cases result with
    | none => exact iff_of_true ⟨_, rfl⟩ rfl
    | some y => exact iff_of_false (fun ⟨e, he⟩ => nomatch he) nofun
  rw [← floatOfInt_eq_none_iff]
  exact hconverted (floatOfInt n)

/-- Only that conversion raises, where the `min` is one that was parsed. -/
theorem of_valueOf_error {texts : Texts} {descriptors : Dict String DescriptorIndex} {url : String}
    {dicts : List (List (String × JsonValue))} {value : JsonValue} {e : Exc}
    (hmin : LeafAll ParsedLeaf (field (descriptorOf texts descriptors url dicts) "min"))
    (h : valueOf texts descriptors url dicts value = .error e) :
    (∃ x, value = .float x) ∧
      ∃ n : ℤ, field (descriptorOf texts descriptors url dicts) "min" = .int n ∧
        2 ^ 1024 - 2 ^ 970 ≤ n.natAbs := by
  cases value with
  | float x =>
      rw [valueOf] at h
      cases hminimum : field (descriptorOf texts descriptors url dicts) "min" with
      | int n =>
          rw [hminimum] at h
          exact ⟨⟨x, rfl⟩, n, rfl, (numberOf_float_int x n).1 ⟨e, h⟩⟩
      | _ =>
          rw [hminimum] at h
          cases h
  | int n =>
      rw [valueOf] at h
      cases hminimum : field (descriptorOf texts descriptors url dicts) "min" with
      | float x =>
          rw [hminimum] at h hmin
          cases x with
          | finite q => cases h
          | infinity negative => exact absurd hmin id
          | nan => exact absurd hmin id
      | _ =>
          rw [hminimum] at h
          cases h
  | _ => cases h

/-- A data value whose conversion overflows raises. -/
theorem not_ok_of_overflows {texts : Texts} {capture : Captured} {url : String} {body : JsonValue}
    {leaf : Leaf} (hbody : capture.bodies.get? url = some body) (hleaf : leaf ∈ leaves body)
    (h : Overflows texts capture url leaf) (result : Anonymized) :
    anonymize texts capture ≠ .ok result := by
  intro hok
  obtain ⟨rule, hrule, haction⟩ := h.rule
  obtain ⟨x, hx⟩ := h.value
  obtain ⟨n, hn, hlarge⟩ := h.minimum
  obtain ⟨e, he⟩ := (numberOf_float_int x n).2 hlarge
  have hvalue : valueOf texts (capture.descriptors texts) url leaf.dicts leaf.value =
      .error e := by
    rw [hx, valueOf, hn, he]
  have hnone := failure_eq_none hok (Captured.mem_trail hbody (place_of_mem_leaves hleaf))
  rw [failure_of_error hrule haction hvalue] at hnone
  cases hnone

/-- **`anonymize` returns exactly where no conversion overflows**, on bodies
that `parse_json` can return. -/
theorem anonymize_returns_iff (texts : Texts) (capture : Captured)
    (hparsed : ∀ body ∈ capture.bodies.values, Parsed body) :
    (∃ result, anonymize texts capture = .ok result) ↔
      ∀ url body, capture.bodies.get? url = some body →
        ∀ leaf ∈ leaves body, ¬ Overflows texts capture url leaf := by
  have hmin : ∀ url dicts, LeafAll ParsedLeaf
      (field (descriptorOf texts (capture.descriptors texts) url dicts) "min") := fun url dicts =>
    leafAll_field trivial (leafAll_descriptorOf trivial
      (fun body hbody => (hparsed body hbody).leaves) url dicts) "min"
  refine ⟨?_, fun h => ?_⟩
  · rintro ⟨result, hok⟩ url body hbody leaf hleaf hoverflows
    exact not_ok_of_overflows hbody hleaf hoverflows result hok
  · rw [anonymize_eq]
    have hnone : capture.trail.findSome? (Stop.failure texts (capture.descriptors texts)) =
        none := by
      refine List.findSome?_eq_none_iff.2 fun stop hstop => ?_
      obtain ⟨⟨url, body⟩, hitem, hmem⟩ := List.mem_flatMap.1 hstop
      obtain ⟨place, hplace, rfl⟩ := List.mem_map.1 hmem
      cases place with
      | key path key => rfl
      | leaf leaf =>
          have hleaf : leaf ∈ leaves body := List.mem_filterMap.2 ⟨.leaf leaf, hplace, rfl⟩
          cases hfailure : Stop.failure texts (capture.descriptors texts)
              ⟨url, capture.policyOf url, .leaf leaf⟩ with
          | none => rfl
          | some e =>
              obtain ⟨rule, hrule, haction, he⟩ := exists_of_failure hfailure
              obtain ⟨hvalue, hminimum⟩ := of_valueOf_error (hmin url leaf.dicts) he
              have hbody := (capture.mem_order).1 hitem
              exact absurd ⟨⟨rule, hrule, haction⟩, hvalue, hminimum⟩ (h url body hbody leaf hleaf)
    rw [hnone]
    exact ⟨_, rfl⟩

/-- A device with one field, of a `min`, and with a double as its value. -/
def levelCapture (minimum : ℤ) : Captured where
  bodies := .ofList [
    ("/devices/meta", .list [.dict [("id", .int 1), ("endpoints", .list [.dict [("id", .int 1),
      ("metadata", .list [.dict [("name", .str "level"), ("min", .int minimum)]])]])]]),
    ("/devices/data", .list [.dict [("id", .int 1), ("endpoints", .list [.dict [("id", .int 1),
      ("data", .list [.dict [("name", .str "level"), ("value", .float (.finite 1))]])]])]])]
  statuses := .ofList [("/devices/meta", 200), ("/devices/data", 200)]
  distinct := by
    intro body hbody
    rcases List.mem_cons.1 hbody with rfl | hbody
    · rfl
    · rw [List.mem_singleton.1 hbody]
      rfl

theorem leafAll_levelCapture {p : JsonValue → Prop} {minimum : ℤ} (hid : p (.int 1))
    (hname : p (.str "level")) (hvalue : p (.float (.finite 1))) (hmin : p (.int minimum)) :
    ∀ body ∈ (levelCapture minimum).bodies.values, LeafAll p body := by
  intro body hbody
  rcases List.mem_cons.1 hbody with rfl | hbody
  · simp [LeafAll, LeafAllItems, LeafAllFields, hid, hname, hmin]
  · rw [List.mem_singleton.1 hbody]
    simp [LeafAll, LeafAllItems, LeafAllFields, hid, hname, hvalue]

theorem parsed_levelCapture {minimum : ℤ} (h : minimum.natAbs < 10 ^ 4300) :
    ∀ body ∈ (levelCapture minimum).bodies.values, Parsed body := by
  have hpower : ∀ k : ℕ, k ≠ 0 → (1 : ℤ).natAbs < 10 ^ k := fun k hk =>
    Nat.one_lt_pow hk (by decide)
  have hone := hpower 4300 (by decide)
  have hleaves : ∀ body ∈ (levelCapture minimum).bodies.values, LeafAll ParsedLeaf body :=
    leafAll_levelCapture hone trivial trivial h
  intro body hbody
  refine ⟨hleaves body hbody, ?_⟩
  rcases List.mem_cons.1 hbody with rfl | hbody
  · rfl
  · rw [List.mem_singleton.1 hbody]
    rfl

theorem lt_two_pow_sub {m j k e : ℕ} (hm : m < 2 ^ j) (hj : j ≤ k) (hk : k < e) :
    m < 2 ^ e - 2 ^ k := by
  have hsmall : 2 ^ j ≤ 2 ^ k := Nat.pow_le_pow_right (by omega) hj
  have hpower : 2 ^ (k + 1) ≤ 2 ^ e := Nat.pow_le_pow_right (by omega) hk
  rw [Nat.pow_succ] at hpower
  omega

/-- With a small `min` it is anonymized. -/
theorem anonymize_returns_level :
    ∃ result, anonymize .simple (levelCapture 5) = .ok result := by
  have hbound : ∀ m < 2 ^ 3, m < 2 ^ 1024 - 2 ^ 970 := fun m hm =>
    lt_two_pow_sub hm (by decide) (by decide)
  let small : JsonValue → Prop := fun value =>
    ∀ n : ℤ, value = .int n → n.natAbs < 2 ^ 1024 - 2 ^ 970
  have hone : small (.int 1) := by
    rintro n hn
    cases hn
    exact hbound _ (by decide)
  have hfive : small (.int 5) := by
    rintro n hn
    cases hn
    exact hbound _ (by decide)
  have hleaves : ∀ body ∈ (levelCapture 5).bodies.values, LeafAll small body :=
    leafAll_levelCapture hone nofun nofun hfive
  have hten : (5 : ℤ).natAbs < 10 ^ 1 := by decide
  have hpower : ∀ k : ℕ, 1 ≤ k → (5 : ℤ).natAbs < 10 ^ k := fun k hk =>
    hten.trans_le (Nat.pow_le_pow_right (by decide) hk)
  have hdigits := hpower 4300 (by decide)
  refine (anonymize_returns_iff .simple (levelCapture 5) (parsed_levelCapture hdigits)).2 ?_
  rintro url body - leaf - ⟨-, -, n, hn, hlarge⟩
  have hfield := leafAll_field nofun
    (@leafAll_descriptorOf _ .simple _ nofun hleaves url leaf.dicts) "min"
  rw [hn] at hfield
  exact absurd (hfield n rfl) (Nat.not_lt.2 hlarge)

/-- **An integer too large for a double makes `anonymize` raise.** -/
theorem anonymize_raises :
    ¬ ∀ (texts : Texts) (capture : Captured),
      (∀ body ∈ capture.bodies.values, Parsed body) →
        ∃ result, anonymize texts capture = .ok result := by
  intro h
  have habs : ∀ k : ℕ, ((10 : ℤ) ^ k).natAbs = 10 ^ k := fun k => Int.natAbs_pow 10 k
  have hpowers : ∀ j k : ℕ, j < k → ((10 : ℤ) ^ j).natAbs < 10 ^ k := by
    intro j k hjk
    rw [habs]
    exact Nat.pow_lt_pow_right (by decide) hjk
  have hdigits := hpowers 400 4300 (by decide)
  have hlarge : 2 ^ 1024 - 2 ^ 970 ≤ ((10 : ℤ) ^ 400).natAbs := by
    rw [habs]
    have hbase : ∀ j k : ℕ, j ≤ 3 * k → 2 ^ j ≤ 10 ^ k := by
      intro j k hjk
      calc 2 ^ j ≤ 2 ^ (3 * k) := Nat.pow_le_pow_right (by decide) hjk
        _ = (2 ^ 3) ^ k := Nat.pow_mul 2 3 k
        _ ≤ 10 ^ k := Nat.pow_le_pow_left (by decide) k
    exact (Nat.sub_le _ _).trans (hbase 1024 400 (by decide))
  obtain ⟨result, hok⟩ := h .simple (levelCapture (10 ^ 400)) (parsed_levelCapture hdigits)
  let leaf : Leaf := ⟨[.item, .key "endpoints", .item, .key "data", .item, .key "value"], [
    [("id", .int 1), ("endpoints", .list [.dict [("id", .int 1),
      ("data", .list [.dict [("name", .str "level"), ("value", .float (.finite 1))]])]])],
    [("id", .int 1),
      ("data", .list [.dict [("name", .str "level"), ("value", .float (.finite 1))]])],
    [("name", .str "level"), ("value", .float (.finite 1))]], .float (.finite 1)⟩
  have hleaf : (leaves (.list [.dict [("id", .int 1), ("endpoints", .list [.dict [("id", .int 1),
      ("data", .list [.dict [("name", .str "level"), ("value", .float (.finite 1))]])]])]]))[3]? =
        some leaf := rfl
  have hoverflows : Overflows .simple (levelCapture (10 ^ 400)) "/devices/data" leaf :=
    ⟨⟨⟨"[].endpoints[].data[].value", .value, none, none⟩, rfl, rfl⟩, ⟨_, rfl⟩, _, rfl, hlarge⟩
  exact not_ok_of_overflows rfl (List.mem_of_getElem? hleaf) hoverflows result hok

end Capture

end Tydomio
