import Tydomio.Capture.Noninterference

/-!
# What becomes of a data value

The index of a meta body is asked for one descriptor: the first of the
document under the ids and with the name (`get?_indexDescriptors`). That
descriptor decides what a data value becomes, whatever the shape of the two
bodies: `anonymize_dataValue`.
-/

namespace Tydomio

open Common

namespace Capture

/-! ## The first descriptor -/

section Descriptors

variable (texts : Texts)

/-- **The descriptors of a list of a meta body**, in document order, each
with the ids of the objects it lies under. -/
def described : List String → JsonValue → List (List String × List (String × JsonValue))
  | [], items => (objectsOf items).flatMap fun item =>
      (objectsOf (field item "metadata")).map ([texts.str (field item "id")], ·)
  | next :: levels, items => (objectsOf items).flatMap fun item =>
      (described levels (field item next)).map fun found =>
        (texts.str (field item "id") :: found.1, found.2)

/-- The first of them under some ids with a string for a name, the given one. -/
def firstDescriptor (levels : List String) (body : JsonValue) (ids : List String)
    (name : String) : Option (List (String × JsonValue)) :=
  ((described texts levels body).find? fun found =>
    found.1 = ids && isText name (field found.2 "name")).map Prod.snd

variable {texts}

/-- The index is made of them, one by one. -/
theorem visitItems_eq (levels : List String) :
    ∀ (items : JsonValue) (start : List String) (index : DescriptorIndex),
      visitItems texts items start levels index = (described texts levels items).foldl
        (fun index found => indexOne (start ++ found.1) index found.2) index := by
  induction levels with
  | nil =>
      intro items start index
      rw [visitItems, described, List.foldl_flatMap]
      simp only [List.foldl_map]
  | cons next levels ih =>
      intro items start index
      rw [visitItems, described, List.foldl_flatMap]
      simp only [List.foldl_map, ih, List.append_assoc, List.singleton_append]

/-- A key that an index holds is not written again. -/
theorem get?_indexOne (key : List String) (index : DescriptorIndex)
    (descriptor : List (String × JsonValue)) (ids : List String) (name : String) :
    (indexOne key index descriptor).get? (ids ++ [name]) =
      (index.get? (ids ++ [name])).or
        (if key = ids ∧ isText name (field descriptor "name") = true then some descriptor
        else none) := by
  unfold indexOne
  split
  · rename_i found hfound
    have hkey : ids ++ [name] = key ++ [found] ↔ key = ids ∧ isText name (.str found) = true := by
      rw [isText, decide_eq_true_iff]
      constructor
      · intro h
        obtain ⟨hids, hname⟩ := List.append_inj' h rfl
        exact ⟨hids.symm, (List.singleton_inj.1 hname).symm⟩
      · rintro ⟨rfl, rfl⟩
        rfl
    rw [hfound, Dict.setDefault, Dict.get?_set]
    by_cases hsame : key = ids ∧ isText name (.str found) = true
    · rw [if_pos (hkey.2 hsame), if_pos hsame, hkey.2 hsame]
      cases index.get? (key ++ [found]) <;> rfl
    · rw [if_neg (mt hkey.1 hsame), if_neg hsame, Option.or_none]
  · rename_i hname
    have hnone : isText name (field descriptor "name") = false := by
      cases hvalue : field descriptor "name" with
      | str value => exact absurd hvalue (hname value)
      | _ => rfl
    rw [if_neg fun h => ne_true_of_eq_false hnone h.2, Option.or_none]

theorem get?_foldl_indexOne (found : List (List String × List (String × JsonValue)))
    (index : DescriptorIndex) (ids : List String) (name : String) :
    (found.foldl (fun index found => indexOne found.1 index found.2) index).get? (ids ++ [name]) =
      (index.get? (ids ++ [name])).or ((found.find? fun found =>
        found.1 = ids && isText name (field found.2 "name")).map Prod.snd) := by
  induction found generalizing index with
  | nil => rw [List.find?_nil, Option.map_none, Option.or_none]; rfl
  | cons first found ih =>
      rw [List.foldl_cons, ih, get?_indexOne, Option.or_assoc, List.find?_cons]
      by_cases hfirst : first.1 = ids ∧ isText name (field first.2 "name") = true
      · have htrue : (decide (first.1 = ids) && isText name (field first.2 "name")) = true := by
          rw [Bool.and_eq_true, decide_eq_true_iff]
          exact hfirst
        rw [if_pos hfirst, htrue]
        rfl
      · have hfalse : (decide (first.1 = ids) && isText name (field first.2 "name")) = false := by
          rw [Bool.and_eq_false_iff, decide_eq_false_iff_not, ← Bool.not_eq_true]
          exact not_and_or.1 hfirst
        rw [if_neg hfirst, hfalse]
        rfl

/-- **An index is asked for the first descriptor.** -/
theorem get?_indexDescriptors (body : JsonValue) (levels ids : List String) (name : String) :
    (indexDescriptors texts body levels).get? (ids ++ [name]) =
      firstDescriptor texts levels body ids name := by
  rw [indexDescriptors, visitItems_eq]
  exact (get?_foldl_indexOne _ ∅ ids name).trans (Option.none_or)

end Descriptors

/-! ## What becomes of a value -/

/-- Numeric, and no boolean. -/
def isNumber : JsonValue → Bool
  | .int _ | .float _ => true
  | _ => false

/-- **What becomes of a number**, from the `min` of its descriptor. -/
inductive NumberOut : JsonValue → JsonValue → JsonValue → Prop
  /-- `int(min)`. -/
  | int (n m : ℤ) : NumberOut (.int n) (.int m) (.int m)
  | truncated (n : ℤ) {x : PyFloat} {m : ℤ} : intOfFloat x = .ok m →
      NumberOut (.int n) (.float x) (.int m)
  /-- `float(min)`. -/
  | rounded (x : PyFloat) {m : ℤ} {y : PyFloat} : floatOfInt m = some y →
      NumberOut (.float x) (.int m) (.float y)
  | float (x y : PyFloat) : NumberOut (.float x) (.float y) (.float y)
  /-- No number is the `min`. -/
  | intZero (n : ℤ) {minimum : JsonValue} : isNumber minimum = false →
      NumberOut (.int n) minimum (.int 0)
  | floatZero (x : PyFloat) {minimum : JsonValue} : isNumber minimum = false →
      NumberOut (.float x) minimum (.float (.finite 0))

/-- **What becomes of a data value**, from its descriptor. -/
inductive DataOut (descriptor : Option (List (String × JsonValue))) :
    JsonValue → JsonValue → Prop
  | null : DataOut descriptor .null .null
  | bool (value : Bool) : DataOut descriptor (.bool value) (.bool value)
  /-- A text that its descriptor lists and that has the form of an enum value. -/
  | listed {text : String} {fields : List (String × JsonValue)} {items : List JsonValue} :
      descriptor = some fields → field fields "enum_values" = .list items →
      .str text ∈ items → passes (.str text) .enumValue = true →
      DataOut descriptor (.str text) (.str text)
  /-- One that is not listed, or not of the form. -/
  | notListed {text : String} {fields : List (String × JsonValue)} {items : List JsonValue} :
      descriptor = some fields → field fields "enum_values" = .list items →
      ¬ (.str text ∈ items ∧ passes (.str text) .enumValue = true) →
      DataOut descriptor (.str text) (.str "<not-in-enum>")
  /-- One without a list. -/
  | redacted {text : String} :
      (∀ fields items, descriptor = some fields → field fields "enum_values" ≠ .list items) →
      DataOut descriptor (.str text) (.str "<redacted>")
  /-- A number, with a descriptor. -/
  | number {fields : List (String × JsonValue)} {value out : JsonValue} :
      descriptor = some fields → NumberOut value (field fields "min") out →
      DataOut descriptor value out
  /-- A number without one. -/
  | zero {value out : JsonValue} : descriptor = none → NumberOut value .null out →
      DataOut descriptor value out

section Values

variable {texts : Texts} {descriptors : Dict String DescriptorIndex} {url : String}
  {dicts : List (List (String × JsonValue))}

theorem numberOf_eq_ok {value minimum out : JsonValue} (hvalue : isNumber value = true)
    (h : numberOf value minimum = .ok out) : NumberOut value minimum out := by
  cases value with
  | int n =>
      cases minimum with
      | int m =>
          cases h
          exact .int n m
      | float x =>
          obtain ⟨m, hm, rfl⟩ := map_eq_ok_iff.1 h
          exact .truncated n hm
      | _ =>
          cases h
          exact .intZero n rfl
  | float x =>
      cases minimum with
      | int m =>
          rw [numberOf] at h
          cases hy : floatOfInt m with
          | none =>
              rw [hy] at h
              cases h
          | some y =>
              rw [hy] at h
              cases h
              exact .rounded x hy
      | float y =>
          cases h
          exact .float x y
      | _ =>
          cases h
          exact .floatZero x rfl
  | _ => cases hvalue

theorem any_isText {text : String} {items : List JsonValue} :
    items.any (isText text) = true ↔ .str text ∈ items := by
  rw [List.any_eq_true]
  refine ⟨fun ⟨item, hitem, h⟩ => ?_, fun h => ⟨_, h, decide_eq_true rfl⟩⟩
  cases item with
  | str found => rwa [← of_decide_eq_true h]
  | _ => cases h

theorem dataOut_enumOf (text : String) (descriptor : Option (List (String × JsonValue))) :
    DataOut descriptor (.str text)
      (.str (enumOf text (field (descriptor.getD []) "enum_values"))) := by
  cases descriptor with
  | none => exact .redacted nofun
  | some fields =>
      rw [Option.getD_some]
      cases hvalues : field fields "enum_values" with
      | list items =>
          rw [enumOf]
          split
          · rename_i h
            rw [Bool.and_eq_true, any_isText] at h
            exact .listed rfl hvalues h.1 h.2
          · rename_i h
            rw [Bool.and_eq_true, any_isText] at h
            exact .notListed rfl hvalues h
      | _ =>
          refine .redacted fun found items hfound hlist => ?_
          cases hfound
          rw [hvalues] at hlist
          cases hlist

/-- **What a data value becomes is what its descriptor says.** -/
theorem dataOut_of_valueOf {value out : JsonValue}
    {descriptor : Option (List (String × JsonValue))} (hleaf : value.isLeaf = true)
    (hdescriptor : descriptorOf texts descriptors url dicts = descriptor.getD [])
    (h : valueOf texts descriptors url dicts value = .ok out) : DataOut descriptor value out := by
  have hnumber : isNumber value = true →
      numberOf value (field (descriptor.getD []) "min") = .ok out →
      DataOut descriptor value out := by
    intro hvalue hnumber
    have hout := numberOf_eq_ok hvalue hnumber
    cases descriptor with
    | none => exact .zero rfl hout
    | some fields => exact .number rfl hout
  cases value with
  | null =>
      cases h
      exact .null
  | bool value =>
      cases h
      exact .bool value
  | str text =>
      rw [valueOf, hdescriptor] at h
      cases h
      exact dataOut_enumOf text descriptor
  | int n =>
      rw [valueOf, hdescriptor] at h
      exact hnumber rfl h
  | float x =>
      rw [valueOf, hdescriptor] at h
      exact hnumber rfl h
  | list items => cases hleaf
  | dict items => cases hleaf

end Values

/-! ## The values of a capture -/

section Capture

variable {texts : Texts} {capture : Captured} {result : Anonymized}

/-- **A data value becomes what the first descriptor says** under the ids of
the objects around its item and with its name. -/
theorem anonymize_dataValue (hok : anonymize texts capture = .ok result)
    {url source : String} {levels : List String} {body descriptors : JsonValue}
    (hsource : descriptorSources.get? url = some (source, levels))
    (hbody : capture.bodies.get? url = some body)
    (hdescriptors : capture.bodies.get? source = some descriptors)
    (hstatus : capture.statuses.get? source = some 200) {i : ℕ} {leaf : Leaf}
    (hleaf : (leaves body)[i]? = some leaf) {rule : Rule}
    (hrule : leaf.rule (capture.policyOf url) = some rule) (haction : rule.action = .value) :
    ∃ out, (leaves (Captured.bodyOf result url))[i]? = some out ∧
      DataOut (firstDescriptor texts levels descriptors
          (leaf.dicts.dropLast.map fun around => texts.str (field around "id"))
          (texts.str (field (leaf.dicts.getLast?.getD []) "name"))) leaf.value out.value := by
  let dicts := leaf.dicts
  have hmem := List.mem_of_getElem? hleaf
  have hdescriptor : descriptorOf texts (capture.descriptors texts) url dicts =
      (firstDescriptor texts levels descriptors
        (dicts.dropLast.map fun around => texts.str (field around "id"))
        (texts.str (field (dicts.getLast?.getD []) "name"))).getD [] := by
    rw [descriptorOf, get?_descriptors, hsource, Option.bind_some, if_pos hstatus, hdescriptors,
      Option.map_some, Option.getD_some, dataKey, get?_indexDescriptors]
  obtain ⟨out, hout⟩ : ∃ out,
      valueOf texts (capture.descriptors texts) url dicts leaf.value = .ok out := by
    cases hvalue : valueOf texts (capture.descriptors texts) url dicts leaf.value with
    | ok out => exact ⟨out, rfl⟩
    | error e =>
        have hnone := failure_eq_none hok (Captured.mem_trail hbody (place_of_mem_leaves hmem))
        rw [failure_of_error hrule haction hvalue] at hnone
        cases hnone
  have hscalar : leaf.value.isLeaf = true :=
    isLeaf_of_mem_places body [] [] leaf (place_of_mem_leaves hmem)
  have hitem : (url, body) ∈ capture.order := (capture.mem_order).2 hbody
  have hleaves := Rewrite.forall₂_leaves (Captured.keepsType hok hbody)
  obtain ⟨hi, hget⟩ := List.getElem?_eq_some_iff.1 hleaf
  have hi' := hleaves.length_eq ▸ hi
  obtain ⟨-, hvalue⟩ := hleaves.get hi hi'
  rw [List.get_eq_getElem, List.get_eq_getElem, hget] at hvalue
  have hdata := dataOut_of_valueOf hscalar hdescriptor hout
  rw [← hvalue.trans (outLeaf_of_value hrule haction hout)] at hdata
  rw [Captured.bodyOf_eq hok hitem]
  exact ⟨_, List.getElem?_eq_getElem hi', hdata⟩

end Capture

/-- The value of an area becomes the `min` of its descriptor. -/
theorem dataValue_areaCapture : ∃ result out, anonymize .quoted (areaCapture "x") = .ok result ∧
    (leaves (Captured.bodyOf result "/areas/data"))[2]? = some out ∧
    DataOut (some [("name", .str "['x']"), ("min", .int 5)]) (.int 7) out.value := by
  have hnumbers := outNumbers_areaCapture.1
  cases hok : anonymize .quoted (areaCapture "x") with
  | error e =>
      rw [hok] at hnumbers
      cases hnumbers
  | ok result =>
      let leaf : Leaf := ⟨[.item, .key "data", .item, .key "value"], [
        [("id", .int 1), ("data", .list [.dict [("name", .list [.str "x"]), ("value", .int 7)]])],
        [("name", .list [.str "x"]), ("value", .int 7)]], .int 7⟩
      have hleaf : (leaves (areaData (.list [.str "x"])))[2]? = some leaf := rfl
      have hrule : leaf.rule ((areaCapture "x").policyOf "/areas/data") =
          some ⟨"[].data[].value", .value, none, none⟩ := by
        have hids := @idsBefore_areaIds "[].data[]" "data" rfl (by simp [anyKey])
        exact (completeRule_eq_lookup hids.without_data.literal rfl leaf.path).trans rfl
      obtain ⟨out, hout, hdata⟩ := anonymize_dataValue hok rfl rfl rfl rfl hleaf hrule rfl
      exact ⟨result, out, rfl, hout, hdata⟩

end Capture

end Tydomio
