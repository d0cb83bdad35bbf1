import Tydomio.Capture.Report

/-!
# Ids and names stay the ids and names they were

Two ids of a capture come out with one text exactly when they went in with
one, in whatever endpoints and with whatever types they stand; two names
come out as one token exactly when they are one name of one kind. The
numbers of the ids are 1 to n in order of first occurrence:
`anonymize_referential`.
-/

namespace Tydomio

open Common

namespace Capture

/-! ## Ids and names of the output -/

namespace LeafOut

variable (capture : Captured) (pair : LeafOut)

/-- The text of an id that is numbered: an integer or a text that is not
empty, at an ID rule. -/
def rawId : Option String :=
  (pair.raw.rule (capture.policyOf pair.url)).bind fun rule =>
    if rule.action = .id then idText pair.raw.value else none

/-- The text that such an id comes out with. -/
def outId : Option String := (pair.rawId capture).bind fun _ => idText pair.out

/-- The kind and the text of a name: a text at a NAME rule. -/
def rawName : Option (String × String) :=
  (pair.raw.rule (capture.policyOf pair.url)).bind fun rule =>
    match rule.action, pair.raw.value with
    | .name, .str text => some (State.kindOf rule, text)
    | _, _ => none

end LeafOut

/-- **Ids and names of a capture, before and after.** -/
structure Referential (capture : Captured) (result : Anonymized) : Prop where
  /-- Each leaf is accounted for. -/
  leaves : ∀ url body, capture.bodies.get? url = some body → ∀ leaf ∈ leaves body,
    ∃ pair ∈ capture.leafOuts result, pair.url = url ∧ pair.raw = leaf
  /-- Two ids have one text after exactly when they have one before. -/
  id : ∀ pair ∈ capture.leafOuts result, ∀ other ∈ capture.leafOuts result, ∀ text text',
    pair.rawId capture = some text → other.rawId capture = some text' →
    (idText pair.out = idText other.out ↔ text = text')
  /-- An integer gives an integer and a text a text. -/
  idType : ∀ pair ∈ capture.leafOuts result, ∀ text, pair.rawId capture = some text →
    jsonTypeName pair.out = jsonTypeName pair.raw.value
  /-- The numbers are 1 to n, in order of first occurrence. -/
  idOrder : firsts ((capture.leafOuts result).filterMap (LeafOut.outId capture)) =
    (List.range' 1 (firsts ((capture.leafOuts result).filterMap
      (LeafOut.rawId capture))).length).map toString
  /-- None is the number of a placeholder. -/
  idNotZero : ∀ pair ∈ capture.leafOuts result, ∀ text, pair.rawId capture = some text →
    idText pair.out ≠ idText (.int 0)
  /-- Two names become one token exactly when they are one name of one
  kind. -/
  name : ∀ pair ∈ capture.leafOuts result, ∀ other ∈ capture.leafOuts result, ∀ name name',
    pair.rawName capture = some name → other.rawName capture = some name' →
    (pair.out = other.out ↔ name = name')

/-! ## Tokens -/

/-- The token of a name says its kind and its number. -/
theorem nameToken_inj {kind kind' : String} {m n : ℕ}
    (h : nameToken kind m = nameToken kind' n) : kind = kind' ∧ m = n := by
  have hinner : "<name:" ++ (kind ++ ":" ++ toString m) =
      "<name:" ++ (kind' ++ ":" ++ toString n) := by
    rw [nameToken, nameToken, String.append_left_inj] at h
    simpa only [String.append_assoc] using h
  rw [String.append_right_inj] at hinner
  exact Text.append_natText_inj hinner

section Result

variable {capture : Captured} {result : Anonymized} {texts : Texts}
  (hok : anonymize texts capture = .ok result)

include hok

/-! ## What an id and a name become -/

/-- An id is one of the trail, and becomes its number. -/
theorem out_of_rawId {pair : LeafOut} (hpair : pair ∈ capture.leafOuts result) {text : String}
    (h : pair.rawId capture = some text) :
    text ∈ capture.idTexts ∧ idText pair.raw.value = some text ∧
      pair.out = outId capture.trail pair.raw.value := by
  obtain ⟨hstop, -, hout⟩ := exists_of_mem_leafOuts hok hpair
  have hid : Stop.idText ⟨pair.url, capture.policyOf pair.url, .leaf pair.raw⟩ = some text := h
  obtain ⟨rule, hrule, htext⟩ := Option.bind_eq_some_iff.1 h
  split at htext
  · rename_i haction
    refine ⟨List.mem_filterMap.2 ⟨_, hstop, hid⟩, htext, ?_⟩
    rw [hout]
    exact outLeaf_of_id hrule haction
  · cases htext

theorem idText_out_of_rawId {pair : LeafOut} (hpair : pair ∈ capture.leafOuts result)
    {text : String} (h : pair.rawId capture = some text) :
    idText pair.out = some (toString (idNumber capture.trail text)) := by
  obtain ⟨-, htext, hout⟩ := out_of_rawId hok hpair h
  rw [hout, idText_outId htext]

/-- A name is one of the trail, and becomes its token. -/
theorem out_of_rawName {pair : LeafOut} (hpair : pair ∈ capture.leafOuts result)
    {kind text : String} (h : pair.rawName capture = some (kind, text)) :
    text ∈ capture.nameTexts kind ∧
      pair.out = .str (nameToken kind (nameNumber capture.trail kind text)) := by
  obtain ⟨hstop, -, hout⟩ := exists_of_mem_leafOuts hok hpair
  have hname : Stop.nameText ⟨pair.url, capture.policyOf pair.url, .leaf pair.raw⟩ =
      some (kind, text) := h
  refine ⟨Dict.mem_itemsOf.2 (List.mem_filterMap.2 ⟨_, hstop, hname⟩), ?_⟩
  obtain ⟨rule, hrule, htext⟩ := Option.bind_eq_some_iff.1 h
  split at htext
  · rename_i raw haction hvalue
    cases htext
    have hleaf : (capture.rewrite texts pair.url).leaf pair.raw = outName capture.trail _ _ :=
      outLeaf_of_name hrule haction
    rw [hout, hleaf, hvalue, outName]
  · cases htext

/-! ## The list of ids -/

/-- The ids of the leaves are those of the trail. -/
theorem filterMap_rawId :
    (capture.leafOuts result).filterMap (LeafOut.rawId capture) = capture.idTexts := by
  rw [leafOuts_eq hok, List.filterMap_filterMap, Captured.idTexts]
  refine List.filterMap_congr fun stop hstop => ?_
  obtain ⟨url, policy, place⟩ := stop
  obtain rfl := Captured.policy_of_mem_trail hstop
  cases place with
  | key path key => rfl
  | leaf leaf => rfl

/-- Those of the output are their numbers. -/
theorem filterMap_outId :
    (capture.leafOuts result).filterMap (LeafOut.outId capture) =
      (capture.idTexts.map (number capture.idTexts)).map toString := by
  rw [← filterMap_rawId hok, List.map_map, List.map_filterMap, filterMap_rawId hok]
  refine List.filterMap_congr fun pair hpair => ?_
  cases hraw : pair.rawId capture with
  | none => rw [LeafOut.outId, hraw]; rfl
  | some text =>
      rw [LeafOut.outId, hraw, Option.bind_some, idText_out_of_rawId hok hpair hraw]
      rfl

/-- **Ids and names stay the ids and names they were.** -/
theorem anonymize_referential : Referential capture result where
  leaves _ _ hbody _ hleaf := exists_leafOut hok hbody hleaf
  id pair hpair other hother text text' htext htext' := by
    obtain ⟨hmem, -, -⟩ := out_of_rawId hok hpair htext
    rw [idText_out_of_rawId hok hpair htext, idText_out_of_rawId hok hother htext',
      Option.some.injEq, Text.natText_injective.eq_iff]
    exact number_inj hmem
  idType pair hpair text htext := by
    obtain ⟨-, -, hout⟩ := out_of_rawId hok hpair htext
    obtain ⟨hstop, -, -⟩ := exists_of_mem_leafOuts hok hpair
    rw [hout, ← jsonTypeName_outId _ (Captured.isLeaf_of_mem_trail hstop)]
  idOrder := by
    have hinjective : ∀ m ∈ capture.idTexts.map (number capture.idTexts),
        ∀ n ∈ capture.idTexts.map (number capture.idTexts),
          toString m = toString n → m = n := fun _ _ _ _ h => Text.natText_injective h
    rw [filterMap_outId hok, firsts_map hinjective, firsts_map_number, filterMap_rawId hok]
  idNotZero pair hpair text htext h := by
    have hzero : idText (.int 0) = some (toString 0) := rfl
    rw [idText_out_of_rawId hok hpair htext, hzero, Option.some.injEq] at h
    have hpos : 0 < idNumber capture.trail text := number_pos _ _
    exact absurd (Text.natText_injective h) hpos.ne'
  name pair hpair other hother name name' hname hname' := by
    obtain ⟨kind, text⟩ := name
    obtain ⟨kind', text'⟩ := name'
    obtain ⟨hmem, hout⟩ := out_of_rawName hok hpair hname
    obtain ⟨-, hout'⟩ := out_of_rawName hok hother hname'
    rw [hout, hout', JsonValue.str.injEq]
    constructor
    · intro htoken
      obtain ⟨rfl, hnumber⟩ := nameToken_inj htoken
      rw [(number_inj hmem).1 hnumber]
    · rintro heq
      cases heq
      rfl

end Result

/-- A group with one device of its own id, as a text, and another. -/
def groupsCapture : Captured :=
  ⟨.ofList [("/groups/file", .dict [("groups", .list [.dict [("id", .int 7),
      ("devices", .list [.dict [("id", .str "7")], .dict [("id", .str "x")]])]])])],
    .ofList [("/groups/file", 200)], by decide⟩

/-- What becomes of them. -/
def groupsAnonymized : Anonymized :=
  ⟨.ofList [("/groups/file", .dict [("groups", .list [.dict [("id", .int 1),
      ("devices", .list [.dict [("id", .str "1")], .dict [("id", .str "2")]])]])])], [], []⟩

/-- They stay the ids they were. -/
theorem referential_groups : Referential groupsCapture groupsAnonymized := by
  have hok : anonymize .simple groupsCapture = .ok groupsAnonymized := rfl
  exact anonymize_referential hok

end Capture

end Tydomio
