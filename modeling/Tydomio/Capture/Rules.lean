import Tydomio.Capture.Model.Places
import Tydomio.Capture.Walk
import Mathlib.Data.List.Induction

/-!
# Facts about the reviewed rules

Which characters the segments of a rule path are made of, and so that no
rule of the table can name a key that looks like the token of a renamed
key; and what the table selects at a path.
-/

namespace Tydomio

open Common

namespace Capture

/-! ## The characters of a segment -/

theorem mem_of_mem_splitDots {c : Char} {piece : List Char} (text : List Char) :
    ∀ (escaped : Bool) (part : List Char), piece ∈ splitDots escaped part text → c ∈ piece →
      c ∈ part ∨ c ∈ text := by
  induction text with
  | nil =>
      intro escaped part hpiece hc
      rw [splitDots, List.mem_singleton] at hpiece
      rw [hpiece, List.mem_reverse] at hc
      exact .inl hc
  | cons d text ih =>
      intro escaped part hpiece hc
      rw [splitDots] at hpiece
      split at hpiece
      · rcases List.mem_cons.1 hpiece with rfl | hpiece
        · exact .inl (List.mem_reverse.1 hc)
        · have hrest := (ih _ _ hpiece hc).resolve_left List.not_mem_nil
          exact .inr (List.mem_cons_of_mem _ hrest)
      · rcases ih _ _ hpiece hc with hpart | htext
        · rcases List.mem_cons.1 hpart with rfl | hpart
          · exact .inr List.mem_cons_self
          · exact .inl hpart
        · exact .inr (List.mem_cons_of_mem _ htext)

theorem mem_of_mem_stripItems {c : Char} {part : List Char} (h : c ∈ (stripItems part).1) :
    c ∈ part := by
  induction part using stripItems.induct with
  | case1 key ih =>
      rw [stripItems] at h
      exact List.mem_cons_of_mem _ (List.mem_cons_of_mem _ (ih h))
  | case2 key hkey =>
      rw [stripItems] at h
      · exact h
      · exact hkey

theorem mem_of_mem_unescapeDots {c : Char} {key : List Char} (h : c ∈ unescapeDots key) :
    c ∈ key := by
  induction key using unescapeDots.induct with
  | case1 cs ih =>
      rw [unescapeDots] at h
      rcases List.mem_cons.1 h with rfl | h
      · exact List.mem_cons_of_mem _ List.mem_cons_self
      · exact List.mem_cons_of_mem _ (List.mem_cons_of_mem _ (ih h))
  | case2 d cs hd ih =>
      rw [unescapeDots] at h
      · rcases List.mem_cons.1 h with rfl | h
        · exact List.mem_cons_self
        · exact List.mem_cons_of_mem _ (ih h)
      · exact hd
  | case3 => cases h

/-- The characters of a segment are those of its path, or of a list mark. -/
theorem mem_of_mem_parsePath {path segment : String} {c : Char}
    (hsegment : segment ∈ parsePath path) (hc : c ∈ segment.toList) :
    c ∈ path.toList ∨ c ∈ listItem.toList := by
  obtain ⟨part, hpart, hmem⟩ := List.mem_flatMap.1 hsegment
  rcases List.mem_append.1 hmem with hmem | hmem
  · split at hmem
    · cases hmem
    · rw [List.mem_singleton.1 hmem, String.toList_ofList] at hc
      have hkey := mem_of_mem_stripItems (List.mem_reverse.1 (mem_of_mem_unescapeDots hc))
      exact .inl ((mem_of_mem_splitDots _ _ _ hpart (List.mem_reverse.1 hkey)).resolve_left
        List.not_mem_nil)
  · rw [List.eq_of_mem_replicate hmem] at hc
    exact .inr hc

/-! ## No rule names a token -/

/-- A step further along a path. -/
theorem along_concat (policy : EndpointPolicy) (path : List Step) (step : Step) :
    Position.along policy (path ++ [step]) = (Position.along policy path).step step :=
  List.foldl_append

variable {policy : EndpointPolicy} {path : List Step}

/-- The position at a path holds what the walk has there. -/
theorem at_along (h : ∀ text ∈ policy.opaquePaths, parsePath text ≠ []) (path : List Step) :
    At policy path (Position.along policy path) := by
  induction path using List.reverseRecOn with
  | nil => exact at_root h
  | append_singleton path step ih =>
      rw [along_concat]
      cases step with
      | item => exact ih.child .item follows_item
      | key key => exact ih.child (.key key) (follows_key key)

/-- The rules carried along a path are those of the policy. -/
theorem mem_of_mem_along {rule : Rule × ℕ} (h : rule ∈ (Position.along policy path).rules) :
    rule.1 ∈ policy.rules := by
  induction path using List.reverseRecOn generalizing rule with
  | nil =>
      obtain ⟨known, hknown, rfl⟩ := List.mem_map.1 h
      exact hknown
  | append_singleton path step ih =>
      have hadvance : ∃ next : Rule → ℕ → Bool, (Position.along policy (path ++ [step])).rules =
          Path.advance next (Position.along policy path).rules := by
        rw [along_concat]
        cases step with
        | item => exact ⟨fun rule => follows listItem "" (parsePath rule.path), rfl⟩
        | key key => exact ⟨fun rule => follows key key (parsePath rule.path), rfl⟩
      obtain ⟨next, hnext⟩ := hadvance
      rw [hnext, Path.advance, List.mem_map] at h
      obtain ⟨⟨known, i⟩, hknown, rfl⟩ := h
      have hrule := ih (List.mem_filter.1 hknown).1
      exact hrule

/-- **No segment of a rule path can name a token**: none ends in `>`. -/
def EndpointPolicy.NamesNoToken (policy : EndpointPolicy) : Prop :=
  ∀ rule ∈ policy.rules, ∀ segment ∈ parsePath rule.path, segment.toList.getLast? ≠ some '>'

instance (policy : EndpointPolicy) : Decidable policy.NamesNoToken :=
  inferInstanceAs (Decidable (∀ rule ∈ policy.rules, _))

theorem getLast?_of_segmentMatches {segment key : String} (hany : segment ≠ String.singleton anyKey)
    (h : segmentMatches segment key = true) :
    key.toList.getLast? = segment.toList.getLast? := by
  by_cases hwild : isWildcard segment = true
  · obtain ⟨suffix, rfl⟩ := isWildcard_iff.1 hwild
    obtain ⟨before, -, rfl⟩ := segmentMatches_wildcard_iff.1 h
    have hsuffix : suffix ≠ [] := by
      rintro rfl
      exact hany rfl
    rw [String.toList_ofList, String.toList_ofList, List.getLast?_append_of_ne_nil _ hsuffix,
      ← List.singleton_append, List.getLast?_append_of_ne_nil _ hsuffix]
  · have hplain : isWildcard segment = false := by simpa using hwild
    rw [segmentMatches_plain hplain] at h
    rw [of_decide_eq_true h]

theorem getLast?_of_isIdentifier {key : String} (h : isIdentifier key = true) :
    key.toList.getLast? ≠ some '>' := by
  intro hlast
  have hmem := List.mem_of_getLast? hlast
  unfold isIdentifier at h
  split at h
  · cases h
  · rename_i c cs heq
    rw [heq, List.mem_cons] at hmem
    simp only [Bool.and_eq_true, List.all_eq_true] at h
    rcases hmem with rfl | hmem
    · exact absurd h.1.1 (by decide)
    · exact absurd (h.2 '>' hmem) (by decide)

/-- **No path of a rule has the character.** -/
def Without (c : Char) (rules : List Rule) : Prop := ∀ rule ∈ rules, c ∉ rule.path.toList

theorem Without.append {c : Char} {rules rules' : List Rule} (h : Without c rules)
    (h' : Without c rules') : Without c (rules ++ rules') := by
  intro rule hrule
  rcases List.mem_append.1 hrule with hrule | hrule
  · exact h rule hrule
  · exact h' rule hrule

/-- A token ends in `>`. -/
theorem Without.namesNoToken {rules : List Rule} (h : Without '>' rules)
    (opaquePaths : List String) : (⟨rules, opaquePaths⟩ : EndpointPolicy).NamesNoToken := by
  intro rule hrule segment hsegment hlast
  rcases mem_of_mem_parsePath hsegment (List.mem_of_getLast? hlast) with hmem | hmem
  · exact h rule hrule hmem
  · exact absurd hmem (by decide)

section Tables

open Rule

variable {c : Char} (hc : c = '>' ∨ c = anyKey) {start : String} (h : c ∉ start.toList)

include hc h

theorem without_descriptor : Without c (descriptor start) := by
  rcases hc with rfl | rfl <;> simp_all [Without, descriptor, keeping, anyKey]

theorem without_protocols : Without c (protocols start) := by
  rcases hc with rfl | rfl <;> simp_all [Without, protocols, keeping, anyKey]

theorem without_data : Without c (data start) := by
  rcases hc with rfl | rfl <;> simp_all [Without, data, keeping, anyKey]

theorem without_cmeta : Without c (cmeta start) := by
  have hparameters : c ∉ (start ++ ".parameters[]").toList := by
    rcases hc with rfl | rfl <;> simp_all [anyKey]
  have hown : Without c [keeping (start ++ ".name") .word,
      keeping (start ++ ".permission") .word] := by
    rcases hc with rfl | rfl <;> simp_all [Without, keeping, anyKey]
  exact hown.append (without_descriptor hc hparameters)

omit h

theorem without_deviceIds : Without c deviceIds := by
  rcases hc with rfl | rfl <;> simp [Without, deviceIds, keeping, ofId, anyKey]

theorem without_areaIds : Without c areaIds := by
  rcases hc with rfl | rfl <;> simp [Without, areaIds, keeping, ofId, anyKey]

theorem without_configsFile : Without c configsFile.rules := by
  rcases hc with rfl | rfl <;>
    simp [Without, configsFile, keeping, ofId, ofName, redacting, anyKey]

omit hc

theorem without_info : Without '>' info.rules := by
  refine Without.append (Without.append ?_ (without_protocols (.inl rfl) (by simp))) ?_
  · simp [Without, keeping]
  · simp [Without, keeping, ofId, redacting]

/-- No rule of the table can name a token. -/
theorem namesNoToken_of_policyTable {url : String} {policy : EndpointPolicy}
    (hpolicy : policyTable.get? url = some policy) : policy.NamesNoToken := by
  have hrules : ∀ policy : EndpointPolicy, Without '>' policy.rules → policy.NamesNoToken :=
    fun policy hwithout => hwithout.namesNoToken policy.opaquePaths
  have hc : '>' = '>' ∨ '>' = anyKey := .inl rfl
  have hmem := Dict.mem_of_get?_ofList hpolicy
  simp only [List.mem_cons, Prod.mk.injEq, List.not_mem_nil, or_false] at hmem
  rcases hmem with ⟨-, rfl⟩ | ⟨-, rfl⟩ | ⟨-, rfl⟩ | ⟨-, rfl⟩ | ⟨-, rfl⟩ | ⟨-, rfl⟩ | ⟨-, rfl⟩ |
    ⟨-, rfl⟩ | ⟨-, rfl⟩ | ⟨-, rfl⟩ | ⟨-, rfl⟩ | ⟨-, rfl⟩
  · exact hrules _ (without_configsFile hc)
  · exact hrules _ ((without_deviceIds hc).append (without_descriptor hc (by simp)))
  · exact hrules _ ((without_deviceIds hc).append (without_cmeta hc (by simp)))
  · exact hrules _ ((without_deviceIds hc).append (without_data hc (by simp)))
  · exact hrules _ ((without_areaIds hc).append (without_descriptor hc (by simp)))
  · exact hrules _ ((without_areaIds hc).append (without_cmeta hc (by simp)))
  · exact hrules _ ((without_areaIds hc).append (without_data hc (by simp)))
  · exact hrules _ (by simp [Without, ofId])
  · exact hrules _ (by simp [Without, ofId, keeping])
  · exact hrules _ (by simp [Without, ofId])
  · exact hrules _ (without_protocols hc (by simp))
  · exact hrules _ without_info

/-- So none of an endpoint of a capture can. -/
theorem Captured.namesNoToken_policyOf (capture : Captured) (url : String) :
    (capture.policyOf url).NamesNoToken := by
  unfold Captured.policyOf
  split
  · rename_i policy hpolicy
    split
    · exact namesNoToken_of_policyTable hpolicy
    · exact List.forall_mem_nil _
  · exact List.forall_mem_nil _

end Tables

/-! ## What rules without a wildcard select -/

section Literal

/-- Rules by the segments of their paths. -/
def tableOf (rules : List Rule) : List (List String × Rule) :=
  rules.map fun rule => (parsePath rule.path, rule)

/-- **Rules with no wildcard.** -/
def Literal (rules : List Rule) : Prop :=
  ∀ rule ∈ rules, ∀ segment ∈ parsePath rule.path, isWildcard segment = false

/-- A wildcard has a character of its own. -/
theorem Without.literal {rules : List Rule} (h : Without anyKey rules) : Literal rules := by
  intro rule hrule segment hsegment
  by_contra hwild
  obtain ⟨suffix, rfl⟩ := isWildcard_iff.1 (Bool.not_eq_false _ ▸ hwild)
  have hmem : anyKey ∈ (String.ofList (anyKey :: suffix)).toList := by
    rw [String.toList_ofList]
    exact List.mem_cons_self
  rcases mem_of_mem_parsePath hsegment hmem with hpath | hmark
  · exact h rule hrule hpath
  · exact absurd hmark (by decide)

/-- A segment that is no wildcard matches the step of its text. -/
theorem fits_read {segment : String} (h : isWildcard segment = false) (step : Step) :
    fits segment step.read = decide (segment = step.text) := by
  cases step with
  | item => rfl
  | key key =>
      by_cases hkey : key = listItem
      · rw [hkey]
        rfl
      · have hread : (Step.key key).read = .key key := if_neg hkey
        rw [hread, fits, segmentMatches_plain h, Step.text]
        by_cases hsegment : segment = key
        · simp [hsegment, hkey]
        · simp [hsegment]

theorem matchAll_literal {segments : List String}
    (h : ∀ segment ∈ segments, isWildcard segment = false) (path : List Step) :
    Path.matchAll fits segments (path.map Step.read) = decide (segments = path.map Step.text) := by
  induction segments generalizing path with
  | nil => cases path <;> rfl
  | cons segment segments ih =>
      cases path with
      | nil => rfl
      | cons step path =>
          obtain ⟨hsegment, hsegments⟩ := List.forall_mem_cons.1 h
          rw [List.map_cons, Path.matchAll, fits_read hsegment, ih hsegments, List.map_cons,
            ← Bool.decide_and]
          exact decide_eq_decide.2 (List.cons_eq_cons).symm

/-- **The rule at a path** is that of its text. -/
theorem completeRule_eq_lookup (h : Literal policy.rules) (hnoPaths : policy.opaquePaths = [])
    (path : List Step) : (Position.along policy path).completeRule =
      (tableOf policy.rules).lookup (path.map Step.text) := by
  have hnoPaths' : ∀ text ∈ policy.opaquePaths, parsePath text ≠ [] := by
    rw [hnoPaths]
    exact fun text htext => absurd htext List.not_mem_nil
  rw [(at_along hnoPaths' path).completeRule, tableOf]
  have hrules := h
  revert hrules
  induction policy.rules with
  | nil => exact fun _ => rfl
  | cons rule rules ih =>
      intro hrules
      obtain ⟨hrule, hrest⟩ := List.forall_mem_cons.1 hrules
      rw [List.find?_cons, matchAll_literal hrule, List.map_cons, List.lookup_cons]
      by_cases hpath : parsePath rule.path = path.map Step.text
      · rw [decide_eq_true hpath, hpath, beq_self_eq_true]
      · rw [decide_eq_false hpath, beq_false_of_ne fun heq => hpath heq.symm]
        exact ih hrest

end Literal

/-! ## The rules of a descriptor -/

section Descriptor

open Rule

/-- A path is split at a dot that nothing escapes. -/
theorem splitDots_append {text : List Char} (rest : List Char) :
    ∀ (escaped : Bool) (part : List Char), text.getLast?.elim escaped (fun c => c = '\\') = false →
      splitDots escaped part (text ++ '.' :: rest) =
        splitDots escaped part text ++ splitDots false [] rest := by
  induction text with
  | nil =>
      intro escaped part h
      have hescaped : escaped = false := h
      rw [hescaped]
      rfl
  | cons c text ih =>
      intro escaped part h
      have hlast : ∀ next : Bool, (text = [] → next = decide (c = '\\')) →
          text.getLast?.elim next (fun c => c = '\\') = false := by
        intro next hnext
        cases text with
        | nil => rw [hnext rfl]; exact h
        | cons d text => rw [List.getLast?_cons_cons] at h; exact h
      rw [List.cons_append, splitDots, splitDots]
      by_cases hdot : (decide (c = '.') && !escaped) = true
      · rw [if_pos hdot, if_pos hdot, List.cons_append]
        refine congrArg (part.reverse :: ·) (ih false [] (hlast false fun _ => ?_))
        rw [Bool.and_eq_true, decide_eq_true_eq] at hdot
        rw [hdot.1]
        rfl
      · rw [if_neg hdot, if_neg hdot]
        exact ih _ _ (hlast _ fun _ => rfl)

/-- **A path that goes on after a dot** has the segments of both parts. -/
theorem parsePath_append {start : String} (h : start.toList.getLast? ≠ some '\\') (rest : String) :
    parsePath (start ++ ("." ++ rest)) = parsePath start ++ parsePath rest := by
  have hlast : start.toList.getLast?.elim false (fun c => c = '\\') = false := by
    cases hc : start.toList.getLast? with
    | none => rfl
    | some c =>
        refine decide_eq_false fun heq => h ?_
        rw [hc, heq]
  have htext : (start ++ ("." ++ rest)).toList = start.toList ++ '.' :: rest.toList := by
    rw [String.toList_append, String.toList_append]
    rfl
  rw [parsePath, htext, splitDots_append _ _ _ hlast, List.flatMap_append]
  rfl

/-- What stands under a start, looked up under it. -/
theorem lookup_map_append {A : Type} (start rest : List String) (es : List (List String × A)) :
    (es.map fun e => (start ++ e.1, e.2)).lookup (start ++ rest) = es.lookup rest := by
  induction es with
  | nil => rfl
  | cons e es ih =>
      rw [List.map_cons, List.lookup_cons, List.lookup_cons, ih]
      by_cases h : rest = e.1
      · rw [h, beq_self_eq_true, beq_self_eq_true]
      · rw [beq_false_of_ne h, beq_false_of_ne fun heq => h (List.append_cancel_left heq)]

/-- The rules of `_data` by what follows the start of their paths. -/
def dataFields (start : String) : List (List String × Rule) := [
  (["name"], keeping (start ++ ".name") .word),
  (["validity"], keeping (start ++ ".validity") .word),
  (["value"], ⟨start ++ ".value", .value, none, none⟩)]

/-- The rules of `_DEVICE_IDS`. -/
theorem table_deviceIds : tableOf deviceIds = [
    (["[]", "id"], ofId "[].id"),
    (["[]", "endpoints", "[]", "id"], ofId "[].endpoints[].id"),
    (["[]", "endpoints", "[]", "error"], keeping "[].endpoints[].error" .int),
    (["[]", "endpoints", "[]", "link", "type"], keeping "[].endpoints[].link.type" .word),
    (["[]", "endpoints", "[]", "link", "subtype"], keeping "[].endpoints[].link.subtype" .word),
    (["[]", "endpoints", "[]", "link", "id"], ofId "[].endpoints[].link.id")] :=
  rfl

/-- The rules of `_AREA_IDS`. -/
theorem table_areaIds : tableOf areaIds = [
    (["[]", "id"], ofId "[].id"), (["[]", "error"], keeping "[].error" .int)] :=
  rfl

/-- The rules of `_descriptor` by what follows the start of their paths. -/
def descriptorFields (start : String) : List (List String × Rule) := [
  (["name"], keeping (start ++ ".name") .word),
  (["type"], keeping (start ++ ".type") .word),
  (["permission"], keeping (start ++ ".permission") .word),
  (["validity"], keeping (start ++ ".validity") .word),
  (["unit"], keeping (start ++ ".unit") ⟨[.str], some "[A-Za-z0-9_%°/.-]{1,32}"⟩),
  (["shared"], keeping (start ++ ".shared") .bool),
  (["min"], keeping (start ++ ".min") .number),
  (["max"], keeping (start ++ ".max") .number),
  (["step"], keeping (start ++ ".step") .number),
  (["size"], keeping (start ++ ".size") .int),
  (["enum_values", "[]"], keeping (start ++ ".enum_values[]") .enumValue)]

variable {start : String} (h : start.toList.getLast? ≠ some '\\')

include h

/-- A path that goes on with a key. -/
theorem parsePath_key (path key : String) (segments : List String) (hpath : path = "." ++ key)
    (hkey : parsePath key = segments) :
    parsePath (start ++ path) = parsePath start ++ segments := by
  rw [hpath, parsePath_append h, hkey]

theorem table_data :
    tableOf (data start) = (dataFields start).map fun e => (parsePath start ++ e.1, e.2) := by
  have hkey := parsePath_key h
  simp only [tableOf, data, dataFields, keeping, List.map_cons, List.map_nil]
  rw [hkey ".name" "name" ["name"] rfl rfl, hkey ".validity" "validity" ["validity"] rfl rfl,
    hkey ".value" "value" ["value"] rfl rfl]

/-- **The rule of a field of a data item.** -/
theorem lookup_data (rest : List String) :
    (tableOf (data start)).lookup (parsePath start ++ rest) = (dataFields start).lookup rest := by
  rw [table_data h, lookup_map_append]

theorem table_descriptor : tableOf (descriptor start) =
    (descriptorFields start).map fun e => (parsePath start ++ e.1, e.2) := by
  have hkey := parsePath_key h
  simp only [tableOf, descriptor, descriptorFields, keeping, List.map_cons, List.map_nil]
  rw [hkey ".name" "name" ["name"] rfl rfl,
    hkey ".type" "type" ["type"] rfl rfl,
    hkey ".permission" "permission" ["permission"] rfl rfl,
    hkey ".validity" "validity" ["validity"] rfl rfl,
    hkey ".unit" "unit" ["unit"] rfl rfl,
    hkey ".shared" "shared" ["shared"] rfl rfl,
    hkey ".min" "min" ["min"] rfl rfl,
    hkey ".max" "max" ["max"] rfl rfl,
    hkey ".step" "step" ["step"] rfl rfl,
    hkey ".size" "size" ["size"] rfl rfl,
    hkey ".enum_values[]" "enum_values[]" ["enum_values", "[]"] rfl rfl]

/-- **The rule of a field of a descriptor.** -/
theorem lookup_descriptor (rest : List String) :
    (tableOf (descriptor start)).lookup (parsePath start ++ rest) =
      (descriptorFields start).lookup rest := by
  rw [table_descriptor h, lookup_map_append]

end Descriptor

end Capture

end Tydomio
