import Tydomio.Capture.Rules

/-!
# The walk computes what the anonymizer is for

`_node` threads its maps through the walk and numbers what is new by the
size of a map. Over a whole capture that is a rewriting with no state: the
number of a key, an id or a name is that of its first occurrence in the
trail of all places, and the reports are those of the places in order. The
state after a part of the trail is determined by that part (`State.after`), so
one equation says what the walk of a node returns and what it leaves:
`node_eq`, and `anonymize_eq` for a capture.
-/

namespace Tydomio

open Common

namespace Capture

/-! ## Paths rewritten -/

namespace Rewrite

variable (r : Rewrite)

theorem steps_append (done path rest : List Step) :
    r.steps done (path ++ rest) = r.steps done path ++ r.steps (done ++ path) rest := by
  induction path generalizing done with
  | nil => rw [List.append_nil]; rfl
  | cons step path ih =>
      cases step with
      | item => rw [List.cons_append, steps, steps, ih, List.append_assoc]; rfl
      | key key => rw [List.cons_append, steps, steps, ih, List.append_assoc]; rfl

theorem path_concat_item (path : List Step) : r.path (path ++ [.item]) = r.path path ++ [.item] :=
  r.steps_append [] path [.item]

theorem path_concat_key (path : List Step) (key : String) :
    r.path (path ++ [.key key]) = r.path path ++ [.key (r.key path key)] :=
  r.steps_append [] path [.key key]

end Rewrite

section Node

variable {trail : List Stop} {url : String} {policy : EndpointPolicy}

theorem outPath_concat_item (path : List Step) :
    outPath trail policy (path ++ [.item]) = outPath trail policy path ++ [listItem] := by
  rw [outPath, Rewrite.path_concat_item, List.map_append]
  rfl

theorem outPath_concat_key (path : List Step) (key : String) :
    outPath trail policy (path ++ [.key key]) =
      outPath trail policy path ++ [outKey trail policy path key] := by
  rw [outPath, Rewrite.path_concat_key, List.map_append]
  rfl

/-- **The position of the walk at a path**, in the objects around it. -/
def located (trail : List Stop) (policy : EndpointPolicy) (path : List Step)
    (dicts : List (List (String × JsonValue))) : Position :=
  { Position.along policy path with generic := outPath trail policy path, dicts }

variable {path : List Step} {dicts : List (List (String × JsonValue))}

theorem located_item : (located trail policy path dicts).child listItem "" listItem =
    located trail policy (path ++ [.item]) dicts := by
  rw [located, located, along_concat, outPath_concat_item]
  rfl

theorem located_key (key : String) :
    (located trail policy path dicts).child key key (outKey trail policy path key) =
      located trail policy (path ++ [.key key]) dicts := by
  rw [located, located, along_concat, outPath_concat_key]
  rfl

/-! ## The state after a part of the trail -/

/-- The tables of names, by kind, after names of the kinds. -/
def nameTable (names : List (String × String)) : Dict String (Dict String ℕ) :=
  Dict.upsertAll (fun _ => true) (fun known text => (known.getD ∅).label (fun n => n) text) names ∅

theorem nameTable_concat (names : List (String × String)) (kind text : String) :
    nameTable (names ++ [(kind, text)]) = (nameTable names).set kind
      ((((nameTable names).get? kind).getD ∅).label (fun n => n) text) := by
  rw [nameTable, Dict.upsertAll, List.foldl_append]
  rfl

/-- Each table numbers the names of its kind. -/
theorem getD_nameTable (names : List (String × String)) (kind : String) :
    ((nameTable names).get? kind).getD ∅ =
      Dict.labelAll (fun n => n) (Dict.itemsOf kind names) := by
  have hfold : ∀ (texts : List String) (known : Option (Dict String ℕ)),
      (texts.foldl (fun v a => some ((v.getD ∅).label (fun n => n) a)) known).getD ∅ =
        texts.foldl (Dict.label fun n => n) (known.getD ∅) := by
    intro texts
    induction texts with
    | nil => intro known; rfl
    | cons text texts ih => intro known; exact ih _
  rw [nameTable, Dict.get?_upsertAll, if_pos rfl, Dict.get?_empty]
  exact hfold _ none

/-- **The state after a part of the trail.** -/
def State.after (trail : List Stop) (url : String) (seen : List Stop) : State where
  url
  keys := Dict.labelAll keyToken (seen.filterMap Stop.renamedKey)
  renamed := firsts (seen.filterMap (Stop.renamedReport trail))
  ids := Dict.labelAll (fun n => n) (seen.filterMap Stop.idText)
  names := nameTable (seen.filterMap Stop.nameText)
  unknown := firsts (seen.filterMap (Stop.unknownLeaf trail))

theorem State.after_nil : State.after trail "" [] = .initial := rfl

/-! ## Keys -/

theorem Anonymizer.key_of_keeps (anonymizer : Anonymizer) {key : String} {position : Position}
    (h : position.keeps key = true) : anonymizer.key key position = (key, anonymizer) :=
  if_pos h

theorem Anonymizer.key_of_not_keeps (anonymizer : Anonymizer) {key : String} {position : Position}
    (h : position.keeps key = false) :
    anonymizer.key key position =
      let result := anonymizer.keys.setDefault key
        (keyToken (anonymizer.keys.entries.length + 1))
      (result.1,
        { anonymizer with
          keys := result.2
          renamed := insertNew anonymizer.renamed
            ⟨anonymizer.url, generic (position.generic ++ [result.1])⟩ }) :=
  if_neg (ne_true_of_eq_false h)

section Part

variable {α : Type*} {f : Stop → Option α} {seen : List Stop} {stop : Stop}

theorem filterMap_concat_of_none (h : f stop = none) :
    (seen ++ [stop]).filterMap f = seen.filterMap f := by
  rw [List.filterMap_append, List.filterMap_cons_none h, List.filterMap_nil, List.append_nil]

theorem filterMap_concat_of_some {x : α} (h : f stop = some x) :
    (seen ++ [stop]).filterMap f = seen.filterMap f ++ [x] := by
  rw [List.filterMap_append, List.filterMap_cons_some h, List.filterMap_nil]

/-- The number of an item of a part is its number in the whole. -/
theorem number_of_prefix [DecidableEq α] (h : seen <+: trail) {x : α}
    (hx : x ∈ seen.filterMap f) :
    number (trail.filterMap f) x = number (seen.filterMap f) x := by
  obtain ⟨rest, rfl⟩ := h
  rw [List.filterMap_append, number_append_of_mem hx]

/-- The number of the last item of a part. -/
theorem number_of_prefix_concat [DecidableEq α] (h : seen ++ [stop] <+: trail) {x : α}
    (hx : f stop = some x) :
    number (trail.filterMap f) x = number (seen.filterMap f ++ [x]) x := by
  have hsome : (seen ++ [stop]).filterMap f = seen.filterMap f ++ [x] :=
    filterMap_concat_of_some hx
  rw [← hsome]
  refine number_of_prefix h ?_
  rw [hsome]
  exact List.mem_append_right _ (List.mem_singleton_self x)

end Part

/-- **What `_key` does at a place.** -/
theorem State.key_after {seen : List Stop} {key : String}
    (h : seen ++ [⟨url, policy, .key path key⟩] <+: trail) :
    (State.after trail url seen).key (located trail policy path dicts) key =
      (outKey trail policy path key,
        State.after trail url (seen ++ [⟨url, policy, .key path key⟩])) := by
  let stop : Stop := ⟨url, policy, .key path key⟩
  have hid : stop.idText = none := rfl
  have hname : stop.nameText = none := rfl
  have hleaf : stop.unknownLeaf trail = none := rfl
  rw [State.after, State.after, filterMap_concat_of_none hid, filterMap_concat_of_none hname,
    filterMap_concat_of_none hleaf]
  cases hkeeps : (Position.along policy path).keeps key with
  | true =>
      have hkey : stop.renamedKey = none := if_pos hkeeps
      have hreport : stop.renamedReport trail = none := if_pos hkeeps
      have hlocated : (located trail policy path dicts).keeps key = true := hkeeps
      rw [filterMap_concat_of_none hkey, filterMap_concat_of_none hreport, outKey, if_pos hkeeps,
        State.key, Anonymizer.key_of_keeps _ hlocated]
  | false =>
      have hkeeps' := ne_true_of_eq_false hkeeps
      have hkey : stop.renamedKey = some key := if_neg hkeeps'
      have hreport : stop.renamedReport trail = some ⟨url, generic (outPath trail policy path ++
        [keyToken (keyNumber trail key)])⟩ := if_neg hkeeps'
      have hlocated : (located trail policy path dicts).keeps key = false := hkeeps
      have hset := @Dict.setDefault_labelAll _ _ _ keyToken (seen.filterMap Stop.renamedKey) key
      rw [← number_of_prefix_concat h hkey] at hset
      rw [filterMap_concat_of_some hkey, filterMap_concat_of_some hreport, firsts_concat, outKey,
        if_neg hkeeps', State.key, Anonymizer.key_of_not_keeps _ hlocated]
      simp only [hset]
      rfl

/-! ## What becomes of a leaf -/

section OutLeaf

variable {leaf : Leaf} {rule : Rule} {texts : Texts} {descriptors : Dict String DescriptorIndex}

theorem outLeaf_of_none (hrule : leaf.rule policy = none) :
    outLeaf trail texts descriptors url policy leaf = placeholder leaf.value := by
  rw [outLeaf, hrule]

theorem outLeaf_of_keep (hrule : leaf.rule policy = some rule) (haction : rule.action = .keep) :
    outLeaf trail texts descriptors url policy leaf =
      if rule.keep.any (passes leaf.value) then leaf.value else placeholder leaf.value := by
  simp only [outLeaf, hrule, haction]

theorem outLeaf_of_id (hrule : leaf.rule policy = some rule) (haction : rule.action = .id) :
    outLeaf trail texts descriptors url policy leaf = outId trail leaf.value := by
  simp only [outLeaf, hrule, haction]

theorem outLeaf_of_name (hrule : leaf.rule policy = some rule) (haction : rule.action = .name) :
    outLeaf trail texts descriptors url policy leaf =
      outName trail (State.kindOf rule) leaf.value := by
  simp only [outLeaf, hrule, haction]

theorem outLeaf_of_redact (hrule : leaf.rule policy = some rule)
    (haction : rule.action = .redact) :
    outLeaf trail texts descriptors url policy leaf = placeholder leaf.value := by
  simp only [outLeaf, hrule, haction]

theorem outLeaf_of_value (hrule : leaf.rule policy = some rule) (haction : rule.action = .value)
    {out : JsonValue} (h : valueOf texts descriptors url leaf.dicts leaf.value = .ok out) :
    outLeaf trail texts descriptors url policy leaf = out := by
  simp only [outLeaf, hrule, haction, h]
  rfl

theorem failure_of_ok (hrule : leaf.rule policy = some rule) {out : JsonValue}
    (h : valueOf texts descriptors url leaf.dicts leaf.value = .ok out) :
    Stop.failure texts descriptors ⟨url, policy, .leaf leaf⟩ = none := by
  simp [Stop.failure, hrule, h]

theorem failure_of_error (hrule : leaf.rule policy = some rule) (haction : rule.action = .value)
    {e : Exc} (h : valueOf texts descriptors url leaf.dicts leaf.value = .error e) :
    Stop.failure texts descriptors ⟨url, policy, .leaf leaf⟩ = some e := by
  simp [Stop.failure, hrule, haction, h]

theorem exists_of_failure {e : Exc}
    (h : Stop.failure texts descriptors ⟨url, policy, .leaf leaf⟩ = some e) :
    ∃ rule, leaf.rule policy = some rule ∧ rule.action = .value ∧
      valueOf texts descriptors url leaf.dicts leaf.value = .error e := by
  obtain ⟨rule, hrule, h⟩ := Option.bind_eq_some_iff.1 h
  refine ⟨rule, hrule, ?_⟩
  split at h
  · rename_i haction
    refine ⟨haction, ?_⟩
    split at h
    · cases h
    · rename_i e' he
      cases h
      exact he
  · cases h

end OutLeaf

/-! ## Leaves -/

/-- The result, unless there is an exception. -/
def raising {α : Type} (failure : Option Exc) (result : α) : Except Exc α :=
  match failure with
  | none => .ok result
  | some e => .error e

section Leaf

variable {seen : List Stop} {value : JsonValue}

/-- **The state after one more leaf**: its texts are numbered and its report
is added; the keys are as they were. -/
theorem State.after_leaf (leaf : Leaf) :
    State.after trail url (seen ++ [⟨url, policy, .leaf leaf⟩]) =
      { State.after trail url seen with
        ids := Dict.labelAll (fun n => n)
          (seen.filterMap Stop.idText ++ (Stop.idText ⟨url, policy, .leaf leaf⟩).toList)
        names := nameTable
          (seen.filterMap Stop.nameText ++ (Stop.nameText ⟨url, policy, .leaf leaf⟩).toList)
        unknown := firsts (seen.filterMap (Stop.unknownLeaf trail) ++
          (Stop.unknownLeaf trail ⟨url, policy, .leaf leaf⟩).toList) } := by
  have hkey : Stop.renamedKey ⟨url, policy, .leaf leaf⟩ = none := rfl
  have hreport : Stop.renamedReport trail ⟨url, policy, .leaf leaf⟩ = none := rfl
  have hconcat : ∀ {α : Type} (f : Stop → Option α) (stop : Stop),
      (seen ++ [stop]).filterMap f = seen.filterMap f ++ (f stop).toList := by
    intro α f stop
    cases hf : f stop with
    | none => rw [filterMap_concat_of_none hf, Option.toList_none, List.append_nil]
    | some x => rw [filterMap_concat_of_some hf, Option.toList_some]
  rw [State.after, State.after, filterMap_concat_of_none hkey, filterMap_concat_of_none hreport]
  simp only [hconcat]

theorem unknownLeaf_of_reason_none {leaf : Leaf} (hreason : leaf.reason policy = none) :
    Stop.unknownLeaf trail ⟨url, policy, .leaf leaf⟩ = none := by
  simp only [Stop.unknownLeaf, hreason, Option.map_none]

/-- A leaf with nothing to number or to report. -/
theorem State.after_silent {leaf : Leaf} (hid : Stop.idText ⟨url, policy, .leaf leaf⟩ = none)
    (hname : Stop.nameText ⟨url, policy, .leaf leaf⟩ = none)
    (hreason : leaf.reason policy = none) :
    State.after trail url (seen ++ [⟨url, policy, .leaf leaf⟩]) = State.after trail url seen := by
  rw [State.after_leaf, hid, hname, unknownLeaf_of_reason_none hreason]
  simp only [Option.toList_none, List.append_nil]
  rfl

/-- **What `_unknown_leaf` does.** -/
theorem State.unknownLeaf_after {reason : String}
    (hid : Stop.idText ⟨url, policy, .leaf ⟨path, dicts, value⟩⟩ = none)
    (hname : Stop.nameText ⟨url, policy, .leaf ⟨path, dicts, value⟩⟩ = none)
    (hreason : Leaf.reason policy ⟨path, dicts, value⟩ = some reason) :
    (State.after trail url seen).unknownLeaf (located trail policy path dicts) value reason =
      (placeholder value,
        State.after trail url (seen ++ [⟨url, policy, .leaf ⟨path, dicts, value⟩⟩])) := by
  have hleaf : Stop.unknownLeaf trail ⟨url, policy, .leaf ⟨path, dicts, value⟩⟩ =
      some ⟨url, generic (outPath trail policy path), jsonTypeName value, reason⟩ := by
    simp only [Stop.unknownLeaf, hreason, Option.map_some]
  rw [State.unknownLeaf, State.after_leaf, hid, hname, hleaf, Option.toList_some, firsts_concat]
  simp only [Option.toList_none, List.append_nil]
  rfl

/-- **What the numbering of an id does.** -/
theorem State.idNumber_after {leaf : Leaf} {text : String}
    (h : seen ++ [⟨url, policy, .leaf leaf⟩] <+: trail)
    (hid : Stop.idText ⟨url, policy, .leaf leaf⟩ = some text)
    (hname : Stop.nameText ⟨url, policy, .leaf leaf⟩ = none)
    (hreason : leaf.reason policy = none) :
    (State.after trail url seen).idNumber text =
      (Capture.idNumber trail text,
        State.after trail url (seen ++ [⟨url, policy, .leaf leaf⟩])) := by
  have hset := @Dict.setDefault_labelAll _ _ _ (fun n => n) (seen.filterMap Stop.idText) text
  rw [← number_of_prefix_concat h hid] at hset
  rw [State.idNumber, State.after_leaf, hid, hname, unknownLeaf_of_reason_none hreason]
  simp only [Option.toList_none, Option.toList_some, List.append_nil, State.after, hset]
  rfl

/-- **What the numbering of a name does.** -/
theorem State.nameNumber_after {leaf : Leaf} {kind text : String}
    (h : seen ++ [⟨url, policy, .leaf leaf⟩] <+: trail)
    (hid : Stop.idText ⟨url, policy, .leaf leaf⟩ = none)
    (hname : Stop.nameText ⟨url, policy, .leaf leaf⟩ = some (kind, text))
    (hreason : leaf.reason policy = none) :
    (State.after trail url seen).nameNumber kind text =
      (Capture.nameNumber trail kind text,
        State.after trail url (seen ++ [⟨url, policy, .leaf leaf⟩])) := by
  let stop : Stop := ⟨url, policy, .leaf leaf⟩
  let names := seen.filterMap Stop.nameText
  have hset := @Dict.setDefault_labelAll _ _ _ (fun n => n) (Dict.itemsOf kind names) text
  have hnumber : Capture.nameNumber trail kind text =
      number (Dict.itemsOf kind names ++ [text]) text := by
    obtain ⟨rest, rfl⟩ := h
    have hitems : Dict.itemsOf kind ((seen ++ [stop] ++ rest).filterMap Stop.nameText) =
        Dict.itemsOf kind names ++ [text] ++ Dict.itemsOf kind (rest.filterMap Stop.nameText) := by
      rw [List.filterMap_append, filterMap_concat_of_some hname]
      simp [Dict.itemsOf, names]
    rw [Capture.nameNumber, hitems,
      number_append_of_mem (List.mem_append_right _ (List.mem_singleton_self text))]
  rw [← hnumber, ← getD_nameTable] at hset
  have htable : ((nameTable names).setDefault kind ∅).1 =
      ((nameTable names).get? kind).getD ∅ := rfl
  rw [State.nameNumber, State.after_leaf, hid, hname, unknownLeaf_of_reason_none hreason]
  simp only [Option.toList_none, Option.toList_some, List.append_nil, State.after,
    nameTable_concat, names, htable, hset, Dict.label]

/-! What an action does, where the rule of a leaf is known. -/

variable {rule : Rule} (hrule : Leaf.rule policy ⟨path, dicts, value⟩ = some rule)

include hrule

theorem State.id_after (haction : rule.action = .id) (hleaf : value.isLeaf = true)
    (h : seen ++ [⟨url, policy, .leaf ⟨path, dicts, value⟩⟩] <+: trail) :
    (State.after trail url seen).id (located trail policy path dicts) value =
      (outId trail value,
        State.after trail url (seen ++ [⟨url, policy, .leaf ⟨path, dicts, value⟩⟩])) := by
  let stop : Stop := ⟨url, policy, .leaf ⟨path, dicts, value⟩⟩
  have hid : stop.idText = Capture.idText value := by simp [stop, Stop.idText, hrule, haction]
  have hname : stop.nameText = none := by simp [stop, Stop.nameText, hrule, haction]
  cases value with
  | null =>
      have hreason : Leaf.reason policy ⟨path, dicts, .null⟩ = none := by
        simp [Leaf.reason, hrule, haction]
      rw [State.id, outId, State.after_silent hid hname hreason]
  | int n =>
      have hreason : Leaf.reason policy ⟨path, dicts, .int n⟩ = none := by
        simp [Leaf.reason, hrule, haction]
      rw [State.id, outId, State.idNumber_after h hid hname hreason]
  | str text =>
      have hreason : Leaf.reason policy ⟨path, dicts, .str text⟩ = none := by
        simp [Leaf.reason, hrule, haction]
      rw [Capture.idText] at hid
      rw [State.id, outId]
      split
      · rename_i hempty
        rw [if_pos hempty] at hid
        rw [State.after_silent hid hname hreason]
      · rename_i hempty
        rw [if_neg hempty] at hid
        rw [State.idNumber_after h hid hname hreason]
  | bool b =>
      have hreason : Leaf.reason policy ⟨path, dicts, .bool b⟩ = some keepConstraint := by
        simp [Leaf.reason, hrule, haction]
      exact State.unknownLeaf_after hid hname hreason
  | float x =>
      have hreason : Leaf.reason policy ⟨path, dicts, .float x⟩ = some keepConstraint := by
        simp [Leaf.reason, hrule, haction]
      exact State.unknownLeaf_after hid hname hreason
  | list items => cases hleaf
  | dict items => cases hleaf

theorem State.name_after (haction : rule.action = .name) (hleaf : value.isLeaf = true)
    (h : seen ++ [⟨url, policy, .leaf ⟨path, dicts, value⟩⟩] <+: trail) :
    (State.after trail url seen).name (located trail policy path dicts) rule value =
      (outName trail (State.kindOf rule) value,
        State.after trail url (seen ++ [⟨url, policy, .leaf ⟨path, dicts, value⟩⟩])) := by
  let stop : Stop := ⟨url, policy, .leaf ⟨path, dicts, value⟩⟩
  have hid : stop.idText = none := by simp [stop, Stop.idText, hrule, haction]
  cases value with
  | null =>
      have hname : stop.nameText = none := by simp [stop, Stop.nameText, hrule]
      have hreason : Leaf.reason policy ⟨path, dicts, .null⟩ = none := by
        simp [Leaf.reason, hrule, haction]
      rw [State.name, outName, State.after_silent hid hname hreason]
  | str text =>
      have hname : stop.nameText = some (State.kindOf rule, text) := by
        simp [stop, Stop.nameText, hrule, haction]
      have hreason : Leaf.reason policy ⟨path, dicts, .str text⟩ = none := by
        simp [Leaf.reason, hrule, haction]
      rw [State.name, outName, State.nameNumber_after h hid hname hreason]
      rfl
  | bool b =>
      have hname : stop.nameText = none := by simp [stop, Stop.nameText, hrule]
      have hreason : Leaf.reason policy ⟨path, dicts, .bool b⟩ = some keepConstraint := by
        simp [Leaf.reason, hrule, haction]
      exact State.unknownLeaf_after hid hname hreason
  | int n =>
      have hname : stop.nameText = none := by simp [stop, Stop.nameText, hrule]
      have hreason : Leaf.reason policy ⟨path, dicts, .int n⟩ = some keepConstraint := by
        simp [Leaf.reason, hrule, haction]
      exact State.unknownLeaf_after hid hname hreason
  | float x =>
      have hname : stop.nameText = none := by simp [stop, Stop.nameText, hrule]
      have hreason : Leaf.reason policy ⟨path, dicts, .float x⟩ = some keepConstraint := by
        simp [Leaf.reason, hrule, haction]
      exact State.unknownLeaf_after hid hname hreason
  | list items => cases hleaf
  | dict items => cases hleaf

omit hrule

variable (texts : Texts) (descriptors : Dict String DescriptorIndex)

/-- **What `_leaf` does at a place.** -/
theorem leaf_after (hleaf : value.isLeaf = true)
    (h : seen ++ [⟨url, policy, .leaf ⟨path, dicts, value⟩⟩] <+: trail) :
    leaf texts descriptors (located trail policy path dicts) (State.after trail url seen) value =
      raising (Stop.failure texts descriptors ⟨url, policy, .leaf ⟨path, dicts, value⟩⟩)
        (outLeaf trail texts descriptors url policy ⟨path, dicts, value⟩,
          State.after trail url (seen ++ [⟨url, policy, .leaf ⟨path, dicts, value⟩⟩])) := by
  let here : Leaf := ⟨path, dicts, value⟩
  let stop : Stop := ⟨url, policy, .leaf here⟩
  have hposition : (located trail policy path dicts).completeRule = here.rule policy := rfl
  rw [leaf, hposition]
  cases hrule : here.rule policy with
  | none =>
      have hid : stop.idText = none := by simp [stop, Stop.idText, hrule]
      have hname : stop.nameText = none := by simp [stop, Stop.nameText, hrule]
      have hreason : here.reason policy = some noRule := by simp [Leaf.reason, hrule]
      have hfailure : stop.failure texts descriptors = none := by
        simp [stop, Stop.failure, hrule]
      rw [hfailure, outLeaf_of_none hrule]
      exact congrArg Except.ok (State.unknownLeaf_after hid hname hreason)
  | some rule =>
      cases haction : rule.action with
      | keep =>
          have hid : stop.idText = none := by simp [stop, Stop.idText, hrule, haction]
          have hname : stop.nameText = none := by simp [stop, Stop.nameText, hrule, haction]
          have hfailure : stop.failure texts descriptors = none := by
            simp [stop, Stop.failure, hrule, haction]
          rw [hfailure, outLeaf_of_keep hrule haction]
          cases hkeep : rule.keep.any (passes value) with
          | true =>
              have hreason : here.reason policy = none := by
                simp [Leaf.reason, hrule, haction, hkeep, here]
              rw [State.after_silent hid hname hreason]
              simp [haction, hkeep, raising, here]
          | false =>
              have hreason : here.reason policy = some keepConstraint := by
                simp [Leaf.reason, hrule, haction, hkeep, here]
              simp [haction, hkeep, raising, here, State.unknownLeaf_after hid hname hreason]
      | id =>
          have hfailure : stop.failure texts descriptors = none := by
            simp [stop, Stop.failure, hrule, haction]
          rw [hfailure, outLeaf_of_id hrule haction]
          simp [haction, raising, here, State.id_after hrule haction hleaf h]
      | name =>
          have hfailure : stop.failure texts descriptors = none := by
            simp [stop, Stop.failure, hrule, haction]
          rw [hfailure, outLeaf_of_name hrule haction]
          simp [haction, raising, here, State.name_after hrule haction hleaf h]
      | redact =>
          have hid : stop.idText = none := by simp [stop, Stop.idText, hrule, haction]
          have hname : stop.nameText = none := by simp [stop, Stop.nameText, hrule, haction]
          have hreason : here.reason policy = none := by simp [Leaf.reason, hrule, haction]
          have hfailure : stop.failure texts descriptors = none := by
            simp [stop, Stop.failure, hrule, haction]
          rw [hfailure, outLeaf_of_redact hrule haction, State.after_silent hid hname hreason]
          simp [haction, raising, here]
      | value =>
          have hid : stop.idText = none := by simp [stop, Stop.idText, hrule, haction]
          have hname : stop.nameText = none := by simp [stop, Stop.nameText, hrule, haction]
          have hreason : here.reason policy = none := by simp [Leaf.reason, hrule, haction]
          have hvalue : valueOf texts descriptors (State.after trail url seen).url
              (located trail policy path dicts).dicts value =
                valueOf texts descriptors url dicts value := rfl
          rw [State.after_silent hid hname hreason]
          simp only [haction, hvalue]
          cases hout : valueOf texts descriptors url dicts value with
          | ok out =>
              rw [failure_of_ok hrule hout, outLeaf_of_value hrule haction hout]
              rfl
          | error e =>
              rw [failure_of_error hrule haction hout]
              rfl

end Leaf

/-! ## Kept keys are no tokens -/

/-- A key that is kept is no token. -/
theorem ne_keyToken_of_keeps (hpolicy : policy.NamesNoToken) {key : String}
    (h : (Position.along policy path).keeps key = true) (n : ℕ) : key ≠ keyToken n := by
  have hlast : key.toList.getLast? ≠ some '>' := by
    rw [Position.keeps, Bool.or_eq_true] at h
    rcases h with h | h
    · rw [Position.declares, List.any_eq_true] at h
      obtain ⟨rule, hrule, h⟩ := h
      split at h
      · cases h
      · rename_i segment hsegment
        simp only [Bool.and_eq_true, decide_eq_true_eq] at h
        rw [getLast?_of_segmentMatches h.1.1 h.2]
        exact hpolicy _ (mem_of_mem_along hrule) _ (List.mem_of_getElem? hsegment)
    · exact getLast?_of_isIdentifier (Bool.and_eq_true_iff.1 h).2
  rintro rfl
  refine hlast ?_
  rw [keyToken, String.toList_append]
  exact List.getLast?_append_of_ne_nil _ (List.cons_ne_nil _ _)

theorem keyToken_injective : Function.Injective keyToken := by
  intro m n h
  rw [keyToken, keyToken, String.append_left_inj, String.append_right_inj] at h
  exact Text.natText_injective h

/-- **Different keys of a body get different output keys**, at one path. -/
theorem outKey_injective (hpolicy : policy.NamesNoToken) {key key' : String}
    (hkey : ⟨url, policy, .key path key⟩ ∈ trail)
    (h : outKey trail policy path key = outKey trail policy path key') : key = key' := by
  unfold outKey at h
  split at h
  · rename_i hkeeps
    split at h
    · exact h
    · exact absurd h (ne_keyToken_of_keeps hpolicy hkeeps _)
  · rename_i hkeeps
    split at h
    · rename_i hkeeps'
      exact absurd h.symm (ne_keyToken_of_keeps hpolicy hkeeps' _)
    · have hmem : key ∈ trail.filterMap Stop.renamedKey :=
        List.mem_filterMap.2 ⟨_, hkey, if_neg hkeeps⟩
      exact (number_inj hmem).1 (keyToken_injective h)

/-! ## Nodes -/

theorem raising_map {α β : Type} (failure : Option Exc) (a : α) (g : α → β) :
    (raising failure a).map g = raising failure (g a) := by
  cases failure with
  | none => rfl
  | some e => rfl

theorem places_leaf {value : JsonValue} (h : value.isLeaf = true) (path : List Step)
    (dicts : List (List (String × JsonValue))) :
    places path dicts value = [.leaf ⟨path, dicts, value⟩] := by
  cases value with
  | list items => cases h
  | dict items => cases h
  | _ => rfl

theorem Rewrite.node_leaf (r : Rewrite) {value : JsonValue} (h : value.isLeaf = true)
    (path : List Step) (dicts : List (List (String × JsonValue))) :
    r.node path dicts value = r.leaf ⟨path, dicts, value⟩ := by
  cases value with
  | list items => cases h
  | dict items => cases h
  | _ => rfl

theorem node_leaf {texts : Texts} {descriptors : Dict String DescriptorIndex}
    {position : Position} {state : State} {value : JsonValue} (h : value.isLeaf = true) :
    node texts descriptors position state value = leaf texts descriptors position state value := by
  cases value with
  | list items => cases h
  | dict items => cases h
  | _ => rfl

theorem Rewrite.map_fst_fields (r : Rewrite) (path : List Step)
    (dicts : List (List (String × JsonValue))) (items : List (String × JsonValue)) :
    (r.fields path dicts items).map Prod.fst = (items.map Prod.fst).map (r.key path) := by
  induction items with
  | nil => rfl
  | cons item items ih => rw [Rewrite.fields, List.map_cons, ih]; rfl

/-- The keys of an object are places. -/
theorem key_mem_placesKeys {path : List Step} {dicts : List (List (String × JsonValue))}
    {items : List (String × JsonValue)} {key : String} (h : key ∈ items.map Prod.fst) :
    .key path key ∈ placesKeys path dicts items := by
  induction items with
  | nil => cases h
  | cons item items ih =>
      rw [placesKeys]
      rcases List.mem_cons.1 h with rfl | h
      · exact List.mem_cons_self
      · exact List.mem_cons_of_mem _ (List.mem_append_right _ (ih h))

/-- The items of a dictionary of pairs, written one after the other. -/
theorem entries_ofList_eq_foldl {K V : Type*} [DecidableEq K] (es : List (K × V)) :
    (Dict.ofList es).entries = es.foldl (fun acc e => Dict.setEntries e.1 e.2 acc) [] := by
  have hfold : ∀ d : Dict K V, (es.foldl (fun d e => d.set e.1 e.2) d).entries =
      es.foldl (fun acc e => Dict.setEntries e.1 e.2 acc) d.entries := by
    induction es with
    | nil => intro d; rfl
    | cons e es ih => intro d; exact ih _
  exact hfold ∅

section Walk

variable (texts : Texts) (descriptors : Dict String DescriptorIndex) (trail : List Stop)

/-- **What a part of the walk gives**: the exception of the first of its
places that raises one, or its result with the state after its places. -/
def partResult {α : Type} (url : String) (seen part : List Stop) (result : α) :
    Except Exc (α × State) :=
  raising (part.findSome? (Stop.failure texts descriptors))
    (result, State.after trail url (seen ++ part))

variable {texts descriptors trail} {α β : Type} {seen part rest : List Stop} {result : α}
  {result' : β}

theorem partResult_nil :
    partResult texts descriptors trail url seen [] result =
      .ok (result, State.after trail url seen) := by
  rw [partResult, List.append_nil]
  rfl

/-- A place that raises nothing, before a part. -/
theorem partResult_cons {stop : Stop} (h : stop.failure texts descriptors = none) :
    partResult texts descriptors trail url seen (stop :: part) result =
      partResult texts descriptors trail url (seen ++ [stop]) part result := by
  rw [partResult, partResult, List.findSome?_cons, h, List.append_cons]

/-- One part after another. -/
theorem partResult_bind {g : α × State → Except Exc (β × State)}
    (hg : g (result, State.after trail url (seen ++ part)) =
      partResult texts descriptors trail url (seen ++ part) rest result') :
    (partResult texts descriptors trail url seen part result >>= g) =
      partResult texts descriptors trail url seen (part ++ rest) result' := by
  rw [partResult, partResult, List.findSome?_append, ← List.append_assoc]
  cases part.findSome? (Stop.failure texts descriptors) with
  | none => exact hg
  | some e => rfl

/-- The result of a part, read as another. -/
theorem partResult_pure (f : α → β) :
    (partResult texts descriptors trail url seen part result >>= fun x => pure (f x.1, x.2)) =
      partResult texts descriptors trail url seen part (f result) := by
  rw [partResult, partResult]
  cases part.findSome? (Stop.failure texts descriptors) with
  | none => rfl
  | some e => rfl

variable (texts descriptors trail)

/-- **What the walk of a node returns and what it leaves**, at its place in
the trail. The induction is on the node; the state stands for the part of
the trail before it. -/
theorem node_eq (url : String) {policy : EndpointPolicy} (hpolicy : policy.NamesNoToken)
    (value : JsonValue) :
    value.distinctKeys = true →
    ∀ (path : List Step) (dicts : List (List (String × JsonValue))) (seen : List Stop),
      seen ++ (places path dicts value).map (Stop.mk url policy) <+: trail →
      node texts descriptors (located trail policy path dicts) (State.after trail url seen) value =
        partResult texts descriptors trail url seen
          ((places path dicts value).map (Stop.mk url policy))
          ((rewriteOf trail texts descriptors url policy).node path dicts value) := by
  let r := rewriteOf trail texts descriptors url policy
  refine @JsonValue.induction
    (fun value => value.distinctKeys = true → ∀ path dicts seen,
      seen ++ (places path dicts value).map (Stop.mk url policy) <+: trail →
      node texts descriptors (located trail policy path dicts) (State.after trail url seen) value =
        partResult texts descriptors trail url seen
          ((places path dicts value).map (Stop.mk url policy)) (r.node path dicts value))
    (fun items => JsonValue.distinctItems items = true → ∀ path dicts seen,
      seen ++ (placesItems path dicts items).map (Stop.mk url policy) <+: trail →
      nodeItems texts descriptors (located trail policy path dicts)
          (State.after trail url seen) items =
        partResult texts descriptors trail url seen
          ((placesItems path dicts items).map (Stop.mk url policy)) (r.items' path dicts items))
    (fun items => JsonValue.distinctFields items = true → ∀ path dicts seen anonymized,
      seen ++ (placesKeys path dicts items).map (Stop.mk url policy) <+: trail →
      nodeKeys texts descriptors (located trail policy path dicts)
          (State.after trail url seen) anonymized items =
        partResult texts descriptors trail url seen
          ((placesKeys path dicts items).map (Stop.mk url policy))
          ((r.fields path dicts items).foldl
            (fun acc e => Dict.setEntries e.1 e.2 acc) anonymized))
    ?leaf ?list ?dict ?nil ?cons ?noField ?field value
  case leaf =>
    intro value hleaf _ path dicts seen h
    rw [places_leaf hleaf] at h ⊢
    rw [node_leaf hleaf, r.node_leaf hleaf, partResult, List.map_singleton,
      List.findSome?_singleton]
    exact leaf_after texts descriptors hleaf h
  case list =>
    intro items ih hdistinct path dicts seen h
    rw [places] at h ⊢
    rw [node, Rewrite.node, ih hdistinct path dicts seen h]
    exact partResult_pure JsonValue.list
  case dict =>
    intro items ih hdistinct path dicts seen h
    rw [JsonValue.distinctKeys, Bool.and_eq_true, decide_eq_true_eq] at hdistinct
    rw [places] at h ⊢
    have hitems := ih hdistinct.2 path (dicts ++ [items]) seen [] h
    -- no two keys of the object are written under one output key
    have hnodup : ((r.fields path (dicts ++ [items]) items).map Prod.fst).Nodup := by
      rw [r.map_fst_fields]
      refine List.Nodup.map_on ?_ hdistinct.1
      intro key hkey key' _ hout
      have hplace : Stop.mk url policy (.key path key) ∈ trail :=
        h.subset (List.mem_append_right _ (List.mem_map_of_mem (key_mem_placesKeys hkey)))
      exact outKey_injective hpolicy hplace hout
    rw [← entries_ofList_eq_foldl, Dict.entries_ofList hnodup] at hitems
    rw [node, Rewrite.node]
    refine Eq.trans (congrArg (· >>= _) hitems) ?_
    exact partResult_pure JsonValue.dict
  case nil =>
    intro _ path dicts seen _
    rw [placesItems, nodeItems, Rewrite.items', List.map_nil, partResult_nil]
  case cons =>
    intro item items ihitem ih hdistinct path dicts seen h
    rw [JsonValue.distinctItems, Bool.and_eq_true] at hdistinct
    rw [placesItems, List.map_append] at h ⊢
    have hfirst : seen ++ (places (path ++ [.item]) dicts item).map (Stop.mk url policy) <+:
        trail := by
      rw [← List.append_assoc] at h
      exact (List.prefix_append _ _).trans h
    rw [nodeItems, Rewrite.items', located_item, ihitem hdistinct.1 _ dicts seen hfirst]
    refine partResult_bind ?_
    rw [← List.append_assoc] at h
    refine Eq.trans (congrArg (· >>= _) (ih hdistinct.2 path dicts _ h)) ?_
    exact partResult_pure (r.node (path ++ [.item]) dicts item :: ·)
  case noField =>
    intro _ path dicts seen anonymized _
    rw [placesKeys, nodeKeys, Rewrite.fields, List.map_nil, partResult_nil, List.foldl_nil]
  case field =>
    intro key item items ihitem ih hdistinct path dicts seen anonymized h
    rw [JsonValue.distinctFields, Bool.and_eq_true] at hdistinct
    rw [placesKeys, List.map_cons, List.map_append] at h ⊢
    let stop : Stop := ⟨url, policy, .key path key⟩
    rw [List.append_cons] at h
    have hstop : seen ++ [stop] <+: trail := (List.prefix_append _ _).trans h
    have hkey := @State.key_after trail url policy path dicts seen key hstop
    rw [partResult_cons rfl, nodeKeys]
    simp only [hkey, located_key]
    have hfirst : seen ++ [stop] ++ (places (path ++ [.key key]) dicts item).map
        (Stop.mk url policy) <+: trail := by
      rw [← List.append_assoc] at h
      exact (List.prefix_append _ _).trans h
    rw [ihitem hdistinct.1 _ dicts _ hfirst]
    refine partResult_bind ?_
    rw [← List.append_assoc] at h
    exact ih hdistinct.2 path dicts _ _ h

end Walk

end Node

/-! ## The places of a body -/

section Places

variable {body : JsonValue}

theorem place_of_mem_leaves {leaf : Leaf} (h : leaf ∈ leaves body) :
    .leaf leaf ∈ places [] [] body := by
  obtain ⟨place, hplace, heq⟩ := List.mem_filterMap.1 h
  cases place with
  | key path key => cases heq
  | leaf found =>
      cases heq
      exact hplace

theorem place_of_mem_keysOf {path : List Step} {key : String} (h : (path, key) ∈ keysOf body) :
    .key path key ∈ places [] [] body := by
  obtain ⟨place, hplace, heq⟩ := List.mem_filterMap.1 h
  cases place with
  | key found name =>
      cases heq
      exact hplace
  | leaf found => cases heq

end Places

/-! ## A capture -/

namespace Captured

variable (capture : Captured) (texts : Texts)

/-- The loop over a part of the bodies, at its place in the trail. -/
theorem anonymizeAll_eq (items : List (String × JsonValue)) (anonymized : Dict String JsonValue)
    (url : String) (seen : List Stop) (hdistinct : ∀ item ∈ items, item.2.distinctKeys = true)
    (h : seen ++ items.flatMap (fun item =>
      stopsOf item.1 (capture.policyOf item.1) item.2) <+: capture.trail) :
    ∃ last, capture.anonymizeAll texts items anonymized (State.after capture.trail url seen) =
      raising ((items.flatMap fun item =>
          stopsOf item.1 (capture.policyOf item.1) item.2).findSome?
            (Stop.failure texts (capture.descriptors texts)))
        (items.foldl (fun d item => d.set item.1 (capture.outBody texts item.1 item.2)) anonymized,
          State.after capture.trail last (seen ++ items.flatMap fun item =>
            stopsOf item.1 (capture.policyOf item.1) item.2)) := by
  induction items generalizing anonymized url seen with
  | nil =>
      refine ⟨url, ?_⟩
      rw [anonymizeAll, List.flatMap_nil, List.append_nil]
      rfl
  | cons item items ih =>
      obtain ⟨next, body⟩ := item
      rw [List.flatMap_cons] at h ⊢
      have hbody : seen ++ stopsOf next (capture.policyOf next) body <+: capture.trail := by
        rw [← List.append_assoc] at h
        exact (List.prefix_append _ _).trans h
      have hnode := node_eq texts (capture.descriptors texts) capture.trail next
        (capture.namesNoToken_policyOf next) body (hdistinct _ List.mem_cons_self) [] [] seen hbody
      have hendpoint : (State.after capture.trail url seen).endpoint texts
          (capture.descriptors texts) next body (capture.policyOf next) =
            partResult texts (capture.descriptors texts) capture.trail next seen
              (stopsOf next (capture.policyOf next) body) (capture.outBody texts next body) :=
        hnode
      rw [← List.append_assoc] at h
      obtain ⟨last, hrest⟩ := ih (anonymized.set next (capture.outBody texts next body)) next _
        (fun item hitem => hdistinct item (List.mem_cons_of_mem _ hitem)) h
      refine ⟨last, ?_⟩
      rw [anonymizeAll, hendpoint, partResult, List.findSome?_append, ← List.append_assoc]
      cases (stopsOf next (capture.policyOf next) body).findSome?
          (Stop.failure texts (capture.descriptors texts)) with
      | none => exact hrest
      | some e => rfl

/-- The urls without a policy, in order. -/
def others : List String := capture.bodies.keys.filter fun url => !policyTable.contains url

/-- The urls in the order they are gone through. -/
theorem map_fst_order : capture.order.map Prod.fst =
    (policyTable.keys.filter fun url => (capture.bodies.get? url).isSome) ++ capture.others := by
  have hfirst : ((policyTable.keys.filterMap fun url =>
      (capture.bodies.get? url).map (url, ·)).map Prod.fst) =
        policyTable.keys.filter fun url => (capture.bodies.get? url).isSome := by
    rw [List.map_filterMap, ← List.filterMap_eq_filter]
    refine List.filterMap_congr fun url _ => ?_
    cases hget : capture.bodies.get? url <;> simp [hget, Option.guard]
  have hother : ((capture.bodies.entries.filter fun item =>
      !policyTable.contains item.1).map Prod.fst) = capture.others := by
    rw [others, Dict.keys, List.filter_map]
    rfl
  rw [order, List.map_append, hfirst, hother]

/-- Each url is gone through once. -/
theorem order_nodup : (capture.order.map Prod.fst).Nodup := by
  rw [map_fst_order, List.nodup_append]
  refine ⟨policyTable.nodup.filter _, capture.bodies.nodup.filter _, ?_⟩
  rintro url hurl other hother rfl
  have hout := (List.mem_filter.1 hother).2
  rw [Dict.contains_iff.2 (List.mem_filter.1 hurl).1] at hout
  cases hout

/-- What is gone through is what was captured. -/
theorem mem_order {url : String} {body : JsonValue} :
    (url, body) ∈ capture.order ↔ capture.bodies.get? url = some body := by
  rw [order, List.mem_append, List.mem_filterMap, List.mem_filter]
  refine ⟨?_, fun h => ?_⟩
  · rintro (⟨known, -, h⟩ | ⟨h, -⟩)
    · obtain ⟨found, hfound, heq⟩ := Option.map_eq_some_iff.1 h
      obtain ⟨rfl, rfl⟩ := Prod.mk.inj heq
      exact hfound
    · exact Dict.get?_eq_some_iff.2 h
  · by_cases hmem : url ∈ policyTable
    · refine Or.inl ⟨url, hmem, ?_⟩
      rw [h, Option.map_some]
    · refine Or.inr ⟨Dict.get?_eq_some_iff.1 h, ?_⟩
      have hno : policyTable.contains url = false :=
        Bool.eq_false_iff.2 fun hin => hmem (Dict.contains_iff.1 hin)
      rw [hno]
      rfl

variable {capture} {url : String} {body : JsonValue}

/-- The places of a body are in the trail. -/
theorem mem_trail (h : capture.bodies.get? url = some body) {place : Place}
    (hplace : place ∈ places [] [] body) : ⟨url, capture.policyOf url, place⟩ ∈ capture.trail :=
  List.mem_flatMap.2 ⟨(url, body), (capture.mem_order).2 h, List.mem_map_of_mem hplace⟩

end Captured

/-- **What `anonymize` returns**: the exception of the first place that
raises one, or each body rewritten and the reports of the places, each
once. -/
theorem anonymize_eq (texts : Texts) (capture : Captured) :
    anonymize texts capture =
      raising (capture.trail.findSome? (Stop.failure texts (capture.descriptors texts)))
        ⟨.ofList (capture.order.map fun item =>
            (item.1, capture.outBody texts item.1 item.2)),
          firsts (capture.trail.filterMap (Stop.unknownLeaf capture.trail)),
          firsts (capture.trail.filterMap (Stop.renamedReport capture.trail))⟩ := by
  have hwhole : [] ++ capture.order.flatMap (fun item =>
      stopsOf item.1 (capture.policyOf item.1) item.2) <+: capture.trail := List.prefix_rfl
  have hdistinct : ∀ item ∈ capture.order, item.2.distinctKeys = true := fun item hitem =>
    capture.distinct _ (Dict.mem_values.2 ⟨item.1, (capture.mem_order).1 hitem⟩)
  obtain ⟨last, hall⟩ := capture.anonymizeAll_eq texts capture.order ∅ "" [] hdistinct hwhole
  rw [State.after_nil] at hall
  rw [anonymize, hall, raising_map, Dict.ofList, List.foldl_map]
  rfl

section Result

variable {texts : Texts} {capture : Captured} {result : Anonymized}

/-- The result, where there is one. -/
theorem anonymize_ok (h : anonymize texts capture = .ok result) :
    result.bodies.entries = capture.order.map (fun item =>
        (item.1, capture.outBody texts item.1 item.2)) ∧
      result.unclassified = firsts (capture.trail.filterMap (Stop.unknownLeaf capture.trail)) ∧
      result.renamedKeys = firsts (capture.trail.filterMap (Stop.renamedReport capture.trail)) := by
  rw [anonymize_eq] at h
  cases hfailure : capture.trail.findSome? (Stop.failure texts (capture.descriptors texts)) with
  | some e =>
      rw [hfailure] at h
      cases h
  | none =>
      rw [hfailure] at h
      cases h
      refine ⟨Dict.entries_ofList ?_, rfl, rfl⟩
      have hurls : (capture.order.map fun item =>
          (item.1, capture.outBody texts item.1 item.2)).map Prod.fst =
            capture.order.map Prod.fst := by
        rw [List.map_map]
        rfl
      rw [hurls]
      exact capture.order_nodup

/-- The body returned for a url is its body rewritten. -/
theorem anonymize_body (h : anonymize texts capture = .ok result) (url : String) :
    result.bodies.get? url = (capture.bodies.get? url).map (capture.outBody texts url) := by
  obtain ⟨hbodies, -, -⟩ := anonymize_ok h
  ext out
  rw [Dict.get?_eq_some_iff, hbodies, Option.map_eq_some_iff, List.mem_map]
  refine ⟨?_, ?_⟩
  · rintro ⟨⟨known, body⟩, hmem, heq⟩
    obtain ⟨rfl, rfl⟩ := Prod.mk.inj heq
    exact ⟨body, (capture.mem_order).1 hmem, rfl⟩
  · rintro ⟨body, hbody, rfl⟩
    exact ⟨(url, body), (capture.mem_order).2 hbody, rfl⟩

/-- A place raised nothing. -/
theorem failure_eq_none (h : anonymize texts capture = .ok result) {stop : Stop}
    (hstop : stop ∈ capture.trail) : stop.failure texts (capture.descriptors texts) = none := by
  rw [anonymize_eq] at h
  cases hfailure : capture.trail.findSome? (Stop.failure texts (capture.descriptors texts)) with
  | some e =>
      rw [hfailure] at h
      cases h
  | none => exact List.findSome?_eq_none_iff.1 hfailure stop hstop

end Result

/-! ## Texts -/

/-- Texts that are those of the language for integral doubles and for the
empty list. -/
def Texts.simple : Texts where
  float x :=
    match x with
    | .finite q => toString ⌊q⌋ ++ ".0"
    | .infinity negative => if negative then "-inf" else "inf"
    | .nan => "nan"
  container _ := "[]"
  float_ne_int := by
    intro x n
    cases x with
    | finite q =>
        have hdot : '.' ∈ (toString ⌊q⌋ ++ ".0").toList := by simp
        exact Text.ne_intText hdot (by decide) (by decide) n
    | infinity negative =>
        have hletter : 'i' ∈ (if negative then "-inf" else "inf").toList := by
          cases negative with
          | true => decide
          | false => decide
        exact Text.ne_intText hletter (by decide) (by decide) n
    | nan =>
        have hletter : 'n' ∈ "nan".toList := by decide
        exact Text.ne_intText hletter (by decide) (by decide) n

end Capture

end Tydomio
