import Tydomio.Capture.Shape

/-!
# The reports say what was not kept

Each leaf and each key of a capture with what becomes of it (`leafOuts`,
`keyOuts`), and which of them are reported. A leaf that comes out as it went
in is one that a rule accepted or that held nothing, and a leaf that no rule
accepted is a placeholder and is in the report; the reports hold each such
place once and nothing else: `anonymize_audited`.
-/

namespace Tydomio

open Common

namespace Capture

/-! ## Leaves and keys, before and after -/

/-- **A leaf and what becomes of it**, at its path in the output. -/
structure LeafOut where
  url : String
  raw : Leaf
  path : List Step
  out : JsonValue

/-- **A key and what becomes of it**, with the path of its object before and
after. -/
structure KeyOut where
  url : String
  rawPath : List Step
  raw : String
  path : List Step
  out : String

namespace Captured

variable (capture : Captured) (result : Anonymized)

/-- The body returned for a url. -/
def bodyOf (url : String) : JsonValue := (result.bodies.get? url).getD .null

/-- The leaves of a capture, in the order they are gone through, each with
the leaf at its place in the body returned. -/
def leafOuts : List LeafOut :=
  capture.order.flatMap fun item =>
    List.zipWith (fun raw out => ⟨item.1, raw, out.path, out.value⟩)
      (leaves item.2) (leaves (bodyOf result item.1))

/-- The keys of a capture, likewise. -/
def keyOuts : List KeyOut :=
  capture.order.flatMap fun item =>
    List.zipWith (fun raw out => ⟨item.1, raw.1, raw.2, out.1, out.2⟩)
      (keysOf item.2) (keysOf (bodyOf result item.1))

/-- The texts of the ids that are numbered, in order. -/
def idTexts : List String := capture.trail.filterMap Stop.idText

/-- The texts of the names of a kind, in order. -/
def nameTexts (kind : String) : List String :=
  Dict.itemsOf kind (capture.trail.filterMap Stop.nameText)

end Captured

/-! ## What comes out at a place -/

/-- A path depends on what becomes of keys alone. -/
theorem Rewrite.path_congr {r r' : Rewrite} (h : r.key = r'.key) (path : List Step) :
    r.path path = r'.path path := by
  have hsteps : ∀ done : List Step, r.steps done path = r'.steps done path := by
    induction path with
    | nil => intro done; rfl
    | cons step path ih =>
        intro done
        cases step with
        | item => rw [steps, steps, ih]
        | key key => rw [steps, steps, ih, h]
  exact hsteps []

/-- What a rewriting of leaves and paths does to a list of leaves. -/
theorem zipWith_of_forall₂ {α β γ : Type*} {f : α → β → γ} {g : α → γ} {xs : List α} {ys : List β}
    (h : List.Forall₂ (fun x y => f x y = g x) xs ys) : List.zipWith f xs ys = xs.map g := by
  induction h with
  | nil => rfl
  | cons hxy _ ih => rw [List.zipWith_cons_cons, List.map_cons, hxy, ih]

section Outs

variable (texts : Texts) (capture : Captured)

/-- What becomes of the bodies of a url. -/
def Captured.rewrite (url : String) : Rewrite :=
  rewriteOf capture.trail texts (capture.descriptors texts) url (capture.policyOf url)

/-- What becomes of the leaf of a place. -/
def Captured.leafOut (stop : Stop) : Option LeafOut :=
  stop.place.leaf?.map fun leaf =>
    ⟨stop.url, leaf, (capture.rewrite texts stop.url).path leaf.path,
      (capture.rewrite texts stop.url).leaf leaf⟩

/-- What becomes of the key of a place. -/
def Captured.keyOut (stop : Stop) : Option KeyOut :=
  stop.place.key?.map fun key =>
    ⟨stop.url, key.1, key.2, (capture.rewrite texts stop.url).path key.1,
      (capture.rewrite texts stop.url).key key.1 key.2⟩

variable {texts capture} {result : Anonymized} (hok : anonymize texts capture = .ok result)

include hok

theorem Captured.bodyOf_eq {item : String × JsonValue} (hitem : item ∈ capture.order) :
    bodyOf result item.1 = (capture.rewrite texts item.1).body item.2 := by
  rw [bodyOf, anonymize_body hok, (capture.mem_order).1 hitem]
  rfl

/-- **The leaves of a capture come out as its places say.** -/
theorem leafOuts_eq :
    capture.leafOuts result = capture.trail.filterMap (capture.leafOut texts) := by
  rw [Captured.leafOuts, Captured.trail, List.filterMap_flatMap]
  refine List.flatMap_congr fun item hitem => ?_
  let r := capture.rewrite texts item.1
  have htypes := Captured.keepsType hok ((capture.mem_order).1 hitem)
  have hplaces : (stopsOf item.1 (capture.policyOf item.1) item.2).filterMap
      (capture.leafOut texts) = (leaves item.2).map fun leaf =>
        ⟨item.1, leaf, r.path leaf.path, r.leaf leaf⟩ := by
    rw [stopsOf, List.filterMap_map, leaves, List.map_filterMap]
    rfl
  rw [Captured.bodyOf_eq hok hitem, hplaces]
  refine zipWith_of_forall₂ ((Rewrite.forall₂_leaves htypes).imp ?_)
  rintro raw out ⟨hpath, hvalue⟩
  rw [hpath, hvalue]
  rfl

/-- The keys of a capture come out as its places say. -/
theorem keyOuts_eq : capture.keyOuts result = capture.trail.filterMap (capture.keyOut texts) := by
  rw [Captured.keyOuts, Captured.trail, List.filterMap_flatMap]
  refine List.flatMap_congr fun item hitem => ?_
  let r := capture.rewrite texts item.1
  have htypes := Captured.keepsType hok ((capture.mem_order).1 hitem)
  have hplaces : (stopsOf item.1 (capture.policyOf item.1) item.2).filterMap
      (capture.keyOut texts) = (keysOf item.2).map fun key =>
        ⟨item.1, key.1, key.2, r.path key.1, r.key key.1 key.2⟩ := by
    rw [stopsOf, List.filterMap_map, keysOf, List.map_filterMap]
    rfl
  have hkeys : keysOf (r.body item.2) = _ := Rewrite.keysOf_body htypes
  rw [Captured.bodyOf_eq hok hitem, hplaces, hkeys]
  refine zipWith_of_forall₂ ?_
  rw [List.forall₂_map_right_iff, List.forall₂_same]
  exact fun raw _ => rfl

end Outs

/-- A place of the trail is under the rules of its url. -/
theorem Captured.policy_of_mem_trail {capture : Captured} {url : String} {policy : EndpointPolicy}
    {place : Place} (h : ⟨url, policy, place⟩ ∈ capture.trail) :
    policy = capture.policyOf url := by
  obtain ⟨item, -, hstop⟩ := List.mem_flatMap.1 h
  obtain ⟨place, -, heq⟩ := List.mem_map.1 hstop
  cases heq
  rfl

/-- A leaf of the trail has no parts. -/
theorem Captured.isLeaf_of_mem_trail {capture : Captured} {url : String}
    {policy : EndpointPolicy} {leaf : Leaf} (h : ⟨url, policy, .leaf leaf⟩ ∈ capture.trail) :
    leaf.value.isLeaf = true := by
  obtain ⟨item, -, hstop⟩ := List.mem_flatMap.1 h
  obtain ⟨place, hplace, heq⟩ := List.mem_map.1 hstop
  cases heq
  exact isLeaf_of_mem_places item.2 [] [] leaf hplace

/-! ## Reasons -/

section Reasons

variable (policy : EndpointPolicy) (leaf : Leaf)

/-- **A leaf that no rule accepts**, and why. -/
inductive Unkept : String → Prop
  /-- No rule completes at it. -/
  | noRule : leaf.rule policy = none → Unkept Capture.noRule
  /-- The constraint of its KEEP rule fails. -/
  | keep {rule : Rule} : leaf.rule policy = some rule → rule.action = .keep →
      (∀ keep, rule.keep = some keep → passes leaf.value keep = false) → Unkept keepConstraint
  /-- Its ID rule takes no value of its type. -/
  | id {rule : Rule} : leaf.rule policy = some rule → rule.action = .id →
      jsonTypeName leaf.value ∉ ["null", "int", "str"] → Unkept keepConstraint
  /-- Its NAME rule takes no value of its type. -/
  | name {rule : Rule} : leaf.rule policy = some rule → rule.action = .name →
      jsonTypeName leaf.value ∉ ["null", "str"] → Unkept keepConstraint

/-- **Why a leaf may come out as it went in.** -/
inductive Kept : Prop
  /-- It is the placeholder of its type already, as null is. -/
  | placeholder : leaf.value = placeholder leaf.value → Kept
  /-- It is an empty id. -/
  | emptyId {rule : Rule} : leaf.rule policy = some rule → rule.action = .id →
      leaf.value = .str "" → Kept
  /-- It satisfies the constraint of a KEEP rule. -/
  | keep {rule : Rule} {keep : Keep} : leaf.rule policy = some rule → rule.action = .keep →
      rule.keep = some keep → passes leaf.value keep = true → Kept
  /-- It is an id, which a number stands for. -/
  | id {rule : Rule} {text : String} : leaf.rule policy = some rule → rule.action = .id →
      idText leaf.value = some text → Kept
  /-- It is a name, which a token stands for. -/
  | name {rule : Rule} {text : String} : leaf.rule policy = some rule → rule.action = .name →
      leaf.value = .str text → Kept
  /-- It is a data value. -/
  | value {rule : Rule} : leaf.rule policy = some rule → rule.action = .value → Kept

variable {policy leaf}

/-- What is reported is what no rule accepts. -/
theorem reason_eq_some_iff {reason : String} :
    leaf.reason policy = some reason ↔ Unkept policy leaf reason := by
  constructor
  · intro h
    unfold Leaf.reason at h
    cases hrule : leaf.rule policy with
    | none =>
        rw [hrule] at h
        cases h
        exact .noRule hrule
    | some rule =>
        simp only [hrule] at h
        cases haction : rule.action with
        | keep =>
            simp only [haction] at h
            split at h
            · cases h
            · rename_i hkeep
              cases h
              refine .keep hrule haction fun keep hsome => ?_
              rw [hsome, Option.any_some, Bool.not_eq_true] at hkeep
              exact hkeep
        | id =>
            rw [haction] at h
            cases hvalue : leaf.value <;> rw [hvalue] at h <;> cases h <;>
              exact .id hrule haction (by simp [hvalue, jsonTypeName])
        | name =>
            rw [haction] at h
            cases hvalue : leaf.value <;> rw [hvalue] at h <;> cases h <;>
              exact .name hrule haction (by simp [hvalue, jsonTypeName])
        | redact =>
            rw [haction] at h
            cases h
        | value =>
            rw [haction] at h
            cases h
  · intro h
    cases h with
    | noRule hrule => rw [Leaf.reason, hrule]
    | @keep rule hrule haction hkeep =>
        have hnone : rule.keep.any (passes leaf.value) = false := by
          cases hsome : rule.keep with
          | none => rfl
          | some keep => exact hkeep keep hsome
        simp [Leaf.reason, hrule, haction, hnone]
    | id hrule haction htype =>
        cases hvalue : leaf.value <;> simp_all [Leaf.reason, jsonTypeName]
    | name hrule haction htype =>
        cases hvalue : leaf.value <;> simp_all [Leaf.reason, jsonTypeName]

variable {trail : List Stop} {texts : Texts} {descriptors : Dict String DescriptorIndex}
  {url : String}

/-- A leaf that no rule accepts is redacted. -/
theorem Unkept.outLeaf_eq {reason : String} (h : Unkept policy leaf reason) :
    outLeaf trail texts descriptors url policy leaf = placeholder leaf.value := by
  cases h with
  | noRule hrule => exact outLeaf_of_none hrule
  | @keep rule hrule haction hkeep =>
      rw [outLeaf_of_keep hrule haction]
      cases hsome : rule.keep with
      | none => rfl
      | some keep => rw [Option.any_some, hkeep keep hsome]; rfl
  | id hrule haction htype =>
      rw [outLeaf_of_id hrule haction]
      cases hvalue : leaf.value <;> simp_all [outId, jsonTypeName]
  | name hrule haction htype =>
      rw [outLeaf_of_name hrule haction]
      cases hvalue : leaf.value <;> simp_all [outName, jsonTypeName]

/-- **A leaf that comes out as it went in** was accepted, or held nothing. -/
theorem kept_of_outLeaf_eq
    (h : outLeaf trail texts descriptors url policy leaf = leaf.value) : Kept policy leaf := by
  cases hrule : leaf.rule policy with
  | none =>
      rw [outLeaf_of_none hrule] at h
      exact .placeholder h.symm
  | some rule =>
      cases haction : rule.action with
      | keep =>
          rw [outLeaf_of_keep hrule haction] at h
          split at h
          · rename_i hkeep
            obtain ⟨keep, hsome, hpasses⟩ := (Option.any_eq_true ..).1 hkeep
            exact .keep hrule haction hsome hpasses
          · exact .placeholder h.symm
      | id =>
          rw [outLeaf_of_id hrule haction] at h
          cases htext : idText leaf.value with
          | some text => exact .id hrule haction htext
          | none =>
              cases hvalue : leaf.value with
              | str text =>
                  have hempty : text = "" := by simpa [hvalue, idText] using htext
                  exact .emptyId hrule haction (by rw [hvalue, hempty])
              | int n =>
                  rw [hvalue] at htext
                  cases htext
              | _ => exact .placeholder (by rw [hvalue] at h ⊢; exact h.symm)
      | name =>
          rw [outLeaf_of_name hrule haction] at h
          cases hvalue : leaf.value with
          | str text => exact .name hrule haction hvalue
          | _ => exact .placeholder (by rw [hvalue] at h ⊢; exact h.symm)
      | redact =>
          rw [outLeaf_of_redact hrule haction] at h
          exact .placeholder h.symm
      | value => exact .value hrule haction

end Reasons

/-- **A value and one of its type** that says nothing else of it. -/
inductive TypeOnly : JsonValue → JsonValue → Prop
  | null : TypeOnly .null .null
  | bool (value : Bool) : TypeOnly (.bool value) (.bool false)
  | int (value : ℤ) : TypeOnly (.int value) (.int 0)
  | float (value : PyFloat) : TypeOnly (.float value) (.float (.finite 0))
  | str (value : String) : TypeOnly (.str value) (.str "<redacted>")

theorem typeOnly_placeholder {value : JsonValue} (h : value.isLeaf = true) :
    TypeOnly value (placeholder value) := by
  cases value with
  | null => exact .null
  | bool value => exact .bool value
  | int value => exact .int value
  | float value => exact .float value
  | str value => exact .str value
  | list _ | dict _ => cases h

/-! ## The audit -/

section Audit

variable (capture : Captured) (result : Anonymized)

/-- **What the reports of a capture are worth.** -/
structure Audited : Prop where
  /-- Each leaf is accounted for. -/
  leaves : ∀ url body, capture.bodies.get? url = some body → ∀ leaf ∈ leaves body,
    ∃ pair ∈ capture.leafOuts result, pair.url = url ∧ pair.raw = leaf
  /-- And each key. -/
  keysOf : ∀ url body, capture.bodies.get? url = some body → ∀ path key,
    (path, key) ∈ keysOf body →
    ∃ pair ∈ capture.keyOuts result, pair.url = url ∧ pair.rawPath = path ∧ pair.raw = key
  /-- A leaf comes out as it went in for a reason. -/
  kept : ∀ pair ∈ capture.leafOuts result, pair.out = pair.raw.value →
    Kept (capture.policyOf pair.url) pair.raw
  /-- An id becomes a number that says nothing of its text. -/
  id : ∀ pair ∈ capture.leafOuts result, ∀ rule text,
    pair.raw.rule (capture.policyOf pair.url) = some rule → rule.action = .id →
    idText pair.raw.value = some text →
    ∃ n, Ordinal capture.idTexts text n ∧ idText pair.out = some (toString n)
  /-- A name becomes a token that says nothing of its text. -/
  name : ∀ pair ∈ capture.leafOuts result, ∀ rule text,
    pair.raw.rule (capture.policyOf pair.url) = some rule → rule.action = .name →
    pair.raw.value = .str text →
    ∃ n, Ordinal (capture.nameTexts (State.kindOf rule)) text n ∧
      pair.out = .str (nameToken (State.kindOf rule) n)
  /-- A leaf that no rule accepts is redacted: its type is all that is left
  of it. -/
  redacted : ∀ pair ∈ capture.leafOuts result, ∀ reason,
    Unkept (capture.policyOf pair.url) pair.raw reason →
    pair.out = placeholder pair.raw.value ∧ TypeOnly pair.raw.value pair.out
  /-- Those leaves are what is reported, by url, output path, type and reason. -/
  unclassified : ∀ report, report ∈ result.unclassified ↔
    ∃ pair ∈ capture.leafOuts result, ∃ reason,
      Unkept (capture.policyOf pair.url) pair.raw reason ∧
      report = ⟨pair.url, generic (pair.path.map Step.text), jsonTypeName pair.raw.value, reason⟩
  /-- A key that is not renamed stays. -/
  keys : ∀ pair ∈ capture.keyOuts result,
    (Position.along (capture.policyOf pair.url) pair.rawPath).keeps pair.raw = true →
    pair.out = pair.raw
  /-- Those that are renamed are what is reported, by url and output path. -/
  renamedKeys : ∀ report, report ∈ result.renamedKeys ↔
    ∃ pair ∈ capture.keyOuts result,
      (Position.along (capture.policyOf pair.url) pair.rawPath).keeps pair.raw = false ∧
      report = ⟨pair.url, generic (pair.path.map Step.text ++ [pair.out])⟩
  /-- Nothing is reported twice. -/
  nodup : result.unclassified.Nodup ∧ result.renamedKeys.Nodup

variable {capture result} {texts : Texts}

/-- The path of a node by its output keys. -/
theorem map_text_path (url : String) (path : List Step) :
    ((capture.rewrite texts url).path path).map Step.text =
      outPath capture.trail (capture.policyOf url) path := by
  have hkey : (capture.rewrite texts url).key =
      (⟨outKey capture.trail (capture.policyOf url), Leaf.value⟩ : Rewrite).key := rfl
  rw [Rewrite.path_congr hkey, outPath]

/-- The number of an id is one of its text. -/
theorem idText_outId {trail : List Stop} {value : JsonValue} {text : String}
    (h : idText value = some text) :
    idText (outId trail value) = some (toString (idNumber trail text)) := by
  cases value with
  | int n =>
      cases h
      rfl
  | str raw =>
      rw [idText] at h
      by_cases hempty : raw = ""
      · rw [if_pos hempty] at h
        cases h
      · rw [if_neg hempty] at h
        cases h
        have hdigits : toString (idNumber trail text) ≠ "" := by
          simp [Nat.toString_eq_repr]
        rw [outId, if_neg hempty, idText, if_neg hdigits]
  | _ => cases h

variable (hok : anonymize texts capture = .ok result)

include hok

/-- What becomes of the leaf of a pair. -/
theorem exists_of_mem_leafOuts {pair : LeafOut} (h : pair ∈ capture.leafOuts result) :
    ⟨pair.url, capture.policyOf pair.url, .leaf pair.raw⟩ ∈ capture.trail ∧
      pair.path = (capture.rewrite texts pair.url).path pair.raw.path ∧
      pair.out = (capture.rewrite texts pair.url).leaf pair.raw := by
  rw [leafOuts_eq hok] at h
  obtain ⟨⟨url, policy, place⟩, hstop, hout⟩ := List.mem_filterMap.1 h
  obtain rfl := Captured.policy_of_mem_trail hstop
  cases place with
  | key path key => cases hout
  | leaf leaf =>
      cases hout
      exact ⟨hstop, rfl, rfl⟩

/-- What becomes of the key of a pair. -/
theorem exists_of_mem_keyOuts {pair : KeyOut} (h : pair ∈ capture.keyOuts result) :
    ⟨pair.url, capture.policyOf pair.url, .key pair.rawPath pair.raw⟩ ∈ capture.trail ∧
      pair.path = (capture.rewrite texts pair.url).path pair.rawPath ∧
      pair.out = outKey capture.trail (capture.policyOf pair.url) pair.rawPath pair.raw := by
  rw [keyOuts_eq hok] at h
  obtain ⟨⟨url, policy, place⟩, hstop, hout⟩ := List.mem_filterMap.1 h
  obtain rfl := Captured.policy_of_mem_trail hstop
  cases place with
  | key path key =>
      cases hout
      exact ⟨hstop, rfl, rfl⟩
  | leaf leaf => cases hout

/-- The leaf of a place is one of a pair. -/
theorem mem_leafOuts {url : String} {policy : EndpointPolicy} {leaf : Leaf}
    (h : ⟨url, policy, .leaf leaf⟩ ∈ capture.trail) :
    ⟨url, leaf, (capture.rewrite texts url).path leaf.path,
      (capture.rewrite texts url).leaf leaf⟩ ∈ capture.leafOuts result := by
  rw [leafOuts_eq hok]
  exact List.mem_filterMap.2 ⟨_, h, rfl⟩

/-- Each leaf of a body is one of a pair. -/
theorem exists_leafOut {url : String} {body : JsonValue}
    (hbody : capture.bodies.get? url = some body) {leaf : Leaf} (hleaf : leaf ∈ leaves body) :
    ∃ pair ∈ capture.leafOuts result, pair.url = url ∧ pair.raw = leaf :=
  ⟨_, mem_leafOuts hok (Captured.mem_trail hbody (place_of_mem_leaves hleaf)), rfl, rfl⟩

/-- The key of a place is one of a pair. -/
theorem mem_keyOuts {url : String} {policy : EndpointPolicy} {path : List Step} {key : String}
    (h : ⟨url, policy, .key path key⟩ ∈ capture.trail) :
    ⟨url, path, key, (capture.rewrite texts url).path path,
      outKey capture.trail (capture.policyOf url) path key⟩ ∈ capture.keyOuts result := by
  rw [keyOuts_eq hok]
  exact List.mem_filterMap.2 ⟨_, h, rfl⟩

/-- The reported leaves. -/
theorem mem_unclassified_iff {report : UnknownLeaf} :
    report ∈ result.unclassified ↔ ∃ pair ∈ capture.leafOuts result, ∃ reason,
      Unkept (capture.policyOf pair.url) pair.raw reason ∧
      report =
        ⟨pair.url, generic (pair.path.map Step.text), jsonTypeName pair.raw.value, reason⟩ := by
  obtain ⟨-, hunclassified, -⟩ := anonymize_ok hok
  rw [hunclassified, mem_firsts, List.mem_filterMap]
  constructor
  · rintro ⟨⟨url, policy, place⟩, hstop, hreport⟩
    obtain rfl := Captured.policy_of_mem_trail hstop
    cases place with
    | key path key => cases hreport
    | leaf leaf =>
        obtain ⟨reason, hreason, rfl⟩ := Option.map_eq_some_iff.1 hreport
        refine ⟨_, mem_leafOuts hok hstop, reason, reason_eq_some_iff.1 hreason, ?_⟩
        rw [map_text_path]
  · rintro ⟨pair, hpair, reason, hreason, rfl⟩
    obtain ⟨hstop, hpath, -⟩ := exists_of_mem_leafOuts hok hpair
    refine ⟨_, hstop, Option.map_eq_some_iff.2 ⟨reason, reason_eq_some_iff.2 hreason, ?_⟩⟩
    rw [hpath, map_text_path]

/-- The reported keys. -/
theorem mem_renamedKeys_iff {report : RenamedKey} :
    report ∈ result.renamedKeys ↔ ∃ pair ∈ capture.keyOuts result,
      (Position.along (capture.policyOf pair.url) pair.rawPath).keeps pair.raw = false ∧
      report = ⟨pair.url, generic (pair.path.map Step.text ++ [pair.out])⟩ := by
  obtain ⟨-, -, hrenamed⟩ := anonymize_ok hok
  rw [hrenamed, mem_firsts, List.mem_filterMap]
  constructor
  · rintro ⟨⟨url, policy, place⟩, hstop, hreport⟩
    obtain rfl := Captured.policy_of_mem_trail hstop
    cases place with
    | leaf leaf => cases hreport
    | key path key =>
        simp only [Stop.renamedReport] at hreport
        split at hreport
        · cases hreport
        · rename_i hkeeps
          cases hreport
          refine ⟨_, mem_keyOuts hok hstop, Bool.not_eq_true _ ▸ hkeeps, ?_⟩
          rw [map_text_path, outKey, if_neg hkeeps]
  · rintro ⟨pair, hpair, hkeeps, rfl⟩
    obtain ⟨hstop, hpath, hout⟩ := exists_of_mem_keyOuts hok hpair
    refine ⟨_, hstop, ?_⟩
    rw [hpath, hout, map_text_path, outKey, if_neg (ne_true_of_eq_false hkeeps)]
    exact if_neg (ne_true_of_eq_false hkeeps)

/-- **Nothing is kept without a rule and nothing is redacted silently.** -/
theorem anonymize_audited : Audited capture result where
  leaves _ _ hbody _ hleaf := exists_leafOut hok hbody hleaf
  keysOf _ _ hbody _ _ hkey :=
    ⟨_, mem_keyOuts hok (Captured.mem_trail hbody (place_of_mem_keysOf hkey)), rfl, rfl, rfl⟩
  kept pair hpair h := by
    obtain ⟨-, -, hout⟩ := exists_of_mem_leafOuts hok hpair
    rw [hout] at h
    exact kept_of_outLeaf_eq h
  id pair hpair rule text hrule haction htext := by
    obtain ⟨hstop, -, hout⟩ := exists_of_mem_leafOuts hok hpair
    have hid : Stop.idText ⟨pair.url, capture.policyOf pair.url, .leaf pair.raw⟩ = some text := by
      simp [Stop.idText, hrule, haction, htext]
    refine ⟨_, ordinal_number (List.mem_filterMap.2 ⟨_, hstop, hid⟩), ?_⟩
    have hleaf : (capture.rewrite texts pair.url).leaf pair.raw = outId capture.trail _ :=
      outLeaf_of_id hrule haction
    rw [hout, hleaf, idText_outId htext]
    rfl
  name pair hpair rule text hrule haction htext := by
    obtain ⟨hstop, -, hout⟩ := exists_of_mem_leafOuts hok hpair
    have hname : Stop.nameText ⟨pair.url, capture.policyOf pair.url, .leaf pair.raw⟩ =
        some (State.kindOf rule, text) := by
      simp [Stop.nameText, hrule, haction, htext]
    have hmem : text ∈ capture.nameTexts (State.kindOf rule) :=
      Dict.mem_itemsOf.2 (List.mem_filterMap.2 ⟨_, hstop, hname⟩)
    refine ⟨_, ordinal_number hmem, ?_⟩
    have hleaf : (capture.rewrite texts pair.url).leaf pair.raw = outName capture.trail _ _ :=
      outLeaf_of_name hrule haction
    rw [hout, hleaf, htext]
    rfl
  redacted pair hpair reason hreason := by
    obtain ⟨hstop, -, hout⟩ := exists_of_mem_leafOuts hok hpair
    have heq : pair.out = placeholder pair.raw.value := hout.trans hreason.outLeaf_eq
    exact ⟨heq, heq ▸ typeOnly_placeholder (Captured.isLeaf_of_mem_trail hstop)⟩
  unclassified _ := mem_unclassified_iff hok
  keys pair hpair hkeeps := by
    obtain ⟨-, -, hout⟩ := exists_of_mem_keyOuts hok hpair
    rw [hout, outKey, if_pos hkeeps]
  renamedKeys _ := mem_renamedKeys_iff hok
  nodup := by
    obtain ⟨-, hunclassified, hrenamed⟩ := anonymize_ok hok
    rw [hunclassified, hrenamed]
    exact ⟨nodup_firsts _, nodup_firsts _⟩

omit hok

/-- The capture of one protocol. -/
theorem audited_protocols : Audited protocolsCapture protocolsAnonymized := by
  have hok : anonymize .simple protocolsCapture = .ok protocolsAnonymized := rfl
  exact anonymize_audited hok

end Audit

end Capture

end Tydomio
