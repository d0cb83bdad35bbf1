import Tydomio.Capture.Policies

/-!
# What is hidden does not show

Two captures that differ only in what is to be hidden are anonymized to one
result: `anonymize_noninterference`. The trails of both correspond place by
place, so every numbering is the same, and every leaf and every report.
-/

namespace Tydomio

open Common

namespace Capture

/-! ## Two captures -/

/-- **Two captures that differ in what is to be hidden.** -/
structure CapturesAlike (ids : ℤ → ℤ) (names : String → String → String)
    (capture capture' : Captured) : Prop where
  statuses : ∀ url, capture.statuses.get? url = capture'.statuses.get? url
  urls : ∀ url, (capture.bodies.get? url).isSome = (capture'.bodies.get? url).isSome
  bodies : ∀ url body body', capture.bodies.get? url = some body →
    capture'.bodies.get? url = some body' →
    Alike ids names (capture.policyOf url) [] body body'

/-- Each id of a capture is a scalar. -/
def Captured.ScalarIds (capture : Captured) : Prop :=
  ∀ body ∈ capture.bodies.values, body.scalarUnder "id" = true

/-- The name beside each data value of a capture is a scalar. -/
def Captured.ScalarNames (capture : Captured) : Prop :=
  ∀ url body, capture.bodies.get? url = some body → ∀ leaf ∈ leaves body,
    ScalarName (capture.policyOf url) leaf

section Captures

variable {ids : ℤ → ℤ} {names : String → String → String} {capture capture' : Captured}
  (halike : CapturesAlike ids names capture capture')

include halike

theorem CapturesAlike.policyOf_eq (url : String) :
    capture'.policyOf url = capture.policyOf url := by
  unfold Captured.policyOf
  rw [halike.statuses url]

/-- **The bodies correspond in the order they are gone through.** -/
theorem CapturesAlike.order_rel (hothers : capture.others = capture'.others) :
    List.Forall₂ (fun item item' => capture.bodies.get? item.1 = some item.2 ∧
        capture'.bodies.get? item'.1 = some item'.2 ∧ item.1 = item'.1)
      capture.order capture'.order := by
  have hsome : (fun url => (capture.bodies.get? url).isSome) =
      fun url => (capture'.bodies.get? url).isSome := funext halike.urls
  have hmaps : List.Forall₂ (· = ·) (capture.order.map Prod.fst) (capture'.order.map Prod.fst) := by
    rw [List.forall₂_eq_eq_eq, capture.map_fst_order, capture'.map_fst_order, hothers, hsome]
  have hurls : List.Forall₂ (fun item item' => item.1 = item'.1) capture.order capture'.order :=
    List.forall₂_map_right_iff.1 (List.forall₂_map_left_iff.1 hmaps)
  rw [List.forall₂_and_left]
  refine ⟨fun item hitem => (capture.mem_order).1 hitem, List.Forall₂.flip ?_⟩
  exact (List.forall₂_and_left ..).2
    ⟨fun item hitem => (capture'.mem_order).1 hitem, List.Forall₂.flip hurls⟩

/-! ## Descriptors -/

omit halike in
/-- The descriptors of a data url are those of its source. -/
theorem get?_descriptors (texts : Texts) (url : String) :
    (capture.descriptors texts).get? url = (descriptorSources.get? url).bind fun source =>
      if capture.statuses.get? source.1 = some 200 then
        (capture.bodies.get? source.1).map fun body => indexDescriptors texts body source.2
      else none := by
  rw [← Dict.get?_ofList_filterMap]
  refine congrArg (fun d : Dict String DescriptorIndex => d.get? url)
    (congrArg Dict.ofList (List.filterMap_congr fun source _ => ?_))
  split
  · rw [Option.map_map]
    rfl
  · rfl

omit halike in
/-- A url has rules with status 200 alone. -/
theorem policyOf_of_rule {url : String} {path : List Step} {rule : Rule}
    (h : (Position.along (capture.policyOf url) path).completeRule = some rule) :
    policyTable.get? url = some (capture.policyOf url) := by
  have hempty : ∀ path : List Step,
      (Position.along ⟨[], []⟩ path).completeRule = none := fun path =>
    completeRule_eq_lookup (fun rule hrule => absurd hrule List.not_mem_nil) rfl path
  unfold Captured.policyOf at h ⊢
  split
  · rename_i policy hpolicy
    rw [hpolicy] at h
    split
    · exact hpolicy
    · rename_i hstatus
      simp only [if_neg hstatus] at h
      rw [hempty] at h
      cases h
  · rename_i hpolicy
    rw [hpolicy] at h
    rw [hempty] at h
    cases h

variable (hids : Function.Injective ids) (hscalar : capture.ScalarIds) (texts : Texts)

include hids hscalar

/-- **A data value finds descriptors used alike in both captures.** -/
theorem sameUse_descriptorOf {url : String} {path : List Step}
    {dicts dicts' : List (List (String × JsonValue))} {rule : Rule}
    (hrule : (Position.along (capture.policyOf url) path).completeRule = some rule)
    (haction : rule.action = .value)
    (hdicts : DictsAlike ids names (capture.policyOf url) [] path dicts dicts')
    (hname : (field (dicts.getLast?.getD []) "name").isLeaf = true) :
    SameUse (descriptorOf texts (capture.descriptors texts) url dicts)
      (descriptorOf texts (capture'.descriptors texts) url dicts') := by
  rw [descriptorOf, descriptorOf, get?_descriptors, get?_descriptors]
  cases hsource : descriptorSources.get? url with
  | none => exact .refl []
  | some found =>
      obtain ⟨source, levels⟩ := found
      obtain ⟨policy, sourcePolicy, hdata⟩ := exists_dataSource hsource
      have hpolicy : capture.policyOf url = policy :=
        Option.some.inj ((policyOf_of_rule hrule).symm.trans hdata.data)
      rw [hpolicy] at hrule hdicts
      rw [Option.bind_some, Option.bind_some, ← halike.statuses source]
      split
      · rename_i hstatus
        have hsourcePolicy : capture.policyOf source = sourcePolicy := by
          simp only [Captured.policyOf, hdata.source, hstatus, if_pos]
        have hurl := halike.urls source
        cases hbody : capture.bodies.get? source with
        | none =>
            rw [hbody] at hurl
            cases hbody' : capture'.bodies.get? source with
            | none => exact .refl []
            | some body' =>
                rw [hbody'] at hurl
                cases hurl
        | some body =>
            rw [hbody] at hurl
            obtain ⟨body', hbody'⟩ := Option.isSome_iff_exists.1 hurl.symm
            have hbodies := halike.bodies source body body' hbody hbody'
            rw [hsourcePolicy] at hbodies
            have hid := hscalar body (Dict.mem_values.2 ⟨source, hbody⟩)
            have hindex := indexAlike_visitItems hids texts levels [] body body' [] [] ∅ ∅
              hdata.indexed (objectsOf_rel hbodies hid) .nil .nil
            have hlength : ∀ body, KeysOfLength (levels.length + 2)
                (indexDescriptors texts body levels) := fun body =>
              keysOfLength_visitItems texts levels body [] ∅ (by simp) fun key hkey =>
                absurd hkey List.not_mem_nil
            rw [hbody']
            exact sameUse_lookup hids texts hdata.levels hindex (hlength body) (hlength body')
              hdata.keyed (hdata.value path rule hrule haction) hdicts hname
      · exact .refl []

omit halike hids hscalar

/-! ## The trails -/

/-- Two stops that correspond. -/
structure StopAlike (ids : ℤ → ℤ) (names : String → String → String) (stop stop' : Stop) :
    Prop where
  url : stop.url = stop'.url
  policy : stop.policy = stop'.policy
  place : PlaceAlike ids names stop.policy stop.place stop'.place

/-- Two names of one kind that correspond. -/
def NameTextAlike (names : String → String → String) (name name' : String × String) : Prop :=
  name'.1 = name.1 ∧ name'.2 = names name.1 name.2

section Trails

include halike hscalar

/-- **The trails correspond.** -/
theorem trail_rel (hnames : capture.ScalarNames) (hothers : capture.others = capture'.others) :
    List.Forall₂ (StopAlike ids names) capture.trail capture'.trail := by
  refine List.rel_flatMap (halike.order_rel hothers) ?_
  rintro ⟨url, body⟩ ⟨_, body'⟩ ⟨hbody, hbody', rfl⟩
  have hscalars : ScalarKeys (capture.policyOf url) [] [] body :=
    ⟨hscalar body (Dict.mem_values.2 ⟨url, hbody⟩), fun leaf hleaf =>
      hnames url body hbody leaf (List.mem_filterMap.2 ⟨_, hleaf, rfl⟩)⟩
  have hplaces := forall₂_placeAlike ids names (capture.policyOf url) body [] [] [] body' hscalars
    (halike.bodies url body body' hbody hbody') .nil
  refine List.rel_map ?_ hplaces
  intro place place' hplace
  exact ⟨rfl, (halike.policyOf_eq url).symm, hplace⟩

end Trails

/-- **Corresponding leaves are under one rule**, and alike by it. -/
theorem PlaceAlike.rule {policy : EndpointPolicy} {leaf leaf' : Leaf}
    (h : PlaceAlike ids names policy (.leaf leaf) (.leaf leaf')) :
    leaf'.rule policy = leaf.rule policy ∧
      LeafAlike ids names (leaf.rule policy) leaf.value leaf'.value := by
  cases h with
  | leaf _ hvalue _ _ => exact ⟨rfl, hvalue⟩

section Numbers

variable {trail trail' : List Stop} (htrail : List.Forall₂ (StopAlike ids names) trail trail')

include htrail

/-- Keys are renamed alike. -/
theorem renamedKey_eq : trail.filterMap Stop.renamedKey = trail'.filterMap Stop.renamedKey := by
  refine filterMap_eq_of_rel htrail ?_
  rintro ⟨url, policy, place⟩ ⟨url', policy', place'⟩ ⟨hurl, hpolicy, hplace⟩
  obtain rfl : policy = policy' := hpolicy
  cases hplace with
  | key path key => rfl
  | leaf _ _ _ _ => rfl

theorem outKey_eq : outKey trail = outKey trail' := by
  funext policy path key
  rw [outKey, outKey, keyNumber, keyNumber, renamedKey_eq htrail]

theorem outPath_eq (policy : EndpointPolicy) (path : List Step) :
    outPath trail policy path = outPath trail' policy path := by
  rw [outPath, outPath, outKey_eq htrail]

/-- Ids correspond. -/
theorem idText_rel : List.Forall₂ (TextAlike ids) (trail.filterMap Stop.idText)
    (trail'.filterMap Stop.idText) := by
  refine List.rel_filterMap ?_ htrail
  rintro ⟨url, policy, place⟩ ⟨url', policy', place'⟩ ⟨hurl, hpolicy, hplace⟩
  obtain rfl : policy = policy' := hpolicy
  have hboth := hplace
  cases hplace with
  | key path key => exact .none
  | @leaf path dicts dicts' value value' _ _ _ _ =>
      obtain ⟨hrule', hvalue⟩ := hboth.rule
      simp only [Stop.idText, hrule']
      cases hrule : Leaf.rule policy ⟨path, dicts, value⟩ with
      | none => exact .none
      | some rule =>
          rw [Option.bind_some, Option.bind_some]
          split
          · rename_i haction
            rw [hrule] at hvalue
            simp only [LeafAlike, haction] at hvalue
            exact hvalue.idText
          · exact .none

theorem idNumber_eq (hids : Function.Injective ids) {text text' : String}
    (htext : TextAlike ids text text') : idNumber trail text = idNumber trail' text' :=
  number_rel (biUnique_textAlike hids) (idText_rel htrail) htext

/-- Ids that correspond become one id. -/
theorem outId_eq (hids : Function.Injective ids) {value value' : JsonValue}
    (h : IdAlike ids value value') : outId trail value = outId trail' value' := by
  have hdigits : ∀ n : ℤ, toString n ≠ "" := Text.intText_ne_empty
  cases h with
  | int n => rw [outId, outId, idNumber_eq htrail hids (.inl ⟨n, rfl, rfl⟩)]
  | text n =>
      rw [outId, outId, if_neg (hdigits n), if_neg (hdigits (ids n)),
        idNumber_eq htrail hids (.inl ⟨n, rfl, rfl⟩)]
  | other hvalue =>
      cases value with
      | int n => exact absurd rfl (hvalue n).1
      | str text =>
          have htext : TextAlike ids text text :=
            .inr ⟨fun n hn => (hvalue n).2 (by rw [hn]), rfl⟩
          rw [outId, outId, idNumber_eq htrail hids htext]
      | _ => rfl

/-- Names correspond, kind by kind. -/
theorem nameText_rel : List.Forall₂ (NameTextAlike names) (trail.filterMap Stop.nameText)
    (trail'.filterMap Stop.nameText) := by
  refine List.rel_filterMap ?_ htrail
  rintro ⟨url, policy, place⟩ ⟨url', policy', place'⟩ ⟨hurl, hpolicy, hplace⟩
  obtain rfl : policy = policy' := hpolicy
  have hboth := hplace
  cases hplace with
  | key path key => exact .none
  | @leaf path dicts dicts' value value' _ _ _ _ =>
      obtain ⟨hrule', hvalue⟩ := hboth.rule
      simp only [Stop.nameText, hrule']
      cases hrule : Leaf.rule policy ⟨path, dicts, value⟩ with
      | none => exact .none
      | some rule =>
          rw [hrule] at hvalue
          rw [Option.bind_some, Option.bind_some]
          cases haction : rule.action with
          | name =>
              simp only [LeafAlike, haction] at hvalue
              cases hvalue with
              | text text => exact .some ⟨rfl, rfl⟩
              | other htype =>
                  cases value with
                  | str text => exact absurd rfl htype
                  | _ => exact .none
          | _ => exact .none

theorem nameNumber_eq (hnames : ∀ kind, Function.Injective (names kind)) (kind text : String) :
    nameNumber trail kind text = nameNumber trail' kind (names kind text) := by
  have hunique : Relator.BiUnique fun text text' => text' = names kind text := by
    refine ⟨?_, ?_⟩
    · rintro text other _ rfl h
      exact hnames kind h
    · rintro text _ _ rfl rfl
      rfl
  refine number_rel hunique ?_ rfl
  have hkind : Relator.LiftFun (NameTextAlike names) (· ↔ ·)
      (fun name => decide (name.1 = kind) = true) fun name => decide (name.1 = kind) = true := by
    rintro name name' ⟨hname, -⟩
    beta_reduce
    rw [hname]
  have hkinds := List.rel_filter hkind (nameText_rel htrail)
  have hof : ∀ item ∈ (trail.filterMap Stop.nameText).filter fun name => name.1 = kind,
      item.1 = kind := fun item hitem => of_decide_eq_true (List.mem_filter.1 hitem).2
  have hboth := (List.forall₂_and_left ..).2 ⟨hof, hkinds⟩
  refine List.rel_map ?_ hboth
  rintro name name' ⟨hname, -, htext⟩
  rw [htext, hname]

end Numbers

/-! ## Leaves and reports -/

theorem placeholder_eq_of_jsonTypeName {value value' : JsonValue}
    (h : jsonTypeName value = jsonTypeName value') : placeholder value = placeholder value' := by
  cases value <;> cases value' <;> first | rfl | simp [jsonTypeName] at h

/-- Corresponding leaves are of one type. -/
theorem LeafAlike.jsonTypeName {rule : Option Rule} {value value' : JsonValue}
    (h : LeafAlike ids names rule value value') :
    Capture.jsonTypeName value = Capture.jsonTypeName value' := by
  cases rule with
  | none => exact h
  | some rule =>
      cases haction : rule.action with
      | keep =>
          simp only [LeafAlike, haction] at h
          rw [h]
      | id =>
          simp only [LeafAlike, haction] at h
          cases h <;> rfl
      | name =>
          simp only [LeafAlike, haction] at h
          cases h <;> rfl
      | redact =>
          simp only [LeafAlike, haction] at h
          exact h
      | value =>
          simp only [LeafAlike, haction] at h
          rw [h]

/-- **Corresponding leaves are reported for one reason**, or not. -/
theorem reason_eq {policy : EndpointPolicy} {leaf leaf' : Leaf}
    (h : PlaceAlike ids names policy (.leaf leaf) (.leaf leaf')) :
    leaf.reason policy = leaf'.reason policy := by
  obtain ⟨hrule', hvalue⟩ := h.rule
  obtain ⟨path, dicts, value⟩ := leaf
  obtain ⟨path', dicts', value'⟩ := leaf'
  rw [Leaf.reason, Leaf.reason, hrule']
  cases hrule : Leaf.rule policy ⟨path, dicts, value⟩ with
  | none => rfl
  | some rule =>
      rw [hrule] at hvalue
      cases haction : rule.action with
      | id =>
          simp only [LeafAlike, haction] at hvalue ⊢
          cases hvalue <;> rfl
      | name =>
          simp only [LeafAlike, haction] at hvalue ⊢
          cases hvalue <;> rfl
      | keep =>
          simp only [LeafAlike, haction] at hvalue ⊢
          rw [hvalue]
      | redact => simp only [haction]
      | value => simp only [haction]

/-- Descriptors used alike give one value. -/
theorem SameUse.valueOf_eq {texts : Texts} {descriptors descriptors' : Dict String DescriptorIndex}
    {url : String} {dicts dicts' : List (List (String × JsonValue))}
    (h : SameUse (descriptorOf texts descriptors url dicts)
      (descriptorOf texts descriptors' url dicts')) (value : JsonValue) :
    valueOf texts descriptors url dicts value = valueOf texts descriptors' url dicts' value := by
  cases value with
  | int n => exact h.number (.int n)
  | float x => exact h.number (.float x)
  | str text => exact congrArg (fun out => Except.ok (JsonValue.str out)) (h.enum text)
  | _ => rfl

section Leaves

include halike hids hscalar

/-- **Corresponding data values give one value**, or raise one exception. -/
theorem valueOf_eq_of_alike {url : String} {leaf leaf' : Leaf} {rule : Rule}
    (h : PlaceAlike ids names (capture.policyOf url) (.leaf leaf) (.leaf leaf'))
    (hrule : leaf.rule (capture.policyOf url) = some rule) (haction : rule.action = .value) :
    valueOf texts (capture.descriptors texts) url leaf.dicts leaf.value =
      valueOf texts (capture'.descriptors texts) url leaf'.dicts leaf'.value := by
  cases h with
  | @leaf path dicts dicts' value value' _ hvalue hdicts hname =>
      have hselected : (Position.along (capture.policyOf url) path).completeRule = some rule :=
        hrule
      rw [hselected] at hvalue
      simp only [LeafAlike, haction] at hvalue
      subst hvalue
      have hleaf := hname rule hrule haction
      exact (sameUse_descriptorOf halike hids hscalar texts hselected haction hdicts
        hleaf).valueOf_eq value

variable {trail trail' : List Stop} (htrail : List.Forall₂ (StopAlike ids names) trail trail')
  (hnames : ∀ kind, Function.Injective (names kind))

include htrail hnames

/-- **Corresponding leaves become one value.** -/
theorem outLeaf_eq_of_alike {url : String} {leaf leaf' : Leaf}
    (h : PlaceAlike ids names (capture.policyOf url) (.leaf leaf) (.leaf leaf')) :
    outLeaf trail texts (capture.descriptors texts) url (capture.policyOf url) leaf =
      outLeaf trail' texts (capture'.descriptors texts) url (capture.policyOf url) leaf' := by
  have hvalueOf := fun rule => @valueOf_eq_of_alike _ _ _ _ halike hids hscalar texts url leaf leaf'
    rule h
  obtain ⟨hrule', hvalue⟩ := h.rule
  obtain ⟨path, dicts, value⟩ := leaf
  obtain ⟨path', dicts', value'⟩ := leaf'
  cases hrule : Leaf.rule (capture.policyOf url) ⟨path, dicts, value⟩ with
  | none =>
      rw [hrule] at hvalue hrule'
      rw [outLeaf_of_none hrule, outLeaf_of_none hrule']
      exact placeholder_eq_of_jsonTypeName hvalue
  | some rule =>
      rw [hrule] at hvalue hrule'
      cases haction : rule.action with
      | keep =>
          simp only [LeafAlike, haction] at hvalue
          rw [outLeaf_of_keep hrule haction, outLeaf_of_keep hrule' haction, hvalue]
      | redact =>
          rw [outLeaf_of_redact hrule haction, outLeaf_of_redact hrule' haction]
          exact placeholder_eq_of_jsonTypeName hvalue.jsonTypeName
      | id =>
          simp only [LeafAlike, haction] at hvalue
          rw [outLeaf_of_id hrule haction, outLeaf_of_id hrule' haction]
          exact outId_eq htrail hids hvalue
      | name =>
          simp only [LeafAlike, haction] at hvalue
          rw [outLeaf_of_name hrule haction, outLeaf_of_name hrule' haction]
          cases hvalue with
          | text text => rw [outName, outName, nameNumber_eq htrail hnames]
          | other htype =>
              cases value with
              | str text => exact absurd rfl htype
              | _ => rfl
      | value =>
          -- the descriptors of both captures describe the value alike
          have hout := hvalueOf rule hrule haction
          simp only [outLeaf, hrule, hrule', haction]
          rw [hout]

omit htrail hnames in
/-- Corresponding places raise one exception, or none. -/
theorem failure_eq_of_alike {stop stop' : Stop} (hpolicy : stop.policy = capture.policyOf stop.url)
    (h : StopAlike ids names stop stop') :
    stop.failure texts (capture.descriptors texts) =
      stop'.failure texts (capture'.descriptors texts) := by
  obtain ⟨url, policy, place⟩ := stop
  obtain ⟨url', policy', place'⟩ := stop'
  obtain ⟨rfl, rfl, hplace⟩ := h
  have hpolicy' : policy = capture.policyOf url := hpolicy
  subst hpolicy'
  have hvalueOf := fun leaf leaf' rule =>
    @valueOf_eq_of_alike _ _ _ _ halike hids hscalar texts url leaf leaf' rule
  have hboth := hplace
  cases hplace with
  | key path key => rfl
  | @leaf path dicts dicts' value value' _ _ _ _ =>
      simp only [Stop.failure, hboth.rule.1]
      cases hrule : Leaf.rule (capture.policyOf url) ⟨path, dicts, value⟩ with
      | none => rfl
      | some rule =>
          rw [Option.bind_some, Option.bind_some]
          split
          · rename_i haction
            rw [hvalueOf _ _ rule hboth hrule haction]
          · rfl

end Leaves

section Reports

variable {trail trail' : List Stop} (htrail : List.Forall₂ (StopAlike ids names) trail trail')

include htrail

/-- The reports of leaves are the same. -/
theorem unknownLeaf_eq : trail.filterMap (Stop.unknownLeaf trail) =
    trail'.filterMap (Stop.unknownLeaf trail') := by
  refine filterMap_eq_of_rel htrail ?_
  rintro ⟨url, policy, place⟩ ⟨url', policy', place'⟩ ⟨hurl, hpolicy, hplace⟩
  obtain rfl : url = url' := hurl
  obtain rfl : policy = policy' := hpolicy
  have hreason := fun leaf leaf' => @reason_eq ids names policy leaf leaf'
  have hboth := hplace
  cases hplace with
  | key path key => rfl
  | leaf _ hvalue _ _ =>
      rw [Stop.unknownLeaf, Stop.unknownLeaf]
      simp only [hreason _ _ hboth, outPath_eq htrail, hvalue.jsonTypeName]

/-- The reports of keys are the same. -/
theorem renamedReport_eq : trail.filterMap (Stop.renamedReport trail) =
    trail'.filterMap (Stop.renamedReport trail') := by
  refine filterMap_eq_of_rel htrail ?_
  rintro ⟨url, policy, place⟩ ⟨url', policy', place'⟩ ⟨hurl, hpolicy, hplace⟩
  obtain rfl : url = url' := hurl
  obtain rfl : policy = policy' := hpolicy
  cases hplace with
  | key path key =>
      rw [Stop.renamedReport, Stop.renamedReport]
      simp only [outPath_eq htrail, keyNumber, renamedKey_eq htrail]
  | leaf _ _ _ _ => rfl

end Reports

end Captures

/-- **What is hidden does not show**: the values without a rule or under a
REDACT rule, which integers the ids are and which texts the names. -/
theorem anonymize_noninterference {ids : ℤ → ℤ} {names : String → String → String}
    (hids : Function.Injective ids) (hnames : ∀ kind, Function.Injective (names kind))
    {capture capture' : Captured} (halike : CapturesAlike ids names capture capture')
    (hothers : capture.others = capture'.others) (hscalar : capture.ScalarIds)
    (hscalarNames : capture.ScalarNames) (texts : Texts) :
    anonymize texts capture = anonymize texts capture' := by
  have htrail := trail_rel halike hscalar hscalarNames hothers
  have hfailures : capture.trail.findSome? (Stop.failure texts (capture.descriptors texts)) =
      capture'.trail.findSome? (Stop.failure texts (capture'.descriptors texts)) := by
    have hpolicies : ∀ stop ∈ capture.trail, stop.policy = capture.policyOf stop.url :=
      fun stop hstop => Captured.policy_of_mem_trail hstop
    rw [← List.head?_filterMap, ← List.head?_filterMap]
    refine congrArg List.head?
      (filterMap_eq_of_rel ((List.forall₂_and_left ..).2 ⟨hpolicies, htrail⟩) ?_)
    rintro stop stop' ⟨hpolicy, hstop⟩
    exact failure_eq_of_alike halike hids hscalar texts hpolicy hstop
  have hbodies : (capture.order.map fun item => (item.1, capture.outBody texts item.1 item.2)) =
      capture'.order.map fun item => (item.1, capture'.outBody texts item.1 item.2) := by
    rw [← List.forall₂_eq_eq_eq, List.forall₂_map_left_iff, List.forall₂_map_right_iff]
    refine (halike.order_rel hothers).imp ?_
    rintro ⟨url, body⟩ ⟨_, body'⟩ ⟨hbody, hbody', rfl⟩
    have hscalars : ScalarKeys (capture.policyOf url) [] [] body :=
      ⟨hscalar body (Dict.mem_values.2 ⟨url, hbody⟩), fun leaf hleaf =>
        hscalarNames url body hbody leaf (List.mem_filterMap.2 ⟨_, hleaf, rfl⟩)⟩
    have hkeys : (rewriteOf capture.trail texts (capture.descriptors texts) url
        (capture.policyOf url)).key = (rewriteOf capture'.trail texts (capture'.descriptors texts)
          url (capture.policyOf url)).key := by
      rw [rewriteOf, rewriteOf, outKey_eq htrail]
    have hnode := node_eq_of_alike hkeys
      (fun leaf leaf' hleaf => outLeaf_eq_of_alike halike hids hscalar texts htrail hnames hleaf)
      body [] [] [] body' hscalars (halike.bodies url body body' hbody hbody') .nil
    rw [Captured.outBody, Captured.outBody, halike.policyOf_eq url]
    exact Prod.ext rfl hnode
  rw [anonymize_eq, anonymize_eq, hfailures, hbodies, unknownLeaf_eq htrail,
    renamedReport_eq htrail]

/-! ## What does show -/

section Same

theorem LeafAlike.self (rule : Option Rule) (value : JsonValue) :
    LeafAlike id (fun _ text => text) rule value value := by
  cases rule with
  | none => rfl
  | some rule =>
      simp only [LeafAlike]
      cases rule.action with
      | redact => trivial
      | keep => trivial
      | value => trivial
      | id =>
          by_cases hint : ∃ n : ℤ, value = .int n ∨ value = .str (toString n)
          · rcases hint with ⟨n, rfl | rfl⟩
            · exact .int n
            · exact .text n
          · exact .other fun n => not_or.1 fun h => hint ⟨n, h⟩
      | name =>
          cases value with
          | str text => exact .text text
          | _ => exact .other (by simp [Capture.jsonTypeName])

variable (policy : EndpointPolicy)

mutual

/-- A body is like itself. -/
theorem Alike.self (path : List Step) :
    ∀ value, Alike id (fun _ text => text) policy path value value
  | .null => .leaf rfl rfl (.self _ _)
  | .bool _ => .leaf rfl rfl (.self _ _)
  | .int _ => .leaf rfl rfl (.self _ _)
  | .float _ => .leaf rfl rfl (.self _ _)
  | .str _ => .leaf rfl rfl (.self _ _)
  | .list items => .list (AlikeItems.self path items)
  | .dict items => .dict (AlikeFields.self path items)

theorem AlikeItems.self (path : List Step) :
    ∀ items, AlikeItems id (fun _ text => text) policy path items items
  | [] => .nil
  | item :: items => .cons (Alike.self _ item) (AlikeItems.self path items)

theorem AlikeFields.self (path : List Step) :
    ∀ items, AlikeFields id (fun _ text => text) policy path items items
  | [] => .nil
  | (_, value) :: items => .cons (Alike.self _ value) (AlikeFields.self path items)

end

end Same

/-- Texts that are also those of a list of one plain text. -/
def Texts.quoted : Texts where
  float := Texts.simple.float
  container value :=
    match value with
    | .list [.str text] => "['" ++ text ++ "']"
    | _ => "[]"
  float_ne_int := Texts.simple.float_ne_int

/-- The data of an area, under a name. -/
def areaData (name : JsonValue) : JsonValue :=
  .list [.dict [("id", .int 1), ("data", .list [.dict [("name", name), ("value", .int 7)]])]]

/-- An area with one data item, and a descriptor named as the text of a list. -/
def areaCapture (name : String) : Captured where
  bodies := .ofList [("/areas/meta", .list [.dict [("id", .int 1), ("metadata", .list [.dict [
    ("name", .str "['x']"), ("min", .int 5)]])]]), ("/areas/data", areaData (.list [.str name]))]
  statuses := .ofList [("/areas/meta", 200), ("/areas/data", 200)]
  distinct := by
    intro body hbody
    rcases List.mem_cons.1 hbody with rfl | hbody
    · rfl
    · rw [List.mem_singleton.1 hbody]
      rfl

theorem get?_areaCapture (name url : String) : (areaCapture name).bodies.get? url =
    if url = "/areas/data" then some (areaData (.list [.str name]))
    else (areaCapture "").bodies.get? url := by
  by_cases hdata : url = "/areas/data"
  · rw [if_pos hdata, hdata]
    rfl
  · rw [if_neg hdata]
    simp only [areaCapture, Dict.get?_ofList, List.reverse_cons, List.reverse_nil,
      List.nil_append, List.cons_append, Dict.lookup_cons_eq, if_neg hdata]

theorem areaCapture_alike (name name' : String) :
    CapturesAlike id (fun _ text => text) (areaCapture name) (areaCapture name') where
  statuses _ := rfl
  urls url := by
    rw [get?_areaCapture name, get?_areaCapture name']
    split <;> rfl
  bodies url body body' hbody hbody' := by
    rw [get?_areaCapture] at hbody hbody'
    split at hbody
    · rename_i hdata
      rw [if_pos hdata] at hbody'
      cases hbody
      cases hbody'
      have hids := @idsBefore_areaIds "[].data[]" "data" rfl (by simp [anyKey])
      have hrule : (Position.along ⟨Rule.areaIds ++ Rule.data "[].data[]", []⟩
          [.item, .key "data", .item, .key "name", .item]).completeRule = none := by
        rw [completeRule_eq_lookup hids.without_data.literal rfl]
        rfl
      have hname : LeafAlike id (fun _ text => text) (Position.along
          ⟨Rule.areaIds ++ Rule.data "[].data[]", []⟩
          [.item, .key "data", .item, .key "name", .item]).completeRule
          (.str name) (.str name') := by
        rw [hrule]
        rfl
      rw [hdata]
      exact .list (.cons (.dict (.cons (.self _ _ _) (.cons (.list (.cons (.dict (.cons
        (.list (.cons (.leaf rfl rfl hname) .nil)) (.self _ _ _))) .nil)) .nil))) .nil)
    · rename_i hdata
      rw [if_neg hdata, hbody] at hbody'
      cases hbody'
      exact .self _ _ _

theorem scalarIds_areaCapture (name : String) : (areaCapture name).ScalarIds := by
  intro body hbody
  rcases List.mem_cons.1 hbody with rfl | hbody
  · rfl
  · rw [List.mem_singleton.1 hbody]
    rfl

/-- The leaves of a body of the output. -/
def outLeaves (url : String) (result : Except Exc Anonymized) : List Leaf :=
  ((result.toOption.bind (·.bodies.get? url)).map leaves).getD []

/-- The integers among them. -/
def outNumbers (url : String) (result : Except Exc Anonymized) : List ℤ :=
  (outLeaves url result).filterMap fun leaf =>
    match leaf.value with
    | .int n => some n
    | _ => none

/-- The keys around them, outermost first. -/
def outKeys (url : String) (result : Except Exc Anonymized) : List String :=
  (outLeaves url result).flatMap fun leaf => leaf.path.map Step.text

/-- Two urls without a policy. -/
def othersCapture : Captured :=
  ⟨.ofList [("/a", .dict [("my key", .int 1)]), ("/b", .dict [("your key", .int 1)])], ∅,
    by decide⟩

/-- The same bodies, in the other order. -/
def othersSwapped : Captured :=
  ⟨.ofList [("/b", .dict [("your key", .int 1)]), ("/a", .dict [("my key", .int 1)])], ∅,
    by decide⟩

theorem othersCapture_alike :
    CapturesAlike id (fun _ text => text) othersCapture othersSwapped := by
  have hsame : ∀ url, othersCapture.bodies.get? url = othersSwapped.bodies.get? url := by
    intro url
    by_cases hfirst : url = "/a"
    · rw [hfirst]
      rfl
    · by_cases hsecond : url = "/b"
      · rw [hsecond]
        rfl
      · simp only [othersCapture, othersSwapped, Dict.get?_ofList, List.reverse_cons,
          List.reverse_nil, List.nil_append, List.cons_append, Dict.lookup_cons_eq,
          if_neg hfirst, if_neg hsecond]
  refine ⟨fun _ => rfl, fun url => by rw [hsame], fun url body body' hbody hbody' => ?_⟩
  rw [hsame, hbody'] at hbody
  cases hbody
  exact .self _ _ _

/-- No data value is among them. -/
theorem scalarNames_othersCapture : othersCapture.ScalarNames := by
  intro url body _ leaf _ rule hrule _
  have hpolicy : othersCapture.policyOf url = ⟨[], []⟩ := by
    rw [Captured.policyOf]
    split
    · exact if_neg nofun
    · rfl
  have hnone : (Position.along ⟨[], []⟩ leaf.path).completeRule = none :=
    completeRule_eq_lookup (fun rule hmem => absurd hmem List.not_mem_nil) rfl leaf.path
  rw [Leaf.rule, hpolicy, hnone] at hrule
  cases hrule

/-- The descriptor of one is found, of the other not. -/
theorem outNumbers_areaCapture :
    outNumbers "/areas/data" (anonymize .quoted (areaCapture "x")) = [1, 5] ∧
      outNumbers "/areas/data" (anonymize .quoted (areaCapture "y")) = [1, 0] := by
  decide +kernel

/-- **The item of a list for a name shows, and so does the order of the urls
without a policy.** -/
theorem anonymize_shows :
    (CapturesAlike id (fun _ text => text) (areaCapture "x") (areaCapture "y") ∧
      (areaCapture "x").others = (areaCapture "y").others ∧
      (areaCapture "x").ScalarIds ∧ (areaCapture "y").ScalarIds ∧
      outNumbers "/areas/data" (anonymize .quoted (areaCapture "x")) = [1, 5] ∧
      outNumbers "/areas/data" (anonymize .quoted (areaCapture "y")) = [1, 0]) ∧
    (CapturesAlike id (fun _ text => text) othersCapture othersSwapped ∧
      othersCapture.ScalarIds ∧ othersCapture.ScalarNames ∧
      outKeys "/a" (anonymize .quoted othersCapture) = ["<key-1>"] ∧
      outKeys "/a" (anonymize .quoted othersSwapped) = ["<key-2>"]) := by
  have hids : othersCapture.ScalarIds := by
    unfold Captured.ScalarIds
    decide
  exact ⟨⟨areaCapture_alike "x" "y", rfl, scalarIds_areaCapture _, scalarIds_areaCapture _,
    outNumbers_areaCapture⟩, othersCapture_alike, hids, scalarNames_othersCapture,
    by decide +kernel, by decide +kernel⟩

/-- A home at a date: a group with an id and a name, beside what is kept. -/
def homeBody (id : ℤ) (name date : String) : JsonValue :=
  .dict [("date", .str date),
    ("groups", .list [.dict [("id", .int id), ("name", .str name), ("picto", .str "picto_light")]]),
    ("version", .str "1.0")]

/-- The capture of it alone. -/
def homeCapture (id : ℤ) (name date : String) : Captured :=
  ⟨.ofList [("/configs/file", homeBody id name date)], .ofList [("/configs/file", 200)],
    fun body hbody => by
      rw [List.mem_singleton.1 hbody]
      rfl⟩

/-- The rules of what differs, and of what does not. -/
theorem homeCapture_rules :
    (Position.along configsFile [.key "date"]).completeRule = some (.redacting "date") ∧
    (Position.along configsFile [.key "groups", .item, .key "id"]).completeRule =
      some (.ofId "groups[].id") ∧
    (Position.along configsFile [.key "groups", .item, .key "name"]).completeRule =
      some (.ofName "groups[].name" "group") ∧
    (Position.along configsFile [.key "groups", .item, .key "picto"]).completeRule =
      some (.keeping "groups[].picto" .word) ∧
    (Position.along configsFile [.key "version"]).completeRule =
      some (.keeping "version" .version) := by
  decide +kernel

/-- The two names of the example, exchanged. -/
def swapNames (_kind text : String) : String := Equiv.swap "Kitchen" "Bedroom" text

/-- Which id it is, which name and which date does not show. -/
theorem anonymize_homeCapture : anonymize .quoted (homeCapture 7 "Kitchen" "2024-01-01") =
    anonymize .quoted (homeCapture 8 "Bedroom" "2025-02-02") := by
  have hget : ∀ {id : ℤ} {name date url : String} {body : JsonValue},
      (homeCapture id name date).bodies.get? url = some body →
        url = "/configs/file" ∧ body = homeBody id name date := by
    intro id name date url body h
    have hmem := Dict.mem_of_get?_ofList h
    rwa [List.mem_singleton, Prod.mk.injEq] at hmem
  have halike : CapturesAlike (· + 1) swapNames (homeCapture 7 "Kitchen" "2024-01-01")
      (homeCapture 8 "Bedroom" "2025-02-02") := by
    refine ⟨fun _ => rfl, fun url => ?_, fun url body body' hbody hbody' => ?_⟩
    · by_cases hurl : url = "/configs/file"
      · rw [hurl]
        rfl
      · simp [homeCapture, Dict.get?_ofList, Dict.lookup_cons_eq, if_neg hurl]
    · obtain ⟨rfl, rfl⟩ := hget hbody
      obtain ⟨-, rfl⟩ := hget hbody'
      obtain ⟨hdate, hid, hname, hpicto, hversion⟩ := homeCapture_rules
      have hdateAlike : LeafAlike (· + 1) swapNames
          (Position.along configsFile [.key "date"]).completeRule
          (.str "2024-01-01") (.str "2025-02-02") := by
        rw [hdate]
        rfl
      have hidAlike : LeafAlike (· + 1) swapNames
          (Position.along configsFile [.key "groups", .item, .key "id"]).completeRule
          (.int 7) (.int 8) := by
        rw [hid]
        exact .int 7
      have hnameAlike : LeafAlike (· + 1) swapNames
          (Position.along configsFile [.key "groups", .item, .key "name"]).completeRule
          (.str "Kitchen") (.str "Bedroom") := by
        rw [hname]
        exact .text "Kitchen"
      have hkept : ∀ {path : List Step} {rule : Rule} (text : String),
          (Position.along configsFile path).completeRule = some rule → rule.action = .keep →
            LeafAlike (· + 1) swapNames (Position.along configsFile path).completeRule
              (.str text) (.str text) := by
        intro path rule text hrule haction
        simp only [hrule, LeafAlike, haction]
      exact .dict (.cons (.leaf rfl rfl hdateAlike) (.cons (.list (.cons (.dict
        (.cons (.leaf rfl rfl hidAlike) (.cons (.leaf rfl rfl hnameAlike)
          (.cons (.leaf rfl rfl (hkept _ hpicto rfl)) .nil)))) .nil))
            (.cons (.leaf rfl rfl (hkept _ hversion rfl)) .nil)))
  have hids : (homeCapture 7 "Kitchen" "2024-01-01").ScalarIds := by
    unfold Captured.ScalarIds
    decide
  have hvalues : ∀ rule ∈ configsFile.rules, rule.action ≠ .value := by decide
  have hnames : (homeCapture 7 "Kitchen" "2024-01-01").ScalarNames := by
    intro url body hbody leaf hleaf found hfound hvalue
    obtain ⟨rfl, rfl⟩ := hget hbody
    have hnone : ∀ text ∈ configsFile.opaquePaths, parsePath text ≠ [] := by simp [configsFile]
    change (Position.along configsFile leaf.path).completeRule = _ at hfound
    rw [(at_along hnone leaf.path).completeRule] at hfound
    exact absurd hvalue (hvalues found (List.mem_of_find?_eq_some hfound))
  exact anonymize_noninterference (add_left_injective 1)
    (fun _ => (Equiv.swap "Kitchen" "Bedroom").injective) halike rfl hids hnames .quoted

end Capture

end Tydomio
