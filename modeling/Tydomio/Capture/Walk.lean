import Tydomio.Capture.Model.Anonymize
import Mathlib.Data.List.Infix

/-!
# The walk selects what the rule paths match

A rule applies to a node where its path matches the node's path step by
step. The walk never sees a whole path: it carries the rules that still
match, and whether an opaque path has matched. It reads an object's key
`[]` as a list item: it matches the paths of a policy against the node's path
as it is read, and selects what they match where the two readings of the path
come to the same, `ReadAlike`.
-/

namespace Tydomio

open Common

namespace Capture

/-! ## Matching whole paths -/

/-- **Which segment matches which step.** -/
inductive Fits : String → Step → Prop
  /-- A list mark matches a list item. -/
  | item : Fits listItem .item
  /-- A plain segment matches the equal key. -/
  | plain {key : String} : key ≠ listItem → isWildcard key = false → Fits key (.key key)
  /-- A wildcard matches a key with something before its suffix. -/
  | wildcard {before suffix : List Char} : before ≠ [] →
      Fits (String.ofList (anyKey :: suffix)) (.key (String.ofList (before ++ suffix)))

/-- A rule path matches a path, step by step. -/
def Matches (segments : List String) (path : List Step) : Prop := List.Forall₂ Fits segments path

/-- The same as a test. -/
def fits (segment : String) : Step → Bool
  | .item => segment = listItem
  | .key key => segment ≠ listItem && segmentMatches segment key

theorem isWildcard_iff {segment : String} :
    isWildcard segment = true ↔ ∃ suffix, segment = String.ofList (anyKey :: suffix) := by
  rw [isWildcard, decide_eq_true_eq, List.head?_eq_some_iff]
  refine exists_congr fun suffix => ?_
  rw [← String.toList_inj, String.toList_ofList]

theorem segmentMatches_wildcard_iff {suffix : List Char} {key : String} :
    segmentMatches (String.ofList (anyKey :: suffix)) key = true ↔
      ∃ before, before ≠ [] ∧ key = String.ofList (before ++ suffix) := by
  rw [segmentMatches, if_pos (isWildcard_iff.2 ⟨suffix, rfl⟩)]
  simp only [String.toList_ofList, List.drop_one, List.tail_cons, Bool.and_eq_true,
    decide_eq_true_eq, List.isSuffixOf_iff_suffix]
  refine ⟨fun ⟨⟨before, hkey⟩, hlength⟩ => ⟨before, ?_, ?_⟩, fun ⟨before, hne, hkey⟩ => ?_⟩
  · rintro rfl
    rw [← hkey, List.nil_append] at hlength
    omega
  · rw [hkey, String.ofList_toList]
  · have hpos : 0 < before.length := List.length_pos_iff.2 hne
    rw [hkey, String.toList_ofList, List.length_append]
    exact ⟨⟨before, rfl⟩, by omega⟩

theorem segmentMatches_plain {segment : String} (h : isWildcard segment = false) (key : String) :
    segmentMatches segment key = decide (segment = key) := by
  simp [segmentMatches, h]

theorem fits_iff {segment : String} {step : Step} :
    fits segment step = true ↔ Fits segment step := by
  cases step with
  | item =>
      refine ⟨fun h => ?_, fun h => ?_⟩
      · rw [of_decide_eq_true h]
        exact .item
      · cases h
        rfl
  | key key =>
      rw [fits, Bool.and_eq_true, decide_eq_true_eq]
      refine ⟨fun ⟨hitem, h⟩ => ?_, fun h => ?_⟩
      · by_cases hwild : isWildcard segment = true
        · obtain ⟨suffix, rfl⟩ := isWildcard_iff.1 hwild
          obtain ⟨before, hne, rfl⟩ := segmentMatches_wildcard_iff.1 h
          exact .wildcard hne
        · have hplain : isWildcard segment = false := by simpa using hwild
          rw [segmentMatches_plain hplain] at h
          obtain rfl := of_decide_eq_true h
          exact .plain hitem hplain
      · cases h with
        | plain hitem hplain => exact ⟨hitem, by simp [segmentMatches_plain hplain]⟩
        | wildcard hne =>
            refine ⟨fun hitem => ?_, segmentMatches_wildcard_iff.2 ⟨_, hne, rfl⟩⟩
            have hwild := isWildcard_iff.2 ⟨_, hitem.symm⟩
            exact absurd hwild (by decide)

instance : DecidableRel Fits := fun _ _ => decidable_of_iff _ fits_iff

instance (segments : List String) (path : List Step) : Decidable (Matches segments path) :=
  inferInstanceAs (Decidable (List.Forall₂ Fits segments path))

/-! ## What a position holds -/

/-- The step that `child` takes a step for. -/
def Step.read : Step → Step
  | .item => .item
  | .key name => if name = listItem then .item else .key name

theorem follows_item (segments : List String) (i : ℕ) :
    follows listItem "" segments i = (segments[i]?).any fun segment => fits segment .item := by
  unfold follows
  cases segments[i]? with
  | none => rfl
  | some segment => rfl

theorem follows_key (key : String) (segments : List String) (i : ℕ) :
    follows key key segments i =
      (segments[i]?).any fun segment => fits segment (Step.key key).read := by
  unfold follows
  cases segments[i]? with
  | none => rfl
  | some segment =>
      by_cases hkey : key = listItem
      · simp [Step.read, hkey, fits]
      · simp [Step.read, hkey, fits]

/-- **What the position at a path holds**, of a policy. -/
structure At (policy : EndpointPolicy) (path : List Step) (position : Position) : Prop where
  rules : position.rules =
    Path.started fits (fun rule => parsePath rule.path) policy.rules (path.map Step.read)
  opaquePaths : position.opaquePaths =
    Path.started fits id (policy.opaquePaths.map parsePath) (path.map Step.read)
  isOpaque : position.isOpaque = true ↔ ∃ start, start <+: path ∧
    ∃ text ∈ policy.opaquePaths, Path.matchAll fits (parsePath text) (start.map Step.read) = true

variable {policy : EndpointPolicy} {path : List Step} {position : Position}

/-- The paths of a policy have a segment each. -/
structure EndpointPolicy.NonEmpty (policy : EndpointPolicy) : Prop where
  rules : ∀ rule ∈ policy.rules, parsePath rule.path ≠ []
  opaquePaths : ∀ text ∈ policy.opaquePaths, parsePath text ≠ []

theorem at_root (h : ∀ text ∈ policy.opaquePaths, parsePath text ≠ []) :
    At policy [] (.root policy) where
  rules := Path.started_nil.symm
  opaquePaths := by
    rw [List.map_nil, Path.started_nil, List.map_map]
    rfl
  isOpaque := by
    refine iff_of_false (by simp [Position.root]) ?_
    rintro ⟨start, hstart, text, htext, hmatch⟩
    rw [List.prefix_nil.1 hstart, List.map_nil, Path.matchAll_iff] at hmatch
    exact h text htext (List.forall₂_nil_right_iff.1 hmatch)

/-- **A step down keeps what a position holds.** -/
theorem At.child (h : At policy path position) (step : Step) {segment key outKey : String}
    (hfollows : ∀ segments i, follows segment key segments i =
      (segments[i]?).any fun segment => fits segment step.read) :
    At policy (path ++ [step]) (position.child segment key outKey) := by
  have hpaths : Path.advance (follows segment key) position.opaquePaths =
      Path.started fits id (policy.opaquePaths.map parsePath)
        ((path ++ [step]).map Step.read) := by
    rw [h.opaquePaths, List.map_append]
    exact Path.advance_started fun segments i => hfollows segments i
  refine ⟨?_, hpaths, ?_⟩
  · rw [Position.child, h.rules, List.map_append]
    exact Path.advance_started fun (rule : Rule) i => hfollows (parsePath rule.path) i
  · have hany : (Path.advance (follows segment key) position.opaquePaths).any
        (fun path => complete path.1 path.2) = true ↔
          ∃ text ∈ policy.opaquePaths,
            Path.matchAll fits (parsePath text) ((path ++ [step]).map Step.read) = true := by
      rw [hpaths]
      exact (iff_of_eq (congrArg (· = true) Path.any_complete)).trans (by simp)
    simp only [Position.child, Bool.or_eq_true, h.isOpaque, hany, List.prefix_concat_iff]
    constructor
    · rintro (⟨start, hstart, hmatch⟩ | hmatch)
      · exact ⟨start, .inr hstart, hmatch⟩
      · exact ⟨_, .inl rfl, hmatch⟩
    · rintro ⟨start, rfl | hstart, hmatch⟩
      · exact .inr hmatch
      · exact .inl ⟨start, hstart, hmatch⟩

/-- The rule of a position, of the whole path as it is read. -/
theorem At.completeRule (h : At policy path position) :
    position.completeRule = policy.rules.find? fun rule =>
      Path.matchAll fits (parsePath rule.path) (path.map Step.read) := by
  rw [Position.completeRule, h.rules]
  have hfind := Path.find?_complete fits (fun rule : Rule => parsePath rule.path) policy.rules
    (path.map Step.read)
  refine (congrArg (Option.map Prod.fst) hfind).trans ?_
  rw [Option.map_map]
  exact Option.map_id'

/-! ## The nodes of a body -/

/-- **The node at a path of a body.** -/
inductive NodeAt : JsonValue → List Step → Prop
  | here (body : JsonValue) : NodeAt body []
  | item {items : List JsonValue} {value : JsonValue} {path : List Step} :
      value ∈ items → NodeAt value path → NodeAt (.list items) (.item :: path)
  | key {items : List (String × JsonValue)} {key : String} {value : JsonValue}
      {path : List Step} :
      (key, value) ∈ items → NodeAt value path → NodeAt (.dict items) (.key key :: path)

mutual

/-- **At every node the walk is at its path's position.** -/
theorem at_walk {path : List Step} {position : Position}
    (h : At policy path position) (anonymizer : Anonymizer) :
    ∀ body, ∀ visit ∈ (walk path position anonymizer body).1,
      At policy visit.path visit.position ∧
        ∃ rest, visit.path = path ++ rest ∧ NodeAt body rest
  | .list items, visit, hvisit => by
      rw [walk, List.mem_cons] at hvisit
      rcases hvisit with rfl | hvisit
      · exact ⟨h, [], (List.append_nil _).symm, .here _⟩
      · obtain ⟨hat, item, hitem, rest, hpath, hnode⟩ :=
          at_walkItems h anonymizer items visit hvisit
        exact ⟨hat, _, hpath, .item hitem hnode⟩
  | .dict items, visit, hvisit => by
      rw [walk, List.mem_cons] at hvisit
      rcases hvisit with rfl | hvisit
      · exact ⟨h, [], (List.append_nil _).symm, .here _⟩
      · -- the objects a leaf may look in are no part of what is selected
        have h' : At policy path { position with dicts := position.dicts ++ [items] } :=
          ⟨h.rules, h.opaquePaths, h.isOpaque⟩
        obtain ⟨hat, key, value, hitem, rest, hpath, hnode⟩ :=
          at_walkKeys h' anonymizer items visit hvisit
        exact ⟨hat, _, hpath, .key hitem hnode⟩
  | .null, visit, hvisit | .bool _, visit, hvisit | .int _, visit, hvisit
  | .float _, visit, hvisit | .str _, visit, hvisit => by
      rw [walk, List.mem_singleton] at hvisit
      · subst hvisit
        exact ⟨h, [], (List.append_nil _).symm, .here _⟩
      all_goals simp

theorem at_walkItems {path : List Step} {position : Position}
    (h : At policy path position) (anonymizer : Anonymizer) :
    ∀ items, ∀ visit ∈ (walkItems path position anonymizer items).1,
      At policy visit.path visit.position ∧
        ∃ item ∈ items, ∃ rest, visit.path = path ++ .item :: rest ∧ NodeAt item rest
  | [], visit, hvisit => by
      rw [walkItems] at hvisit
      cases hvisit
  | item :: items, visit, hvisit => by
      rw [walkItems, List.mem_append] at hvisit
      rcases hvisit with hvisit | hvisit
      · obtain ⟨hat, rest, hpath, hnode⟩ :=
          at_walk (h.child .item follows_item) anonymizer item visit hvisit
        exact ⟨hat, item, List.mem_cons_self, rest, by rw [hpath, List.append_assoc]; rfl, hnode⟩
      · obtain ⟨hat, item', hitem, hrest⟩ := at_walkItems h _ items visit hvisit
        exact ⟨hat, item', List.mem_cons_of_mem _ hitem, hrest⟩

theorem at_walkKeys {path : List Step} {position : Position}
    (h : At policy path position) (anonymizer : Anonymizer) :
    ∀ items, ∀ visit ∈ (walkKeys path position anonymizer items).1,
      At policy visit.path visit.position ∧
        ∃ key value, (key, value) ∈ items ∧
          ∃ rest, visit.path = path ++ .key key :: rest ∧ NodeAt value rest
  | [], visit, hvisit => by
      rw [walkKeys] at hvisit
      cases hvisit
  | (key, value) :: items, visit, hvisit => by
      rw [walkKeys, List.mem_append] at hvisit
      rcases hvisit with hvisit | hvisit
      · obtain ⟨hat, rest, hpath, hnode⟩ :=
          at_walk (h.child (.key key) (follows_key key)) _ value visit hvisit
        exact ⟨hat, key, value, List.mem_cons_self, rest,
          by rw [hpath, List.append_assoc]; rfl, hnode⟩
      · obtain ⟨hat, key', value', hitem, hrest⟩ := at_walkKeys h _ items visit hvisit
        exact ⟨hat, key', value', List.mem_cons_of_mem _ hitem, hrest⟩

end

/-- The walk of a list walks each of its items. -/
theorem exists_walk_item {items : List JsonValue} {item : JsonValue} (h : item ∈ items)
    (path : List Step) (position : Position) (anonymizer : Anonymizer) :
    ∃ anonymizer', ∀ visit ∈ (walk (path ++ [.item]) (position.child listItem "" listItem)
      anonymizer' item).1, visit ∈ (walkItems path position anonymizer items).1 := by
  induction items generalizing anonymizer with
  | nil => cases h
  | cons item' items ih =>
      rw [walkItems]
      rcases List.mem_cons.1 h with rfl | h
      · exact ⟨anonymizer, fun visit hvisit => List.mem_append_left _ hvisit⟩
      · obtain ⟨anonymizer', hwalk⟩ := ih h _
        exact ⟨anonymizer', fun visit hvisit => List.mem_append_right _ (hwalk visit hvisit)⟩

/-- The walk of an object walks each of its values. -/
theorem exists_walk_key {items : List (String × JsonValue)} {key : String} {value : JsonValue}
    (h : (key, value) ∈ items) (path : List Step) (position : Position)
    (anonymizer : Anonymizer) :
    ∃ outKey anonymizer', ∀ visit ∈ (walk (path ++ [.key key]) (position.child key key outKey)
      anonymizer' value).1, visit ∈ (walkKeys path position anonymizer items).1 := by
  induction items generalizing anonymizer with
  | nil => cases h
  | cons item items ih =>
      obtain ⟨key', value'⟩ := item
      rw [walkKeys]
      rcases List.mem_cons.1 h with heq | h
      · obtain ⟨rfl, rfl⟩ := Prod.mk.inj heq
        exact ⟨_, _, fun visit hvisit => List.mem_append_left _ hvisit⟩
      · obtain ⟨outKey, anonymizer', hwalk⟩ := ih h _
        exact ⟨outKey, anonymizer', fun visit hvisit =>
          List.mem_append_right _ (hwalk visit hvisit)⟩

/-- Every node is visited. -/
theorem exists_visit {body : JsonValue} {rest : List Step} (h : NodeAt body rest)
    (path : List Step) (position : Position) (anonymizer : Anonymizer) :
    ∃ visit ∈ (walk path position anonymizer body).1, visit.path = path ++ rest := by
  induction h generalizing path position anonymizer with
  | here body =>
      refine ⟨⟨path, position⟩, ?_, (List.append_nil path).symm⟩
      cases body <;> simp [walk]
  | item hmem _ ih =>
      obtain ⟨anonymizer', hwalk⟩ := exists_walk_item hmem path position anonymizer
      obtain ⟨visit, hvisit, hpath⟩ := ih (path ++ [.item]) _ anonymizer'
      refine ⟨visit, ?_, by rw [hpath, List.append_assoc]; rfl⟩
      rw [walk]
      exact List.mem_cons_of_mem _ (hwalk visit hvisit)
  | @key items key value rest hmem _ ih =>
      let position' := { position with dicts := position.dicts ++ [items] }
      obtain ⟨outKey, anonymizer', hwalk⟩ := exists_walk_key hmem path position' anonymizer
      obtain ⟨visit, hvisit, hpath⟩ := ih (path ++ [.key key]) _ anonymizer'
      refine ⟨visit, ?_, by rw [hpath, List.append_assoc]; rfl⟩
      rw [walk]
      exact List.mem_cons_of_mem _ (hwalk visit hvisit)

/-! ## The two readings of a path -/

/-- A path without a key `[]` is read as it is. -/
theorem map_read (h : .key listItem ∉ path) : path.map Step.read = path := by
  have hread : ∀ step ∈ path, step.read = id step := by
    intro step hstep
    cases step with
    | item => rfl
    | key name =>
        rw [Step.read, if_neg]
        · rfl
        · rintro rfl
          exact h hstep
  rw [List.map_congr_left hread, List.map_id]

/-- With one, no segments match it as it is and as it is read: the segment of
the key would be a list mark, which matches no key. -/
theorem not_matches_read {segments : List String} (h : .key listItem ∈ path)
    (hmatches : Matches segments path) : ¬ Matches segments (path.map Step.read) := by
  intro hread
  induction hmatches with
  | nil => cases h
  | @cons segment step segments path hfits _ ih =>
      obtain ⟨hfitsRead, hread⟩ := List.forall₂_cons.1 hread
      rcases List.mem_cons.1 h with rfl | h
      · cases hfitsRead
        exact absurd (fits_iff.2 hfits) (by decide)
      · exact ih h hread

/-- **What a policy reads alike**: a path that has no key `[]`, or that no
rule matches in either reading; and whose beginnings an opaque path matches
as they are read exactly where one does as they are. -/
structure ReadAlike (policy : EndpointPolicy) (path : List Step) : Prop where
  rules : .key listItem ∈ path → ∀ rule ∈ policy.rules,
    ¬ Matches (parsePath rule.path) path ∧ ¬ Matches (parsePath rule.path) (path.map Step.read)
  opaquePaths : (∃ start, start <+: path ∧
      ∃ text ∈ policy.opaquePaths, Matches (parsePath text) (start.map Step.read)) ↔
    ∃ start, start <+: path ∧ ∃ text ∈ policy.opaquePaths, Matches (parsePath text) start

/-- Two tests that no item passes both find the same where none passes
either. -/
theorem find?_eq_iff {α : Type} {l : List α} {p q : α → Bool}
    (h : ∀ x ∈ l, p x = true → q x = false) :
    l.find? p = l.find? q ↔ ∀ x ∈ l, p x = false ∧ q x = false := by
  constructor
  · intro heq x hx
    -- what one finds passes both
    have hnone : l.find? p = none := by
      cases hfound : l.find? p with
      | none => rfl
      | some y =>
          have hp := List.find?_some hfound
          have hq := List.find?_some (heq ▸ hfound)
          rw [h y (List.mem_of_find?_eq_some hfound) hp] at hq
          cases hq
    have hp := List.find?_eq_none.1 hnone x hx
    have hq := List.find?_eq_none.1 (heq ▸ hnone) x hx
    exact ⟨by simpa using hp, by simpa using hq⟩
  · intro hall
    rw [List.find?_eq_none.2 fun x hx => by simp [(hall x hx).1],
      List.find?_eq_none.2 fun x hx => by simp [(hall x hx).2]]

/-! ## What the walk selects -/

/-- **A position selects what a direct match of whole paths selects**: the
first rule that matches, and opacity from the first match of an opaque path
on. -/
structure Agrees (policy : EndpointPolicy) (visit : Visit) : Prop where
  rule : visit.position.completeRule =
    policy.rules.find? fun rule => Matches (parsePath rule.path) visit.path
  isOpaque : visit.position.isOpaque = true ↔ ∃ start, start <+: visit.path ∧
    ∃ text ∈ policy.opaquePaths, Matches (parsePath text) start

theorem matchAll_eq_decide (segments : List String) (path : List Step) :
    Path.matchAll fits segments path = decide (Matches segments path) := by
  rw [Bool.eq_iff_iff, decide_eq_true_iff, Path.matchAll_iff, Matches]
  simp only [fits_iff]

/-- **A position selects what a direct match does where the policy reads the
path alike.** -/
theorem At.agrees_iff {visit : Visit} (h : At policy visit.path visit.position) :
    Agrees policy visit ↔ ReadAlike policy visit.path := by
  have hopaque : (visit.position.isOpaque = true ↔ ∃ start, start <+: visit.path ∧
        ∃ text ∈ policy.opaquePaths, Matches (parsePath text) start) ↔
      ((∃ start, start <+: visit.path ∧
        ∃ text ∈ policy.opaquePaths, Matches (parsePath text) (start.map Step.read)) ↔
      ∃ start, start <+: visit.path ∧
        ∃ text ∈ policy.opaquePaths, Matches (parsePath text) start) := by
    rw [h.isOpaque]
    simp only [matchAll_eq_decide, decide_eq_true_eq]
  have hrule : (visit.position.completeRule =
        policy.rules.find? fun rule => Matches (parsePath rule.path) visit.path) ↔
      (.key listItem ∈ visit.path → ∀ rule ∈ policy.rules,
        ¬ Matches (parsePath rule.path) visit.path ∧
          ¬ Matches (parsePath rule.path) (visit.path.map Step.read)) := by
    rw [h.completeRule]
    simp only [matchAll_eq_decide]
    by_cases hkey : .key listItem ∈ visit.path
    · rw [eq_comm, find?_eq_iff fun rule _ hmatches =>
        decide_eq_false (not_matches_read hkey (of_decide_eq_true hmatches))]
      simp only [decide_eq_false_iff_not, hkey, true_implies]
    · simp only [map_read hkey, hkey, false_implies]
  exact ⟨fun hagrees => ⟨hrule.1 hagrees.rule, hopaque.1 hagrees.isOpaque⟩,
    fun halike => ⟨hrule.2 halike.rules, hopaque.2 halike.opaquePaths⟩⟩

/-- The nodes of a body are those the walk visits, each at its position. -/
theorem at_visits (hpolicy : policy.NonEmpty) (anonymizer : Anonymizer) (body : JsonValue) :
    (∀ visit ∈ visits anonymizer policy body,
      At policy visit.path visit.position ∧ NodeAt body visit.path) ∧
    ∀ path, NodeAt body path → ∃ visit ∈ visits anonymizer policy body, visit.path = path := by
  refine ⟨fun visit hvisit => ?_, fun path hnode => ?_⟩
  · obtain ⟨hat, rest, hpath, hnode⟩ :=
      at_walk (at_root hpolicy.opaquePaths) anonymizer body visit hvisit
    rw [List.nil_append] at hpath
    exact ⟨hat, hpath ▸ hnode⟩
  · exact exists_visit hnode [] _ anonymizer

/-- **The walk visits a node and selects there what a direct match selects,
exactly where the policy reads the node's path alike.** -/
theorem walk_agrees_iff (hpolicy : policy.NonEmpty) (anonymizer : Anonymizer) {body : JsonValue}
    (hnode : NodeAt body path) :
    ((∃ visit ∈ visits anonymizer policy body, visit.path = path) ∧
      ∀ visit ∈ visits anonymizer policy body, visit.path = path → Agrees policy visit) ↔
    ReadAlike policy path := by
  obtain ⟨hat, hall⟩ := at_visits hpolicy anonymizer body
  obtain ⟨visit, hvisit, hpath⟩ := hall path hnode
  refine ⟨fun ⟨_, hagrees⟩ => ?_, fun halike => ⟨⟨visit, hvisit, hpath⟩, ?_⟩⟩
  · exact hpath ▸ (hat visit hvisit).1.agrees_iff.1 (hagrees visit hvisit hpath)
  · rintro visit' hvisit' rfl
    exact (hat visit' hvisit').1.agrees_iff.2 halike

/-- A rule of the items of a list. -/
def availableRule : Rule := ⟨"[].available", .keep, some ⟨[.bool], none⟩, none⟩

/-- A key `[]` above no rule's end is read alike, and the walk selects nothing
there. -/
theorem walk_agrees_listMark :
    (∃ visit ∈ visits ⟨"/protocols", ∅, []⟩ ⟨[availableRule], []⟩ (.dict [("[]", .int 1)]),
      visit.path = [.key "[]"]) ∧
    ∀ visit ∈ visits ⟨"/protocols", ∅, []⟩ ⟨[availableRule], []⟩ (.dict [("[]", .int 1)]),
      visit.path = [.key "[]"] → Agrees ⟨[availableRule], []⟩ visit := by
  have hnode : NodeAt (.dict [("[]", .int 1)]) [.key "[]"] :=
    .key (List.mem_singleton_self _) (.here _)
  have hpolicy : (⟨[availableRule], []⟩ : EndpointPolicy).NonEmpty := by
    refine ⟨fun rule hrule => ?_, by simp⟩
    rw [List.mem_singleton.1 hrule]
    decide
  have halike : ReadAlike ⟨[availableRule], []⟩ [.key "[]"] := by
    refine ⟨fun _ rule hrule => ?_, by simp⟩
    rw [List.mem_singleton.1 hrule]
    decide
  exact (walk_agrees_iff hpolicy _ hnode).2 halike

/-- **A key `[]` is taken for a list item**: the rule of a list's items
keeps a value of an object, where no rule matches. -/
theorem listMark_key_selected :
    ∃ visit ∈ visits ⟨"/protocols", ∅, []⟩ ⟨[availableRule], []⟩
        (.dict [("[]", .dict [("available", .bool true)])]),
      visit.path = [.key "[]", .key "available"] ∧
        visit.position.completeRule = some availableRule ∧
        ¬ Agrees ⟨[availableRule], []⟩ visit := by
  refine ⟨_, List.mem_cons_of_mem _ (List.mem_cons_of_mem _ List.mem_cons_self), rfl, rfl, ?_⟩
  intro h
  have hrule := h.rule
  revert hrule
  decide +kernel

end Capture

end Tydomio
