import Tydomio.Common.Search
import Tydomio.Model.Readings

/-!
# What a model reads from data

Of data with a name twice the last item counts, so a model is read from the
items by name (`byName`): each known one through its field, the others as
they are.
-/

namespace Tydomio

open Common

/-- **Data by name**: the last item of a name, in the place of the first. -/
def byName (data : List Data) : Dict String Data :=
  .ofList (data.map fun item => (item.name, item))

theorem get?_byName (data : List Data) (name : String) :
    (byName data).get? name = (data.filter fun item => item.name = name).getLast? := by
  rw [byName, Dict.get?_ofList_eq_getLast?, Dict.itemsOf_map, List.map_id']

/-- An item stands under its name. -/
theorem name_of_get?_byName {data : List Data} {name : String} {item : Data}
    (h : (byName data).get? name = some item) : item.name = name ∧ item ∈ data := by
  rw [get?_byName] at h
  obtain ⟨hmem, hname⟩ := List.mem_filter.1 (List.mem_of_getLast? h)
  exact ⟨of_decide_eq_true hname, hmem⟩

section Model

variable {lax : Lax} {model : UsageModel} {data : List Data}

/-- What is known is what has the name of a field. -/
theorem knownOf_eq :
    knownOf model data = (byName data).filter fun name _ => name ∈ model.aliases := by
  rw [byName, ← Dict.ofList_filter fun name => decide (name ∈ model.aliases), List.filter_map,
    knownOf]
  rfl

/-- The others are unknown. -/
theorem unknownOf_eq :
    unknownOf model data = (byName data).filter fun name _ => name ∉ model.aliases := by
  rw [byName, ← Dict.ofList_filter fun name => decide (name ∉ model.aliases), List.filter_map,
    unknownOf]
  rfl

/-- An unknown field is the last item of its name. -/
theorem get?_unknownOf (name : String) : (unknownOf model data).get? name =
    if name ∉ model.aliases then (byName data).get? name else none := by
  rw [unknownOf_eq, Dict.get?_filter_key fun name => decide (name ∉ model.aliases)]
  simp only [decide_eq_true_eq]

/-- A known one too. -/
theorem get?_knownOf_field {field : ReadField} (hfield : field ∈ model.fields) :
    (knownOf model data).get? field.aliasName = (byName data).get? field.aliasName := by
  have hmem : field.aliasName ∈ model.aliases := List.mem_map_of_mem hfield
  rw [knownOf_eq, Dict.get?_filter_key fun name => decide (name ∈ model.aliases),
    if_pos (decide_eq_true hmem)]

variable (lax model data) in
/-- **Data that fits a model**: each field takes its last item. -/
def Fits : Prop :=
  ∀ field ∈ model.fields, ∀ item, (byName data).get? field.aliasName = some item →
    field.kind.read lax item.value ≠ none

theorem accepts_iff {field : ReadField} (hfield : field ∈ model.fields) :
    field.accepts lax (knownOf model data) = true ↔
      ∀ item, (byName data).get? field.aliasName = some item →
        field.kind.read lax item.value ≠ none := by
  rw [ReadField.accepts, get?_knownOf_field hfield]
  cases (byName data).get? field.aliasName with
  | none => exact iff_of_true rfl nofun
  | some item => simp [Option.isSome_iff_ne_none]

theorem invalid_eq_nil_iff :
    (model.fields.filter fun field => !field.accepts lax (knownOf model data)).map
      ReadField.aliasName = [] ↔ Fits lax model data := by
  rw [List.map_eq_nil_iff, List.filter_eq_nil_iff]
  refine forall₂_congr fun field hfield => ?_
  rw [Bool.not_eq_true', Bool.not_eq_false, accepts_iff hfield]

/-- **A model is read from data that fits it**, and from no other. -/
theorem fromData_of_fits (h : Fits lax model data) : fromData lax model data =
    .ok ⟨model, model.fields.filterMap (ReadField.reading lax (knownOf model data)),
      unknownOf model data⟩ :=
  if_pos (invalid_eq_nil_iff.2 h)

theorem fromData_of_not_fits (h : ¬ Fits lax model data) :
    ∃ message, fromData lax model data = .error (.invalidResponse message) :=
  ⟨_, if_neg (mt invalid_eq_nil_iff.1 h)⟩

end Model

/-! ## Two readings -/

/-- A field refuses an item. -/
def ReadField.Refuses (lax : Lax) (field : ReadField) (item : Option Data) : Prop :=
  ∃ x, item = some x ∧ field.kind.read lax x.value = none

/-- What a field reads of an item. -/
def ReadField.reads (lax : Lax) (field : ReadField) (item : Option Data) : Option Reading :=
  item.bind fun item => (field.kind.read lax item.value).map fun value => ⟨value, item.validity⟩

/-- **Items by name that read alike**: the same are refused, and where none
is, the fields read the same and the other items are the same. -/
structure ReadAlike (lax : Lax) (model : UsageModel) (items items' : String → Option Data) :
    Prop where
  refused : ∀ field ∈ model.fields,
    field.Refuses lax (items field.aliasName) ↔ field.Refuses lax (items' field.aliasName)
  typed : (∀ field ∈ model.fields, ¬ field.Refuses lax (items field.aliasName)) →
    ∀ field ∈ model.fields,
      field.reads lax (items field.aliasName) = field.reads lax (items' field.aliasName)
  unknown : (∀ field ∈ model.fields, ¬ field.Refuses lax (items field.aliasName)) →
    ∀ name ∉ model.aliases, items name = items' name

/-- **Equal models**: the order of unknown fields does not count. -/
structure Typed.Same (typed typed' : Typed) : Prop where
  model : typed.model = typed'.model
  readings : typed.readings = typed'.readings
  unknown : ∀ name, typed.unknown.get? name = typed'.unknown.get? name

/-- Equal models, or the same exception. -/
def SameResult : Except Exc Typed → Except Exc Typed → Prop
  | .ok typed, .ok typed' => typed.Same typed'
  | .error e, .error e' => e = e'
  | _, _ => False

section Compare

variable {lax : Lax} {model : UsageModel} {data data' : List Data}

theorem fits_iff_forall_not_refuses : Fits lax model data ↔
    ∀ field ∈ model.fields, ¬ field.Refuses lax ((byName data).get? field.aliasName) := by
  refine forall₂_congr fun field _ => ?_
  rw [ReadField.Refuses, not_exists]
  exact forall_congr' fun item => by rw [not_and]

theorem accepts_eq_false_iff {field : ReadField} (hfield : field ∈ model.fields) :
    (!field.accepts lax (knownOf model data)) = true ↔
      field.Refuses lax ((byName data).get? field.aliasName) := by
  rw [Bool.not_eq_true', ← Bool.not_eq_true, accepts_iff hfield, ReadField.Refuses]
  push Not
  rfl

theorem reading_eq {field : ReadField} (hfield : field ∈ model.fields) :
    field.reading lax (knownOf model data) =
      (field.reads lax ((byName data).get? field.aliasName)).map (field.aliasName, ·) := by
  rw [ReadField.reading, get?_knownOf_field hfield, ReadField.reads, Option.map_bind]
  refine congrArg (Option.bind _) (funext fun item => ?_)
  rw [Function.comp_apply, Option.map_map]
  rfl

/-- Fields that read the same are the same readings. -/
theorem readings_eq_iff :
    model.fields.filterMap (ReadField.reading lax (knownOf model data)) =
      model.fields.filterMap (ReadField.reading lax (knownOf model data')) ↔
    ∀ field ∈ model.fields, field.reads lax ((byName data).get? field.aliasName) =
      field.reads lax ((byName data').get? field.aliasName) := by
  have hmem : ∀ data, ∀ field ∈ model.fields, ∀ reading,
      (field.aliasName, reading) ∈
          model.fields.filterMap (ReadField.reading lax (knownOf model data)) ↔
        field.reads lax ((byName data).get? field.aliasName) = some reading := by
    intro data field hfield reading
    rw [List.mem_filterMap]
    constructor
    · rintro ⟨other, hother, hreading⟩
      rw [reading_eq hother] at hreading
      obtain ⟨_, hreads, heq⟩ := Option.map_eq_some_iff.1 hreading
      obtain ⟨hname, rfl⟩ := Prod.mk.inj heq
      have hsame := List.inj_on_of_nodup_map model.nodup_aliases hother hfield hname
      rwa [hsame] at hreads
    · intro hreads
      exact ⟨field, hfield, by rw [reading_eq hfield, hreads]; rfl⟩
  constructor
  · intro h field hfield
    ext reading
    rw [← hmem data field hfield, h, hmem data' field hfield]
  · intro h
    refine List.filterMap_congr fun field hfield => ?_
    rw [reading_eq hfield, reading_eq hfield, h field hfield]

/-! ### The message -/

/-- No name of a field holds a comma. -/
theorem comma_not_mem_alias (model : UsageModel) :
    ∀ name ∈ model.aliases, ',' ∉ name.toList := by
  cases model <;> decide +kernel

/-- The names of a message are read back from it. -/
theorem intercalate_aliases_inj {names names' : List String} (hne : names ≠ []) (hne' : names' ≠ [])
    (hnames : ∀ name ∈ names, name ∈ model.aliases)
    (hnames' : ∀ name ∈ names', name ∈ model.aliases)
    (h : ", ".intercalate names = ", ".intercalate names') : names = names' := by
  have hsplit : ∀ {names : List String}, names ≠ [] → (∀ name ∈ names, name ∈ model.aliases) →
      Text.split [',', ' '] (", ".intercalate names).toList = names.map String.toList := by
    intro names hne hnames
    rw [String.toList_intercalate]
    refine Text.split_intercalate (mt List.map_eq_nil_iff.1 hne) fun line hline => ?_
    obtain ⟨name, hname, rfl⟩ := List.mem_map.1 hline
    exact comma_not_mem_alias model name (hnames name hname)
  have hlists := (hsplit hne hnames).symm.trans ((congrArg _ (congrArg _ h)).trans
    (hsplit hne' hnames'))
  exact List.map_injective_iff.2 (fun _ _ => String.toList_inj.1) hlists

variable (lax model) in
/-- The names a message lists. -/
def invalidNames (data : List Data) : List String :=
  (model.fields.filter fun field => !field.accepts lax (knownOf model data)).map
    ReadField.aliasName

theorem mem_invalidNames {field : ReadField} (hfield : field ∈ model.fields) :
    field.aliasName ∈ invalidNames lax model data ↔
      field.Refuses lax ((byName data).get? field.aliasName) := by
  rw [invalidNames, List.mem_map, ← accepts_eq_false_iff hfield]
  constructor
  · rintro ⟨other, hother, hname⟩
    obtain ⟨hother, hrefuses⟩ := List.mem_filter.1 hother
    rwa [List.inj_on_of_nodup_map model.nodup_aliases hother hfield hname] at hrefuses
  · exact fun h => ⟨field, List.mem_filter.2 ⟨hfield, h⟩, rfl⟩

theorem fromData_of_refused (h : ¬ Fits lax model data) : fromData lax model data =
    .error (.invalidResponse (model.className ++ ": invalid fields " ++
      ", ".intercalate ((invalidNames lax model data).dedup.mergeSort
        fun a b => decide (a ≤ b)))) :=
  if_neg (mt invalid_eq_nil_iff.1 h)

/-- **Two messages are one** where the same fields are refused. -/
theorem fromData_eq_iff (h : ¬ Fits lax model data) (h' : ¬ Fits lax model data') :
    fromData lax model data = fromData lax model data' ↔
      ∀ field ∈ model.fields, field.Refuses lax ((byName data).get? field.aliasName) ↔
        field.Refuses lax ((byName data').get? field.aliasName) := by
  have hne : ∀ {data : List Data}, ¬ Fits lax model data →
      (invalidNames lax model data).dedup.mergeSort (fun a b => decide (a ≤ b)) ≠ [] := by
    intro data hrefused hnil
    rw [← List.length_eq_zero_iff, List.length_mergeSort, List.length_eq_zero_iff,
      List.dedup_eq_nil] at hnil
    exact hrefused (invalid_eq_nil_iff.1 hnil)
  have hmem : ∀ {data : List Data} {name : String},
      name ∈ (invalidNames lax model data).dedup.mergeSort (fun a b => decide (a ≤ b)) ↔
        name ∈ invalidNames lax model data := by
    intro data name
    rw [List.mem_mergeSort, List.mem_dedup]
  have hnames : ∀ {data : List Data} {name : String},
      name ∈ invalidNames lax model data → name ∈ model.aliases := by
    intro data name hname
    exact (List.filter_sublist.map _).subset hname
  rw [fromData_of_refused h, fromData_of_refused h']
  constructor
  · intro heq field hfield
    have htext := (String.append_right_inj _).1 (Exc.invalidResponse.inj (Except.error.inj heq))
    have hlists := intercalate_aliases_inj (hne h) (hne h') (fun _ hname => hnames (hmem.1 hname))
      (fun _ hname => hnames (hmem.1 hname)) htext
    rw [← mem_invalidNames hfield, ← mem_invalidNames hfield, ← hmem, hlists, hmem]
  · intro hrefused
    have hlists : invalidNames lax model data = invalidNames lax model data' := by
      refine congrArg (List.map _) (List.filter_congr fun field hfield => Bool.eq_iff_iff.2 ?_)
      rw [accepts_eq_false_iff hfield, accepts_eq_false_iff hfield, hrefused field hfield]
    rw [hlists]

/-- **Two models from data are one** where the items read alike. -/
theorem sameResult_fromData_iff :
    SameResult (fromData lax model data) (fromData lax model data') ↔
      ReadAlike lax model (byName data).get? (byName data').get? := by
  by_cases h : Fits lax model data
  · have hnone := fits_iff_forall_not_refuses.1 h
    rw [fromData_of_fits h]
    by_cases h' : Fits lax model data'
    · have hnone' := fits_iff_forall_not_refuses.1 h'
      rw [fromData_of_fits h']
      constructor
      · rintro ⟨-, hreadings, hunknown⟩
        refine ⟨fun field hfield => iff_of_false (hnone field hfield) (hnone' field hfield),
          fun _ => readings_eq_iff.1 hreadings, fun _ name hname => ?_⟩
        have hget := hunknown name
        rwa [get?_unknownOf, get?_unknownOf, if_pos hname, if_pos hname] at hget
      · intro halike
        refine ⟨rfl, readings_eq_iff.2 (halike.typed hnone), fun name => ?_⟩
        rw [get?_unknownOf, get?_unknownOf]
        split
        · rename_i hname
          exact halike.unknown hnone name hname
        · rfl
    · obtain ⟨message, herror⟩ := fromData_of_not_fits h'
      rw [herror]
      refine iff_of_false id fun halike => h' (fits_iff_forall_not_refuses.2 ?_)
      exact fun field hfield hrefuses =>
        hnone field hfield ((halike.refused field hfield).2 hrefuses)
  · by_cases h' : Fits lax model data'
    · obtain ⟨message, herror⟩ := fromData_of_not_fits h
      rw [herror, fromData_of_fits h']
      refine iff_of_false id fun halike => h (fits_iff_forall_not_refuses.2 ?_)
      exact fun field hfield hrefuses =>
        fits_iff_forall_not_refuses.1 h' field hfield ((halike.refused field hfield).1 hrefuses)
    · have hsame : SameResult (fromData lax model data) (fromData lax model data') ↔
          fromData lax model data = fromData lax model data' := by
        rw [fromData_of_refused h, fromData_of_refused h', Except.error.injEq]
        rfl
      have hrefused : ¬ ∀ field ∈ model.fields,
          ¬ field.Refuses lax ((byName data).get? field.aliasName) :=
        mt fits_iff_forall_not_refuses.2 h
      rw [hsame, fromData_eq_iff h h']
      exact ⟨fun halike => ⟨halike, fun hnone => absurd hnone hrefused,
        fun hnone => absurd hnone hrefused⟩, ReadAlike.refused⟩

end Compare

end Tydomio
