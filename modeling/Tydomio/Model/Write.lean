import Tydomio.Model.Usages

/-!
# What a validated write holds

A write that validates has the values given for its fields and no other,
and validating its own values again gives the same body.
-/

namespace Tydomio

open Common

variable {model : WriteModel} {byName : Bool} {given : Dict String JsonValue}
variable {write : UsageWrite}

/-- A value that reads is not null. -/
theorem FieldKind.read_null (kind : FieldKind) : kind.read .null = none := by
  cases kind <;> rfl

theorem FieldKind.convert_of_read {kind : FieldKind} {json : JsonValue} {v : WriteValue}
    (h : kind.read json = some v) : kind.convert json = some v := by
  rw [read, Option.filter_eq_some_iff] at h
  exact h.1

/-- What a body holds, each value under the Tydom name of its field. -/
theorem mem_bodyOf {fields : List WriteField} {values : WriteField → Option WriteValue}
    {name : String} {v : WriteValue} :
    (name, v) ∈ bodyOf fields values ↔
      ∃ field ∈ fields, values field = some v ∧ field.aliasName = name := by
  simp [bodyOf, List.mem_filterMap]

/-- The names of a body are those of fields of the model, in their order. -/
theorem map_fst_bodyOf_sublist (fields : List WriteField)
    (values : WriteField → Option WriteValue) :
    ((bodyOf fields values).map Prod.fst).Sublist (fields.map WriteField.aliasName) := by
  induction fields with
  | nil => exact List.Sublist.refl _
  | cons field fields ih =>
      cases hvalue : values field with
      | none =>
          rw [bodyOf, List.filterMap_cons_none (by rw [hvalue]; rfl), List.map_cons]
          exact ih.cons _
      | some v =>
          rw [bodyOf, List.filterMap_cons_some (by rw [hvalue]; rfl), List.map_cons,
            List.map_cons]
          exact ih.cons_cons _

/-- No two fields of a model have the same Tydom name. -/
theorem nodup_aliasName (model : WriteModel) :
    (model.fields.map WriteField.aliasName).Nodup := by
  cases model <;> decide

/-- **What a validation that succeeds says**: every key given is one of a
field, and each field accepts what is given for it. -/
theorem modelValidate_eq_ok (h : modelValidate model byName given = .ok write) :
    write.model = model ∧ write.values = readValues byName given ∧
      errorKeys model byName given = [] := by
  unfold modelValidate at h
  dsimp only at h
  split at h
  · cases h
  · rename_i herrors
    split at h
    · cases h
      exact ⟨rfl, rfl, Decidable.not_not.1 herrors⟩
    · cases h

/-- No key is refused where each field accepts its value and each key is a
field's. -/
theorem errorKeys_eq_nil_iff :
    errorKeys model byName given = [] ↔
      (∀ field ∈ model.fields, field.accepts byName given = true) ∧
      ∀ key ∈ given.keys, key ∈ model.fields.flatMap (WriteField.keys byName) := by
  simp [errorKeys, List.filter_eq_nil_iff]

/-- **The body of a write holds exactly the values given**: by Tydom name,
each inside the bounds of its field, and none that is null. -/
structure BodyOf (model : WriteModel) (given : Dict String JsonValue) (body : WriteBody) :
    Prop where
  nonempty : body ≠ []
  names_nodup : (body.map Prod.fst).Nodup
  /-- A value written is one given, for a field of the model. -/
  written : ∀ name v, (name, v) ∈ body → ∃ field ∈ model.fields, field.aliasName = name ∧
    field.kind.Valid v ∧
    ∃ json, given.get? name = some json ∧ json ≠ .null ∧ field.kind.convert json = some v
  /-- A value given is written, unless it is null. -/
  given : ∀ name json, given.get? name = some json → json ≠ .null → ∃ v, (name, v) ∈ body

theorem lookup_byAlias (field : WriteField) :
    field.lookup false given = given.get? field.aliasName := by
  simp [WriteField.lookup, WriteField.keys]

/-- **A validated write holds what was given**, and nothing else. -/
theorem bodyOf_of_modelValidate (h : modelValidate model false given = .ok write) :
    BodyOf model given write.body := by
  obtain ⟨rfl, hvalues, herrors⟩ := modelValidate_eq_ok h
  obtain ⟨haccepts, hkeys⟩ := errorKeys_eq_nil_iff.1 herrors
  refine ⟨write.nonempty, ?_, fun name v hmem => ?_, fun name json hget hnull => ?_⟩
  · exact (map_fst_bodyOf_sublist _ _).nodup (nodup_aliasName _)
  · obtain ⟨field, hfield, hvalue, hname⟩ := mem_bodyOf.1 hmem
    refine ⟨field, hfield, hname, write.valid field v hvalue, ?_⟩
    rw [hvalues, readValues, lookup_byAlias, hname] at hvalue
    obtain ⟨json, hget, hread⟩ := Option.bind_eq_some_iff.1 hvalue
    refine ⟨json, hget, ?_, FieldKind.convert_of_read hread⟩
    -- a field given as null holds no value
    rintro rfl
    rw [FieldKind.read_null] at hread
    cases hread
  · -- the key is that of a field, which accepts the value
    have hkey : name ∈ given.keys := Dict.mem_iff.2 ⟨json, hget⟩
    obtain ⟨field, hfield, hname⟩ := List.mem_flatMap.1 (hkeys name hkey)
    have halias : field.aliasName = name := (List.mem_singleton.1 hname).symm
    have haccept := haccepts field hfield
    rw [WriteField.accepts, lookup_byAlias, halias, hget] at haccept
    have hsome : (field.kind.read json).isSome = true := by
      cases json <;> first | exact absurd rfl hnull | exact haccept
    obtain ⟨v, hread⟩ := Option.isSome_iff_exists.1 hsome
    refine ⟨v, mem_bodyOf.2 ⟨field, hfield, ?_, halias⟩⟩
    rw [hvalues, readValues, lookup_byAlias, halias, hget, Option.bind_some, hread]

/-! ## Validating again -/

/-- The value of a field in `dict(write)`. -/
def jsonOf (v : Option WriteValue) : JsonValue := (v.map WriteValue.toJson).getD .null

/-- No alias of a field is the name of another, so each field finds its own
value. -/
theorem lookup_toDict (write : UsageWrite) :
    ∀ field ∈ write.model.fields,
      field.lookup true write.toDict = some (jsonOf (write.values field)) := by
  obtain ⟨model, values, hvalid, hnonempty⟩ := write
  intro field hfield
  cases model with
  | areaWrite | boilerWrite =>
      simp only [WriteModel.fields, WriteModel.thermicFields, List.mem_cons, List.not_mem_nil,
        or_false] at hfield
      rcases hfield with rfl | rfl | rfl | rfl | rfl | rfl | rfl | rfl | rfl <;> rfl
  | re2020ControlBoilerWrite =>
      simp only [WriteModel.fields, List.mem_cons, List.not_mem_nil, or_false] at hfield
      subst hfield
      rfl
  | shutterWrite =>
      simp only [WriteModel.fields, List.mem_cons, List.not_mem_nil, or_false] at hfield
      rcases hfield with rfl | rfl <;> rfl

theorem keys_toDict (write : UsageWrite) {key : String} (h : key ∈ write.toDict.keys) :
    ∃ field ∈ write.model.fields, field.name = key := by
  have hmem : key ∈ write.toDict := h
  rw [UsageWrite.toDict, Dict.mem_ofList, List.map_map] at hmem
  obtain ⟨field, hfield, hname⟩ := List.mem_map.1 hmem
  exact ⟨field, hfield, hname⟩

theorem read_jsonOf {kind : FieldKind} {v : Option WriteValue}
    (h : ∀ value, v = some value → kind.Valid value) : kind.read (jsonOf v) = v := by
  cases v with
  | none => exact kind.read_null
  | some value => exact FieldKind.read_toJson (h value rfl)

/-- Its own values are accepted again. -/
theorem errorKeys_toDict (write : UsageWrite) :
    errorKeys write.model true write.toDict = [] := by
  refine errorKeys_eq_nil_iff.2 ⟨fun field hfield => ?_, fun key hkey => ?_⟩
  · have hread := read_jsonOf (write.valid field)
    rw [WriteField.accepts, lookup_toDict write field hfield]
    cases hvalue : write.values field with
    | none => rfl
    | some value =>
        rw [hvalue] at hread
        have hsome : (field.kind.read (jsonOf (some value))).isSome = true := by rw [hread]; rfl
        cases value <;> exact hsome
  · obtain ⟨field, hfield, hname⟩ := keys_toDict write hkey
    exact List.mem_flatMap.2 ⟨field, hfield, by simp [WriteField.keys, hname]⟩

/-- **A write validates again, to the same body.** -/
theorem modelValidate_toDict (write : UsageWrite) :
    ∃ revalidated, modelValidate write.model true write.toDict = .ok revalidated ∧
      revalidated.body = write.body := by
  have hbody : bodyOf write.model.fields (readValues true write.toDict) = write.body := by
    refine List.filterMap_congr fun field hfield => ?_
    rw [readValues, lookup_toDict write field hfield, Option.bind_some,
      read_jsonOf (write.valid field)]
  unfold modelValidate
  dsimp only
  rw [if_neg (not_not.2 (errorKeys_toDict write)), dif_pos (hbody ▸ write.nonempty)]
  exact ⟨_, rfl, hbody⟩

end Tydomio
