import Tydomio.Capture.Model.Catalog

/-!
# Merging catalogs is taking their union

The catalog is a fold that keeps what it knows and appends conflicts as it
goes. `IsUnion` says what it is with no order at all: the usages of the
entries, and in each the fields and commands by name, the attributes all
descriptions agree on, the enum values of all of them. A merge reports no
conflict exactly when the descriptions agree, and then gives the union
(`merge_spec`); order and repetition drop out, since the union depends on
what is described only (`IsUnion.congr`).
-/

namespace Tydomio

open Common

namespace Capture

/-! ## Comparing numbers and descriptors -/

/-- A number that is equal to itself. -/
def Number.Ordinary (n : Number) : Prop := n.value ≠ .nan

theorem Number.eq_iff {a b : Number} : a.eq b = true ↔ a.value ≠ .nan ∧ a.value = b.value := by
  rw [Number.eq, Bool.and_eq_true, decide_eq_true_eq, decide_eq_true_eq]

theorem optionEq_symm {a b : Option Number} (h : optionEq a b = true) : optionEq b a = true := by
  cases a with
  | none => cases b <;> first | rfl | cases h
  | some a =>
      cases b with
      | none => cases h
      | some b =>
          obtain ⟨hnan, heq⟩ := Number.eq_iff.1 h
          exact Number.eq_iff.2 ⟨heq ▸ hnan, heq.symm⟩

theorem optionEq_trans {a b c : Option Number} (h : optionEq a b = true)
    (h' : optionEq b c = true) : optionEq a c = true := by
  cases a with
  | none => cases b <;> first | exact h' | cases h
  | some a =>
      cases b with
      | none => cases h
      | some b =>
          cases c with
          | none => cases h'
          | some c =>
              obtain ⟨hnan, heq⟩ := Number.eq_iff.1 h
              exact Number.eq_iff.2 ⟨hnan, heq.trans (Number.eq_iff.1 h').2⟩

theorem optionEq_refl {a : Option Number} (h : ∀ n ∈ a, n.Ordinary) : optionEq a a = true := by
  cases a with
  | none => rfl
  | some n => exact Number.eq_iff.2 ⟨h n rfl, rfl⟩

/-- **The attributes two descriptors agree on**, numbers by value. -/
theorem Descriptor.agrees_iff {f g : Descriptor} : f.agrees g = true ↔
    f.name = g.name ∧ f.type = g.type ∧ f.permission = g.permission ∧
    f.validity = g.validity ∧ f.unit = g.unit ∧ optionEq f.min g.min = true ∧
    optionEq f.max g.max = true ∧ optionEq f.step g.step = true ∧ f.size = g.size := by
  simp [Descriptor.agrees, Descriptor.attributes, AttributeValue.eq]

/-- A descriptor none of whose numbers is a NaN. -/
structure Descriptor.Ordinary (f : Descriptor) : Prop where
  min : ∀ n ∈ f.min, n.Ordinary
  max : ∀ n ∈ f.max, n.Ordinary
  step : ∀ n ∈ f.step, n.Ordinary

namespace Descriptor

variable {f g h : Descriptor}

theorem agrees_refl (hf : f.Ordinary) : f.agrees f = true :=
  agrees_iff.2 ⟨rfl, rfl, rfl, rfl, rfl, optionEq_refl hf.min, optionEq_refl hf.max,
    optionEq_refl hf.step, rfl⟩

theorem agrees_symm (hfg : f.agrees g = true) : g.agrees f = true := by
  obtain ⟨h1, h2, h3, h4, h5, h6, h7, h8, h9⟩ := agrees_iff.1 hfg
  exact agrees_iff.2 ⟨h1.symm, h2.symm, h3.symm, h4.symm, h5.symm, optionEq_symm h6,
    optionEq_symm h7, optionEq_symm h8, h9.symm⟩

theorem agrees_trans (hfg : f.agrees g = true) (hgh : g.agrees h = true) :
    f.agrees h = true := by
  obtain ⟨h1, h2, h3, h4, h5, h6, h7, h8, h9⟩ := agrees_iff.1 hfg
  obtain ⟨k1, k2, k3, k4, k5, k6, k7, k8, k9⟩ := agrees_iff.1 hgh
  exact agrees_iff.2 ⟨h1.trans k1, h2.trans k2, h3.trans k3, h4.trans k4, h5.trans k5,
    optionEq_trans h6 k6, optionEq_trans h7 k7, optionEq_trans h8 k8, h9.trans k9⟩

theorem eq_iff : f.eq g = true ↔ f.agrees g = true ∧ f.enumValues = g.enumValues := by
  rw [Descriptor.eq, Bool.and_eq_true, decide_eq_true_eq]

end Descriptor

theorem parametersEq_iff {fs gs : List Descriptor} :
    parametersEq fs gs = true ↔ List.Forall₂ (fun f g => f.eq g = true) fs gs := by
  induction fs generalizing gs with
  | nil => cases gs <;> simp [parametersEq]
  | cons f fs ih => cases gs <;> simp [parametersEq, ih]

namespace Command

variable {c d e : Command}

theorem eq_iff : c.eq d = true ↔ c.name = d.name ∧ c.permission = d.permission ∧
    List.Forall₂ (fun f g => f.eq g = true) c.parameters d.parameters := by
  rw [Command.eq, Bool.and_eq_true, Bool.and_eq_true, decide_eq_true_eq, decide_eq_true_eq,
    parametersEq_iff, and_assoc]

/-- A command none of whose parameters has a NaN. -/
def Ordinary (c : Command) : Prop := ∀ f ∈ c.parameters, f.Ordinary

theorem eq_refl (hc : c.Ordinary) : c.eq c = true := by
  refine eq_iff.2 ⟨rfl, rfl, List.forall₂_same.2 fun f hf => ?_⟩
  exact Descriptor.eq_iff.2 ⟨Descriptor.agrees_refl (hc f hf), rfl⟩

theorem eq_symm (hcd : c.eq d = true) : d.eq c = true := by
  obtain ⟨hname, hpermission, hparameters⟩ := eq_iff.1 hcd
  refine eq_iff.2 ⟨hname.symm, hpermission.symm, hparameters.flip.imp fun f g hfg => ?_⟩
  obtain ⟨hagrees, henum⟩ := Descriptor.eq_iff.1 hfg
  exact Descriptor.eq_iff.2 ⟨Descriptor.agrees_symm hagrees, henum.symm⟩

theorem eq_trans (hcd : c.eq d = true) (hde : d.eq e = true) : c.eq e = true := by
  obtain ⟨hname, hpermission, hparameters⟩ := eq_iff.1 hcd
  obtain ⟨hname', hpermission', hparameters'⟩ := eq_iff.1 hde
  refine eq_iff.2 ⟨hname.trans hname', hpermission.trans hpermission', ?_⟩
  have htrans : ∀ {fs gs hs : List Descriptor},
      List.Forall₂ (fun f g => f.eq g = true) fs gs →
      List.Forall₂ (fun f g => f.eq g = true) gs hs →
      List.Forall₂ (fun f g => f.eq g = true) fs hs := by
    intro fs gs hs hfg
    induction hfg generalizing hs with
    | nil => exact id
    | cons hab _ ih =>
        intro hgh
        cases hgh with
        | cons hbc hrest =>
            obtain ⟨hagrees, henum⟩ := Descriptor.eq_iff.1 hab
            obtain ⟨hagrees', henum'⟩ := Descriptor.eq_iff.1 hbc
            exact .cons (Descriptor.eq_iff.2
              ⟨Descriptor.agrees_trans hagrees hagrees', henum.trans henum'⟩) (ih hrest)
  exact htrans hparameters hparameters'

end Command

/-! ## The union of descriptions -/

/-- The enum values given in several descriptions: none where all have
none. -/
def unionEnum (fields : List Descriptor) : Option (List String) :=
  if ∀ f ∈ fields, f.enumValues = none then none
  else some (sortedSet (fields.flatMap fun f => f.enumValues.getD []))

/-- **A field as the union of its descriptions.** -/
structure FieldUnion (field : Descriptor) (fields : List Descriptor) : Prop where
  agrees : ∀ f ∈ fields, field.agrees f = true
  enumValues : field.enumValues = unionEnum fields

/-- The descriptions of the fields of a usage. -/
def fieldsOf (usage : String) (entries : List (String × Usage)) : List Descriptor :=
  (Dict.named Prod.fst usage entries).flatMap fun e => e.2.fields

/-- The descriptions of its commands. -/
def commandsOf (usage : String) (entries : List (String × Usage)) : List Command :=
  (Dict.named Prod.fst usage entries).flatMap fun e => e.2.commands

/-- **A usage as the union of descriptions**: the names in order, each once,
and under each name what all descriptions say. -/
structure UsageUnion (usage : Usage) (fields : List Descriptor) (commands : List Command) :
    Prop where
  fieldNames : usage.fields.map Descriptor.name = sortedSet (fields.map Descriptor.name)
  field : ∀ f ∈ usage.fields, FieldUnion f (Dict.named Descriptor.name f.name fields)
  commandNames : usage.commands.map Command.name = sortedSet (commands.map Command.name)
  command : ∀ c ∈ usage.commands, ∀ d ∈ commands, d.name = c.name → c.eq d = true

/-- **A catalog as the union of entries.** -/
structure IsUnion (catalog : Catalog) (entries : List (String × Usage)) : Prop where
  usages : catalog.keys = sortedSet (entries.map Prod.fst)
  usage : ∀ name usage, catalog.get? name = some usage →
    UsageUnion usage (fieldsOf name entries) (commandsOf name entries)

/-- Any two fields of a name agree on every attribute but the enum values. -/
def FieldsAgree (fields : List Descriptor) : Prop :=
  ∀ f ∈ fields, ∀ g ∈ fields, f.name = g.name → f.agrees g = true

/-- Any two commands of a name are equal. -/
def CommandsAgree (commands : List Command) : Prop :=
  ∀ c ∈ commands, ∀ d ∈ commands, c.name = d.name → c.eq d = true

/-- **Entries that agree**, in each usage. -/
def Consistent (entries : List (String × Usage)) : Prop :=
  ∀ usage, FieldsAgree (fieldsOf usage entries) ∧ CommandsAgree (commandsOf usage entries)

/-- A usage as `_entry` builds it from documents without a NaN: the enum
values of its fields are in order, each once. -/
structure Usage.WellFormed (usage : Usage) : Prop where
  sorted : ∀ f ∈ usage.fields, ∀ values ∈ f.enumValues, values.Pairwise (· < ·)
  ordinary : ∀ f ∈ usage.fields, f.Ordinary
  commands : ∀ c ∈ usage.commands, c.Ordinary

/-! ## Enum values -/

theorem unionOf_none_iff {a b : Option (List String)} :
    unionOf a b = none ↔ a = none ∧ b = none := by
  rw [unionOf]
  split <;> simp_all

theorem mem_unionOf {a b : Option (List String)} {value : String} :
    value ∈ (unionOf a b).getD [] ↔ value ∈ a.getD [] ∨ value ∈ b.getD [] := by
  rw [unionOf]
  split
  · rename_i hnone
    rw [hnone.1, hnone.2]
    simp
  · rw [Option.getD_some, mem_sortedSet, List.mem_append]

/-- Two listings of enum values are the same when both are missing or in
order with the same values. -/
def EnumSorted (values : Option (List String)) : Prop := ∀ xs ∈ values, xs.Pairwise (· < ·)

theorem EnumSorted.ext {a b : Option (List String)} (ha : EnumSorted a) (hb : EnumSorted b)
    (hnone : a = none ↔ b = none) (h : ∀ value, value ∈ a.getD [] ↔ value ∈ b.getD []) :
    a = b := by
  cases a with
  | none => exact (hnone.1 rfl).symm
  | some xs =>
      cases b with
      | none => cases hnone.2 rfl
      | some ys => rw [eq_of_pairwise_lt (ha xs rfl) (hb ys rfl) h]

theorem enumSorted_unionOf (a b : Option (List String)) : EnumSorted (unionOf a b) := by
  intro xs hxs
  rw [unionOf] at hxs
  split at hxs
  · cases hxs
  · obtain rfl := Option.some.inj hxs
    exact pairwise_sortedSet _

theorem unionEnum_none_iff {fields : List Descriptor} :
    unionEnum fields = none ↔ ∀ f ∈ fields, f.enumValues = none := by
  rw [unionEnum]
  split <;> simp_all

theorem mem_unionEnum {fields : List Descriptor} {value : String} :
    value ∈ (unionEnum fields).getD [] ↔ ∃ f ∈ fields, value ∈ f.enumValues.getD [] := by
  rw [unionEnum]
  split
  · rename_i hnone
    simp only [Option.getD_none, List.not_mem_nil, false_iff, not_exists, not_and]
    intro f hf
    rw [hnone f hf]
    exact List.not_mem_nil
  · rw [Option.getD_some, mem_sortedSet, List.mem_flatMap]

theorem enumSorted_unionEnum (fields : List Descriptor) : EnumSorted (unionEnum fields) := by
  intro xs hxs
  rw [unionEnum] at hxs
  split at hxs
  · cases hxs
  · obtain rfl := Option.some.inj hxs
    exact pairwise_sortedSet _

/-- The values of more descriptions are those of both. -/
theorem unionEnum_append (fields later : List Descriptor) :
    unionEnum (fields ++ later) = unionOf (unionEnum fields) (unionEnum later) := by
  refine (enumSorted_unionEnum _).ext (enumSorted_unionOf _ _) ?_ fun value => ?_
  · rw [unionOf_none_iff, unionEnum_none_iff, unionEnum_none_iff, unionEnum_none_iff]
    simp only [List.mem_append, or_imp, forall_and]
  · rw [mem_unionOf, mem_unionEnum, mem_unionEnum, mem_unionEnum]
    simp only [List.mem_append, or_and_right, exists_or]

/-- One description with its values in order gives them back. -/
theorem unionEnum_singleton {f : Descriptor} (h : EnumSorted f.enumValues) :
    unionEnum [f] = f.enumValues := by
  refine (enumSorted_unionEnum _).ext h ?_ fun value => ?_
  · rw [unionEnum_none_iff]
    simp
  · rw [mem_unionEnum]
    simp

/-! ## One field, one command -/

/-- What stands under the name of a field. -/
def fieldRep : Option Descriptor → List Descriptor → Prop
  | none, fields => fields = []
  | some field, fields => fields ≠ [] ∧ FieldUnion field fields

/-- What stands under the name of a command. -/
def commandRep : Option Command → List Command → Prop
  | none, commands => commands = []
  | some command, commands => commands ≠ [] ∧ ∀ c ∈ commands, command.eq c = true

theorem mergeField_conflicts {usage : String} {known found : Descriptor} :
    (mergeField usage known found).2 = [] ↔ known.agrees found = true := by
  rw [mergeField, List.filterMap_eq_nil_iff, Descriptor.agrees, List.all_eq_true]
  refine forall₂_congr fun pair _ => ?_
  cases pair.1.2.eq pair.2.2 <;> simp

/-- **A field merged into what is known of its name.** -/
theorem mergeFound_step (usage : String) (known : Option Descriptor) (fields : List Descriptor)
    (found : Descriptor) (hfound : found.Ordinary ∧ EnumSorted found.enumValues)
    (hrep : fieldRep known fields) (hfields : ∀ f ∈ fields, ∀ g ∈ fields, f.agrees g = true) :
    ((mergeFound usage known found).2 = [] ↔
      ∀ f ∈ fields ++ [found], ∀ g ∈ fields ++ [found], f.agrees g = true) ∧
    ((∀ f ∈ fields ++ [found], ∀ g ∈ fields ++ [found], f.agrees g = true) →
      fieldRep (some (mergeFound usage known found).1) (fields ++ [found])) := by
  have hself := Descriptor.agrees_refl hfound.1
  cases known with
  | none =>
      obtain rfl : fields = [] := hrep
      refine ⟨iff_of_true rfl (by simpa using hself), fun _ => ?_⟩
      have hvalue : (mergeFound usage none found).1 = found := rfl
      rw [hvalue]
      exact ⟨by simp, by simpa using hself, (unionEnum_singleton hfound.2).symm⟩
  | some known =>
      obtain ⟨hne, hunion⟩ := hrep
      have hmerge : (mergeFound usage (some known) found).2 = [] ↔ known.agrees found = true :=
        mergeField_conflicts
      have hiff := related_concat_iff (r := fun f g => f.agrees g = true) Descriptor.agrees_symm
        Descriptor.agrees_trans hne hunion.agrees (x := found)
      refine ⟨hmerge.trans hiff, fun hall => ⟨by simp, fun f hf => ?_, ?_⟩⟩
      · -- the merged field differs from the known one in its enum values only
        have hupdate : (mergeFound usage (some known) found).1.agrees f = known.agrees f := rfl
        rw [hupdate]
        rcases List.mem_append.1 hf with hf | hf
        · exact hunion.agrees f hf
        · rw [List.mem_singleton.1 hf]
          exact hiff.2 hall
      · rw [unionEnum_append, unionEnum_singleton hfound.2, ← hunion.enumValues]
        rfl

/-- **The same for a command.** -/
theorem mergeCommand_step (usage : String) (known : Option Command) (commands : List Command)
    (found : Command) (hfound : found.Ordinary) (hrep : commandRep known commands)
    (hcommands : ∀ c ∈ commands, ∀ d ∈ commands, c.eq d = true) :
    ((mergeCommand usage known found).2 = [] ↔
      ∀ c ∈ commands ++ [found], ∀ d ∈ commands ++ [found], c.eq d = true) ∧
    ((∀ c ∈ commands ++ [found], ∀ d ∈ commands ++ [found], c.eq d = true) →
      commandRep (some (mergeCommand usage known found).1) (commands ++ [found])) := by
  have hself := Command.eq_refl hfound
  cases known with
  | none =>
      obtain rfl : commands = [] := hrep
      have hvalue : (mergeCommand usage none found).1 = found := rfl
      rw [hvalue]
      exact ⟨iff_of_true rfl (by simpa using hself), fun _ => ⟨by simp, by simpa using hself⟩⟩
  | some known =>
      obtain ⟨hne, hunion⟩ := hrep
      have hmerge : (mergeCommand usage (some known) found).2 = [] ↔ known.eq found = true := by
        rw [mergeCommand]
        split <;> simp_all
      have hiff := related_concat_iff (r := fun c d => c.eq d = true) Command.eq_symm
        Command.eq_trans hne hunion (x := found)
      refine ⟨hmerge.trans hiff, fun hall => ⟨by simp, fun c hc => ?_⟩⟩
      -- without a conflict the command found takes the place of the known one
      have hvalue : (mergeCommand usage (some known) found).1 = found := by
        rw [mergeCommand]
        simp only [hiff.2 hall, if_true]
      rw [hvalue]
      exact hall found (List.mem_append_right _ (List.mem_singleton_self _)) c hc

/-! ## One usage -/

theorem fieldsAgree_iff {fields : List Descriptor} : FieldsAgree fields ↔
    ∀ k, ∀ f ∈ Dict.named Descriptor.name k fields, ∀ g ∈ Dict.named Descriptor.name k fields,
      f.agrees g = true := by
  simp only [Dict.mem_named]
  refine ⟨fun h k f hf g hg => h f hf.1 g hg.1 (hf.2.trans hg.2.symm), fun h f hf g hg heq => ?_⟩
  exact h g.name f ⟨hf, heq⟩ g ⟨hg, rfl⟩

theorem commandsAgree_iff {commands : List Command} : CommandsAgree commands ↔
    ∀ k, ∀ c ∈ Dict.named Command.name k commands, ∀ d ∈ Dict.named Command.name k commands,
      c.eq d = true := by
  simp only [Dict.mem_named]
  refine ⟨fun h k c hc d hd => h c hc.1 d hd.1 (hc.2.trans hd.2.symm), fun h c hc d hd heq => ?_⟩
  exact h d.name c ⟨hc, heq⟩ d ⟨hd, rfl⟩

theorem fieldRep_none (fields : List Descriptor) : fieldRep none fields ↔ fields = [] := Iff.rfl

theorem commandRep_none (commands : List Command) : commandRep none commands ↔ commands = [] :=
  Iff.rfl

/-- A union has the name of what it is the union of. -/
theorem fieldRep_name (field : Descriptor) (fields : List Descriptor)
    (h : fieldRep (some field) fields) : ∃ f ∈ fields, f.name = field.name := by
  obtain ⟨f, hf⟩ := List.exists_mem_of_ne_nil fields h.1
  exact ⟨f, hf, (Descriptor.agrees_iff.1 (h.2.agrees f hf)).1.symm⟩

theorem commandRep_name (command : Command) (commands : List Command)
    (h : commandRep (some command) commands) : ∃ c ∈ commands, c.name = command.name := by
  obtain ⟨c, hc⟩ := List.exists_mem_of_ne_nil commands h.1
  exact ⟨c, hc, (Command.eq_iff.1 (h.2 c hc)).1.symm⟩

variable {usage : Usage} {fields : List Descriptor} {commands : List Command}

/-- The fields of a union, by name. -/
theorem UsageUnion.representsFields (h : UsageUnion usage fields commands) :
    Dict.Represents Descriptor.name fieldRep (Dict.byKey Descriptor.name usage.fields) fields := by
  refine Dict.represents_byKey fieldRep_none h.fieldNames fun f hf => ⟨fun hnil => ?_, h.field f hf⟩
  exact Dict.named_eq_nil_iff.1 hnil (List.mem_map.2 (exists_of_listed h.fieldNames hf))

/-- Its commands, by name. -/
theorem UsageUnion.representsCommands (h : UsageUnion usage fields commands) :
    Dict.Represents Command.name commandRep (Dict.byKey Command.name usage.commands)
      commands := by
  refine Dict.represents_byKey commandRep_none h.commandNames fun c hc =>
    ⟨fun hnil => ?_, fun d hd => ?_⟩
  · exact Dict.named_eq_nil_iff.1 hnil (List.mem_map.2 (exists_of_listed h.commandNames hc))
  · obtain ⟨hmem, hname⟩ := Dict.mem_named.1 hd
    exact h.command c hc d hmem hname

/-- What is represented by name is listed as a union. -/
theorem usageUnion_of_represents {fieldDict : Dict String Descriptor}
    {commandDict : Dict String Command}
    (hfields : Dict.Represents Descriptor.name fieldRep fieldDict fields)
    (hcommands : Dict.Represents Command.name commandRep commandDict commands) :
    UsageUnion ⟨fieldDict.listing, commandDict.listing⟩ fields commands := by
  obtain ⟨hfieldNames, hfield⟩ := hfields.listing fieldRep_none fieldRep_name
  obtain ⟨hcommandNames, hcommand⟩ := hcommands.listing commandRep_none commandRep_name
  refine ⟨hfieldNames, fun f hf => (hfield f hf).2, hcommandNames, fun c hc d hd hname => ?_⟩
  exact (hcommand c hc).2 d (Dict.mem_named.2 ⟨hd, hname⟩)

/-- **A usage merged into the union of what is known.** -/
theorem mergeUsage_spec (name : String) {found : Usage} (h : UsageUnion usage fields commands)
    (hagree : FieldsAgree fields ∧ CommandsAgree commands) (hfound : found.WellFormed) :
    ((mergeUsage name usage found).2 = [] ↔
      FieldsAgree (fields ++ found.fields) ∧ CommandsAgree (commands ++ found.commands)) ∧
    (FieldsAgree (fields ++ found.fields) ∧ CommandsAgree (commands ++ found.commands) →
      UsageUnion (mergeUsage name usage found).1 (fields ++ found.fields)
        (commands ++ found.commands)) := by
  obtain ⟨hfieldConflicts, hfieldUnion⟩ := Dict.mergeAll_spec (mergeFound_step name)
    (fun items item hall f hf g hg => hall f (List.mem_append_left _ hf) g
      (List.mem_append_left _ hg))
    (fun f hf => ⟨hfound.ordinary f hf, hfound.sorted f hf⟩) h.representsFields
    (fieldsAgree_iff.1 hagree.1)
  obtain ⟨hcommandConflicts, hcommandUnion⟩ := Dict.mergeAll_spec (mergeCommand_step name)
    (fun items item hall c hc d hd => hall c (List.mem_append_left _ hc) d
      (List.mem_append_left _ hd))
    (fun c hc => hfound.commands c hc) h.representsCommands (commandsAgree_iff.1 hagree.2)
  rw [← fieldsAgree_iff] at hfieldConflicts hfieldUnion
  rw [← commandsAgree_iff] at hcommandConflicts hcommandUnion
  refine ⟨?_, fun ⟨hfields, hcommands⟩ =>
    usageUnion_of_represents (hfieldUnion hfields) (hcommandUnion hcommands)⟩
  rw [mergeUsage, List.append_eq_nil_iff, hfieldConflicts, hcommandConflicts]

/-- Nothing known is the union of nothing. -/
theorem usageUnion_empty : UsageUnion .empty [] [] where
  fieldNames := by simp [Usage.empty]
  field := fun _ hf => absurd hf List.not_mem_nil
  commandNames := by simp [Usage.empty]
  command := fun _ hc => absurd hc List.not_mem_nil

/-! ## A catalog -/

/-- What stands under the name of a usage. -/
def usageRep : Option Usage → List (String × Usage) → Prop
  | none, entries => entries = []
  | some usage, entries => entries ≠ [] ∧
      UsageUnion usage (entries.flatMap fun e => e.2.fields) (entries.flatMap fun e => e.2.commands)

/-- **A usage merged under its name.** -/
theorem mergeUsage_step (known : Option Usage) (entries : List (String × Usage))
    (found : String × Usage) (hfound : found.2.WellFormed) (hrep : usageRep known entries)
    (hagree : FieldsAgree (entries.flatMap fun e => e.2.fields) ∧
      CommandsAgree (entries.flatMap fun e => e.2.commands)) :
    ((mergeUsage found.1 (known.getD .empty) found.2).2 = [] ↔
      FieldsAgree ((entries ++ [found]).flatMap fun e => e.2.fields) ∧
        CommandsAgree ((entries ++ [found]).flatMap fun e => e.2.commands)) ∧
    (FieldsAgree ((entries ++ [found]).flatMap fun e => e.2.fields) ∧
        CommandsAgree ((entries ++ [found]).flatMap fun e => e.2.commands) →
      usageRep (some (mergeUsage found.1 (known.getD .empty) found.2).1) (entries ++ [found])) := by
  have hunion : UsageUnion (known.getD .empty) (entries.flatMap fun e => e.2.fields)
      (entries.flatMap fun e => e.2.commands) := by
    cases known with
    | none =>
        obtain rfl : entries = [] := hrep
        exact usageUnion_empty
    | some usage => exact hrep.2
  obtain ⟨hconflicts, hmerged⟩ := mergeUsage_spec found.1 hunion hagree hfound
  simp only [List.flatMap_append, List.flatMap_singleton]
  exact ⟨hconflicts, fun hall => ⟨by simp, by simpa using hmerged hall⟩⟩

variable {catalog catalog' : Catalog} {entries entries' : List (String × Usage)}

theorem IsUnion.represents (h : IsUnion catalog entries) :
    Dict.Represents Prod.fst usageRep catalog entries := by
  intro name
  have hmem : name ∈ catalog ↔ name ∈ entries.map Prod.fst := by
    rw [← mem_sortedSet, ← h.usages]
    rfl
  cases hname : catalog.get? name with
  | none =>
      rw [Dict.get?_eq_none_iff, hmem] at hname
      exact Dict.named_eq_nil_iff.2 hname
  | some usage =>
      refine ⟨fun hnil => Dict.named_eq_nil_iff.1 hnil (hmem.1 ?_), h.usage name usage hname⟩
      exact Dict.mem_iff.2 ⟨usage, hname⟩

theorem isUnion_inOrder (h : Dict.Represents Prod.fst usageRep catalog entries) :
    IsUnion catalog.inOrder entries := by
  refine ⟨?_, fun name usage hname => ?_⟩
  · rw [Dict.keys_inOrder]
    refine sortedSet_congr fun name => ?_
    exact h.mem_iff (fun _ => Iff.rfl) fun usage entries hrep => hrep.1
  · rw [Dict.get?_inOrder] at hname
    have hrep := h name
    rw [hname] at hrep
    exact hrep.2

/-- **Merging a catalog into a union**: no conflict is reported exactly when
its entries agree with those known, and then the result is the union of
both. -/
theorem merge_spec (h : IsUnion catalog entries) (hconsistent : Consistent entries)
    {found : Catalog} (hfound : ∀ e ∈ found.entries, e.2.WellFormed) :
    ((merge catalog found).2 = [] ↔ Consistent (entries ++ found.entries)) ∧
    (Consistent (entries ++ found.entries) →
      IsUnion (merge catalog found).1 (entries ++ found.entries)) := by
  obtain ⟨hconflicts, hmerged⟩ := Dict.mergeAll_spec mergeUsage_step
    (fun items item hall => ⟨fun f hf g hg => hall.1 f (by simp_all) g (by simp_all),
      fun c hc d hd => hall.2 c (by simp_all) d (by simp_all)⟩)
    hfound h.represents hconsistent
  exact ⟨hconflicts, fun hall => isUnion_inOrder (hmerged hall)⟩

/-! ## A list of catalogs -/

theorem fieldsOf_append (name : String) (entries later : List (String × Usage)) :
    fieldsOf name (entries ++ later) = fieldsOf name entries ++ fieldsOf name later := by
  rw [fieldsOf, Dict.named_append, List.flatMap_append, fieldsOf, fieldsOf]

theorem commandsOf_append (name : String) (entries later : List (String × Usage)) :
    commandsOf name (entries ++ later) = commandsOf name entries ++ commandsOf name later := by
  rw [commandsOf, Dict.named_append, List.flatMap_append, commandsOf, commandsOf]

theorem Consistent.of_append {later : List (String × Usage)}
    (h : Consistent (entries ++ later)) : Consistent entries := by
  intro name
  obtain ⟨hfields, hcommands⟩ := h name
  rw [fieldsOf_append] at hfields
  rw [commandsOf_append] at hcommands
  exact ⟨fun f hf g hg => hfields f (List.mem_append_left _ hf) g (List.mem_append_left _ hg),
    fun c hc d hd => hcommands c (List.mem_append_left _ hc) d (List.mem_append_left _ hd)⟩

theorem consistent_nil : Consistent [] :=
  fun _ => ⟨fun _ hf => absurd hf List.not_mem_nil, fun _ hc => absurd hc List.not_mem_nil⟩

theorem isUnion_empty : IsUnion ∅ [] where
  usages := by
    rw [List.map_nil, sortedSet_nil]
    rfl
  usage := fun _ _ h => by cases h

/-- **The fold over catalogs** gives the union of all their entries. -/
theorem mergeEntries_spec {catalogs : List Catalog}
    (h : ∀ e ∈ catalogs.flatMap Dict.entries, e.2.WellFormed) :
    ((mergeEntries catalogs).2 = [] ↔ Consistent (catalogs.flatMap Dict.entries)) ∧
    (Consistent (catalogs.flatMap Dict.entries) →
      IsUnion (mergeEntries catalogs).1 (catalogs.flatMap Dict.entries)) := by
  induction catalogs using List.reverseRecOn with
  | nil => exact ⟨iff_of_true rfl consistent_nil, fun _ => isUnion_empty⟩
  | append_singleton catalogs catalog ih =>
      rw [List.flatMap_append, List.flatMap_singleton] at h ⊢
      obtain ⟨hconflicts, hunion⟩ := ih fun e he => h e (List.mem_append_left _ he)
      have hfold : mergeEntries (catalogs ++ [catalog]) =
          ((merge (mergeEntries catalogs).1 catalog).1,
            (mergeEntries catalogs).2 ++ (merge (mergeEntries catalogs).1 catalog).2) := by
        rw [mergeEntries, List.foldl_append]
        rfl
      rw [hfold, List.append_eq_nil_iff, hconflicts]
      by_cases hconsistent : Consistent (catalogs.flatMap Dict.entries)
      · obtain ⟨hlast, hmerged⟩ := merge_spec (hunion hconsistent) hconsistent
          fun e he => h e (List.mem_append_right _ he)
        exact ⟨(and_iff_right hconsistent).trans hlast, hmerged⟩
      · have hall : ¬ Consistent (catalogs.flatMap Dict.entries ++ catalog.entries) :=
          fun hall => hconsistent hall.of_append
        exact ⟨iff_of_false (fun hboth => hconsistent hboth.1) hall, fun h => absurd h hall⟩

/-! ## What a union depends on -/

/-- The same descriptions of fields: each agrees with one of the other list,
and a name has the same enum values. -/
structure SameFields (fields fields' : List Descriptor) : Prop where
  left : ∀ f ∈ fields, ∃ g ∈ fields', f.agrees g = true
  right : ∀ g ∈ fields', ∃ f ∈ fields, f.agrees g = true
  enumValues : ∀ name, unionEnum (Dict.named Descriptor.name name fields) =
    unionEnum (Dict.named Descriptor.name name fields')

/-- The same commands. -/
structure SameCommands (commands commands' : List Command) : Prop where
  left : ∀ c ∈ commands, ∃ d ∈ commands', c.eq d = true
  right : ∀ d ∈ commands', ∃ c ∈ commands, c.eq d = true

/-- **Entries that describe the same.** -/
structure SameContent (entries entries' : List (String × Usage)) : Prop where
  usages : ∀ name, name ∈ entries.map Prod.fst ↔ name ∈ entries'.map Prod.fst
  fields : ∀ name, SameFields (fieldsOf name entries) (fieldsOf name entries')
  commands : ∀ name, SameCommands (commandsOf name entries) (commandsOf name entries')

theorem Descriptor.name_eq_of_agrees (f g : Descriptor) (h : f.agrees g = true) :
    f.name = g.name := (agrees_iff.1 h).1

theorem Command.name_eq_of_eq (c d : Command) (h : c.eq d = true) : c.name = d.name :=
  (eq_iff.1 h).1

theorem SameFields.matched {fields' : List Descriptor} (h : SameFields fields fields') :
    Matched (fun f g => f.agrees g = true) fields fields' := ⟨h.left, h.right⟩

theorem SameCommands.matched {commands' : List Command} (h : SameCommands commands commands') :
    Matched (fun c d => c.eq d = true) commands commands' := ⟨h.left, h.right⟩

/-- Matched descriptions with the same enum values under each name. -/
theorem sameFields_of_matched {fields' : List Descriptor}
    (h : Matched (fun f g => f.agrees g = true) fields fields')
    (henum : ∀ name, unionEnum (Dict.named Descriptor.name name fields) =
      unionEnum (Dict.named Descriptor.name name fields')) : SameFields fields fields' :=
  ⟨h.left, h.right, henum⟩

theorem sameCommands_of_matched {commands' : List Command}
    (h : Matched (fun c d => c.eq d = true) commands commands') :
    SameCommands commands commands' := ⟨h.left, h.right⟩

/-- **A union is that of any entries that describe the same.** -/
theorem IsUnion.congr (h : IsUnion catalog entries) (hsame : SameContent entries entries') :
    IsUnion catalog entries' := by
  refine ⟨h.usages.trans (sortedSet_congr hsame.usages), fun name usage hname => ?_⟩
  obtain ⟨hfieldNames, hfield, hcommandNames, hcommand⟩ := h.usage name usage hname
  have hfields := hsame.fields name
  have hcommands := hsame.commands name
  have hfieldKeys := hfields.matched.mem_map_iff Descriptor.name_eq_of_agrees
  have hcommandKeys := hcommands.matched.mem_map_iff Command.name_eq_of_eq
  refine ⟨hfieldNames.trans (sortedSet_congr hfieldKeys), fun f hf => ⟨fun g hg => ?_, ?_⟩,
    hcommandNames.trans (sortedSet_congr hcommandKeys), fun c hc d hd hname => ?_⟩
  · obtain ⟨hg, hgname⟩ := Dict.mem_named.1 hg
    obtain ⟨f', hf', hagrees⟩ := hfields.right g hg
    have hname' := (Descriptor.name_eq_of_agrees f' g hagrees).trans hgname
    exact Descriptor.agrees_trans ((hfield f hf).agrees f' (Dict.mem_named.2 ⟨hf', hname'⟩)) hagrees
  · rw [(hfield f hf).enumValues, hfields.enumValues]
  · obtain ⟨c', hc', heq⟩ := hcommands.right d hd
    have hname' := (Command.name_eq_of_eq c' d heq).trans hname
    exact Command.eq_trans (hcommand c hc c' hc' hname') heq

theorem Consistent.congr (h : Consistent entries) (hsame : SameContent entries entries') :
    Consistent entries' := by
  intro name
  obtain ⟨hfields, hcommands⟩ := h name
  exact ⟨(hsame.fields name).matched.related Descriptor.agrees_symm Descriptor.agrees_trans
      Descriptor.name_eq_of_agrees hfields,
    (hsame.commands name).matched.related Command.eq_symm Command.eq_trans
      Command.name_eq_of_eq hcommands⟩

theorem SameContent.symm (h : SameContent entries entries') : SameContent entries' entries where
  usages name := (h.usages name).symm
  fields name := sameFields_of_matched ((h.fields name).matched.symm Descriptor.agrees_symm)
    fun k => ((h.fields name).enumValues k).symm
  commands name := sameCommands_of_matched ((h.commands name).matched.symm Command.eq_symm)

/-- A description in well-formed entries agrees with itself. -/
theorem fieldsOf_refl (h : ∀ e ∈ entries, e.2.WellFormed) (name : String) :
    ∀ f ∈ fieldsOf name entries, f.agrees f = true := by
  intro f hf
  obtain ⟨e, he, hf⟩ := List.mem_flatMap.1 hf
  exact Descriptor.agrees_refl ((h e (Dict.mem_named.1 he).1).ordinary f hf)

theorem commandsOf_refl (h : ∀ e ∈ entries, e.2.WellFormed) (name : String) :
    ∀ c ∈ commandsOf name entries, c.eq c = true := by
  intro c hc
  obtain ⟨e, he, hc⟩ := List.mem_flatMap.1 hc
  exact Command.eq_refl ((h e (Dict.mem_named.1 he).1).commands c hc)

/-- The same entries, in any order and any number of times. -/
theorem sameContent_of_mem (h : ∀ e ∈ entries, e.2.WellFormed)
    (hmem : ∀ e, e ∈ entries ↔ e ∈ entries') : SameContent entries entries' := by
  have hfields : ∀ name f, f ∈ fieldsOf name entries ↔ f ∈ fieldsOf name entries' := by
    intro name f
    simp only [fieldsOf, List.mem_flatMap, Dict.mem_named, hmem]
  have hcommands : ∀ name c, c ∈ commandsOf name entries ↔ c ∈ commandsOf name entries' := by
    intro name c
    simp only [commandsOf, List.mem_flatMap, Dict.mem_named, hmem]
  refine ⟨fun name => ?_, fun name => ?_, fun name => ?_⟩
  · simp only [List.mem_map, hmem]
  · refine sameFields_of_matched (matched_of_mem (fieldsOf_refl h name) (hfields name)) fun k => ?_
    refine (enumSorted_unionEnum _).ext (enumSorted_unionEnum _) ?_ fun value => ?_
    · simp only [unionEnum_none_iff, Dict.mem_named, hfields]
    · simp only [mem_unionEnum, Dict.mem_named, hfields]
  · exact sameCommands_of_matched (matched_of_mem (commandsOf_refl h name) (hcommands name))

/-- After the same entries. -/
theorem SameContent.append {before : List (String × Usage)}
    (h : SameContent entries entries') (hbefore : ∀ e ∈ before, e.2.WellFormed) :
    SameContent (before ++ entries) (before ++ entries') := by
  refine ⟨fun name => ?_, fun name => ?_, fun name => ?_⟩
  · simp only [List.map_append, List.mem_append, h.usages]
  · rw [fieldsOf_append, fieldsOf_append]
    have hmatched := (h.fields name).matched.append_left (fieldsOf_refl hbefore name)
    refine sameFields_of_matched hmatched fun k => ?_
    rw [Dict.named_append, Dict.named_append, unionEnum_append, unionEnum_append,
      (h.fields name).enumValues k]
  · rw [commandsOf_append, commandsOf_append]
    exact sameCommands_of_matched
      ((h.commands name).matched.append_left (commandsOf_refl hbefore name))

/-- The descriptions in a catalog itself. -/
theorem fieldsOf_entries (catalog : Catalog) (name : String) :
    fieldsOf name catalog.entries = ((catalog.get? name).getD .empty).fields ∧
      commandsOf name catalog.entries = ((catalog.get? name).getD .empty).commands := by
  have hnamed : Dict.named Prod.fst name catalog.entries =
      ((catalog.get? name).map fun usage => (name, usage)).toList := by
    obtain ⟨entries, hnodup⟩ := catalog
    exact Dict.named_fst hnodup name
  rw [fieldsOf, commandsOf, hnamed]
  cases catalog.get? name <;> simp [Usage.empty]

/-- The fields of a union describe what it is the union of. -/
theorem UsageUnion.sameFields (h : UsageUnion usage fields commands) :
    SameFields usage.fields fields := by
  refine sameFields_of_matched (matched_of_listed h.fieldNames fun f hf g hg hname =>
    (h.field f hf).agrees g (Dict.mem_named.2 ⟨hg, hname⟩)) fun k => ?_
  refine (enumSorted_unionEnum _).ext (enumSorted_unionEnum _) ?_ fun value => ?_
  · simp only [unionEnum_none_iff, Dict.mem_named]
    refine ⟨fun hnone g hg => ?_, fun hnone f hf => ?_⟩
    · obtain ⟨f, hf, hname⟩ := listed_of_mem h.fieldNames hg.1
      have hf' := hnone f ⟨hf, hname.trans hg.2⟩
      rw [(h.field f hf).enumValues] at hf'
      exact unionEnum_none_iff.1 hf' g (Dict.mem_named.2 ⟨hg.1, hname.symm⟩)
    · rw [(h.field f hf.1).enumValues, unionEnum_none_iff]
      intro g hg
      obtain ⟨hg, hname⟩ := Dict.mem_named.1 hg
      exact hnone g ⟨hg, hname.trans hf.2⟩
  · simp only [mem_unionEnum, Dict.mem_named]
    constructor
    · rintro ⟨f, hf, hvalue⟩
      rw [(h.field f hf.1).enumValues] at hvalue
      obtain ⟨g, hg, hvalue⟩ := mem_unionEnum.1 hvalue
      obtain ⟨hg, hname⟩ := Dict.mem_named.1 hg
      exact ⟨g, ⟨hg, hname.trans hf.2⟩, hvalue⟩
    · rintro ⟨g, hg, hvalue⟩
      obtain ⟨f, hf, hname⟩ := listed_of_mem h.fieldNames hg.1
      refine ⟨f, ⟨hf, hname.trans hg.2⟩, ?_⟩
      rw [(h.field f hf).enumValues]
      exact mem_unionEnum.2 ⟨g, Dict.mem_named.2 ⟨hg.1, hname.symm⟩, hvalue⟩

theorem UsageUnion.sameCommands (h : UsageUnion usage fields commands) :
    SameCommands usage.commands commands :=
  sameCommands_of_matched (matched_of_listed h.commandNames h.command)

/-- **A union describes what it is the union of.** -/
theorem IsUnion.sameContent (h : IsUnion catalog entries) :
    SameContent catalog.entries entries := by
  have hunion : ∀ name, UsageUnion ((catalog.get? name).getD .empty) (fieldsOf name entries)
      (commandsOf name entries) := by
    intro name
    have hrep := h.represents name
    cases hname : catalog.get? name with
    | none =>
        rw [hname] at hrep
        have hnil : Dict.named Prod.fst name entries = [] := hrep
        rw [fieldsOf, commandsOf, hnil]
        exact usageUnion_empty
    | some usage => exact h.usage name usage hname
  refine ⟨fun name => ?_, fun name => ?_, fun name => ?_⟩
  · have hkeys : name ∈ catalog.keys ↔ name ∈ sortedSet (entries.map Prod.fst) := by
      rw [h.usages]
    exact hkeys.trans mem_sortedSet
  · rw [(fieldsOf_entries catalog name).1]
    exact (hunion name).sameFields
  · rw [(fieldsOf_entries catalog name).2]
    exact (hunion name).sameCommands

/-- `==` of two catalogs whose usages are in order. -/
def CatalogEq (catalog catalog' : Catalog) : Prop :=
  List.Forall₂ (fun e e' => e.1 = e'.1 ∧
    List.Forall₂ (fun f g => f.eq g = true) e.2.fields e'.2.fields ∧
    List.Forall₂ (fun c d => c.eq d = true) e.2.commands e'.2.commands)
    catalog.entries catalog'.entries

/-- Two unions of the same fields and commands. -/
theorem UsageUnion.unique {usage' : Usage} (h : UsageUnion usage fields commands)
    (h' : UsageUnion usage' fields commands) :
    List.Forall₂ (fun f g => f.eq g = true) usage.fields usage'.fields ∧
      List.Forall₂ (fun c d => c.eq d = true) usage.commands usage'.commands := by
  refine ⟨forall₂_of_map_eq (h.fieldNames.trans h'.fieldNames.symm) fun f hf g hg hfg => ?_,
    forall₂_of_map_eq (h.commandNames.trans h'.commandNames.symm) fun c hc d hd hcd => ?_⟩
  · -- both agree with a description of the name
    obtain ⟨f₀, hf₀, hname⟩ := exists_of_listed h.fieldNames hf
    have hleft := (h.field f hf).agrees f₀ (Dict.mem_named.2 ⟨hf₀, hname⟩)
    have hright := (h'.field g hg).agrees f₀ (Dict.mem_named.2 ⟨hf₀, hname.trans hfg⟩)
    refine Descriptor.eq_iff.2
      ⟨Descriptor.agrees_trans hleft (Descriptor.agrees_symm hright), ?_⟩
    rw [(h.field f hf).enumValues, (h'.field g hg).enumValues, hfg]
  · obtain ⟨c₀, hc₀, hname⟩ := exists_of_listed h.commandNames hc
    exact Command.eq_trans (h.command c hc c₀ hc₀ hname)
      (Command.eq_symm (h'.command d hd c₀ hc₀ (hname.trans hcd)))

/-- **There is one union**, numbers by value. -/
theorem IsUnion.unique (h : IsUnion catalog entries) (h' : IsUnion catalog' entries) :
    CatalogEq catalog catalog' := by
  refine forall₂_of_map_eq (h.usages.trans h'.usages.symm) fun e he e' he' hname => ⟨hname, ?_⟩
  have husage := h.usage e.1 e.2 (Dict.get?_eq_some_iff.2 he)
  have husage' := h'.usage e'.1 e'.2 (Dict.get?_eq_some_iff.2 he')
  rw [← hname] at husage'
  exact husage.unique husage'

/-! ## Well-formed usages -/

theorem optionEq_ordinary {a b : Option Number} (h : optionEq a b = true) :
    ∀ n ∈ a, n.Ordinary := by
  rintro n rfl
  cases b with
  | none => cases h
  | some b => exact (Number.eq_iff.1 h).1

/-- What agrees with something has no NaN. -/
theorem Descriptor.ordinary_of_agrees {f g : Descriptor} (h : f.agrees g = true) :
    f.Ordinary := by
  obtain ⟨-, -, -, -, -, hmin, hmax, hstep, -⟩ := Descriptor.agrees_iff.1 h
  exact ⟨optionEq_ordinary hmin, optionEq_ordinary hmax, optionEq_ordinary hstep⟩

theorem Command.ordinary_of_eq {c d : Command} (h : c.eq d = true) : c.Ordinary := by
  intro f hf
  obtain ⟨-, -, hparameters⟩ := Command.eq_iff.1 h
  obtain ⟨i, hi, rfl⟩ := List.getElem_of_mem hf
  have hpair := hparameters.get hi (hparameters.length_eq ▸ hi)
  exact Descriptor.ordinary_of_agrees (Descriptor.eq_iff.1 hpair).1

/-- The usages of a union are well formed again. -/
theorem IsUnion.wellFormed (h : IsUnion catalog entries) :
    ∀ e ∈ catalog.entries, e.2.WellFormed := by
  intro e he
  have husage := h.usage e.1 e.2 (Dict.get?_eq_some_iff.2 he)
  refine ⟨fun f hf => ?_, fun f hf => ?_, fun c hc => ?_⟩
  · rw [(husage.field f hf).enumValues]
    exact enumSorted_unionEnum _
  · obtain ⟨g, -, hagrees⟩ := husage.sameFields.left f hf
    exact Descriptor.ordinary_of_agrees hagrees
  · obtain ⟨d, -, heq⟩ := husage.sameCommands.left c hc
    exact Command.ordinary_of_eq heq

/-- `_entry` puts the enum values in order. -/
theorem entry_enumSorted (name : String) (endpoint : MetaEndpoint) {e : String × Usage}
    (he : e ∈ (entry name endpoint).entries) : ∀ f ∈ e.2.fields, EnumSorted f.enumValues := by
  have hentries : (entry name endpoint).entries =
      [(name, ⟨endpoint.metadata.map sortedEnum, endpoint.cmetadata.map sortedCommand⟩)] :=
    Dict.entries_ofList (List.nodup_singleton _)
  rw [hentries, List.mem_singleton] at he
  subst he
  intro f hf values hvalues
  obtain ⟨descriptor, -, rfl⟩ := List.mem_map.1 hf
  rw [sortedEnum] at hvalues
  split at hvalues
  · rename_i hnone
    rw [hnone] at hvalues
    cases hvalues
  · obtain rfl := Option.some.inj hvalues
    exact pairwise_sortedSet _

/-! ## The fold over one-usage entries -/

/-- The entries as catalogs of one usage. -/
def asCatalogs (entries : List (String × Usage)) : List Catalog :=
  entries.map fun e => oneUsage e.1 e.2

theorem entries_asCatalogs (entries : List (String × Usage)) :
    (asCatalogs entries).flatMap Dict.entries = entries := by
  have hone : ∀ e : String × Usage, (oneUsage e.1 e.2).entries = [e] :=
    fun e => Dict.entries_ofList (List.nodup_singleton _)
  rw [asCatalogs, List.flatMap_map]
  simp only [hone]
  exact List.flatMap_singleton' entries

/-- **Merging entries is taking their union.** No conflict is reported
exactly when the entries agree, the result is then their union, it depends
neither on their order nor on repetitions, and merging it once more into
what it was merged into changes nothing. -/
theorem mergeEntries_union (entries : List (String × Usage))
    (h : ∀ e ∈ entries, e.2.WellFormed) :
    ((mergeEntries (asCatalogs entries)).2 = [] ↔ Consistent entries) ∧
    ((mergeEntries (asCatalogs entries)).2 = [] →
      IsUnion (mergeEntries (asCatalogs entries)).1 entries) ∧
    (∀ entries', (∀ e, e ∈ entries ↔ e ∈ entries') →
      ((mergeEntries (asCatalogs entries')).2 = [] ↔
        (mergeEntries (asCatalogs entries)).2 = []) ∧
      ((mergeEntries (asCatalogs entries)).2 = [] →
        CatalogEq (mergeEntries (asCatalogs entries')).1
          (mergeEntries (asCatalogs entries)).1)) ∧
    (∀ before : List (String × Usage), (∀ e ∈ before, e.2.WellFormed) →
      (mergeEntries (asCatalogs before)).2 = [] → (mergeEntries (asCatalogs entries)).2 = [] →
      let found := (mergeEntries (asCatalogs entries)).1
      let merged := merge (mergeEntries (asCatalogs before)).1 found
      (merged.2 = [] ↔ Consistent (before ++ entries)) ∧
      (merged.2 = [] → IsUnion merged.1 (before ++ entries) ∧
        (merge merged.1 found).2 = [] ∧ CatalogEq (merge merged.1 found).1 merged.1)) := by
  have hspec : ∀ entries : List (String × Usage), (∀ e ∈ entries, e.2.WellFormed) →
      ((mergeEntries (asCatalogs entries)).2 = [] ↔ Consistent entries) ∧
      (Consistent entries → IsUnion (mergeEntries (asCatalogs entries)).1 entries) := by
    intro entries hentries
    rw [← entries_asCatalogs entries] at hentries
    have hcatalogs := mergeEntries_spec hentries
    rw [entries_asCatalogs] at hcatalogs
    exact hcatalogs
  obtain ⟨hconflicts, hunion⟩ := hspec entries h
  refine ⟨hconflicts, fun hnone => hunion (hconflicts.1 hnone), fun entries' hmem => ?_,
    fun before hbefore hknown hfound => ?_⟩
  · have hsame := sameContent_of_mem h hmem
    have h' : ∀ e ∈ entries', e.2.WellFormed := fun e he => h e ((hmem e).2 he)
    have hsame' := sameContent_of_mem h' fun e => (hmem e).symm
    obtain ⟨hconflicts', hunion'⟩ := hspec entries' h'
    refine ⟨?_, fun hnone => ?_⟩
    · rw [hconflicts', hconflicts]
      exact ⟨fun hc => hc.congr hsame', fun hc => hc.congr hsame⟩
    · have hc := hconflicts.1 hnone
      exact ((hunion' (hc.congr hsame)).congr hsame').unique (hunion hc)
  · obtain ⟨hconflictsBefore, hunionBefore⟩ := hspec before hbefore
    have hb := hconflictsBefore.1 hknown
    have hfoundUnion := hunion (hconflicts.1 hfound)
    have hboth : ∀ e ∈ before ++ entries, e.2.WellFormed :=
      fun e he => (List.mem_append.1 he).elim (hbefore e) (h e)
    -- what the catalog found describes is what its entries describe
    have hsame := hfoundUnion.sameContent.append hbefore
    obtain ⟨hmerged, hmergedUnion⟩ := merge_spec (hunionBefore hb) hb hfoundUnion.wellFormed
    have hiff := hmerged.trans ⟨fun hc => hc.congr hsame, fun hc => hc.congr hsame.symm⟩
    refine ⟨hiff, fun hnone => ?_⟩
    have hc := hiff.1 hnone
    have hu := (hmergedUnion (hc.congr hsame.symm)).congr hsame
    -- and described once more it is nothing new
    have hagain := hfoundUnion.sameContent.append hboth
    have htwice : SameContent (before ++ entries ++ entries) (before ++ entries) := by
      refine sameContent_of_mem (fun e he => ?_) (by simp)
      exact (List.mem_append.1 he).elim (hboth e) (h e)
    obtain ⟨hagainConflicts, hagainUnion⟩ := merge_spec hu hc hfoundUnion.wellFormed
    have hca := (hc.congr htwice.symm).congr hagain.symm
    refine ⟨hu, hagainConflicts.2 hca, ?_⟩
    exact (((hagainUnion hca).congr hagain).congr htwice).unique hu

/-- A field whose minimum is a NaN. -/
def nanUsage : Usage :=
  ⟨[⟨"level", "numeric", none, none, none, some (.float .nan), none, none, none, none⟩], []⟩

/-- **A NaN differs from itself**: an entry with one merges without a
conflict, and conflicts when it is merged again. -/
theorem nan_conflicts_when_repeated :
    (∀ f ∈ nanUsage.fields, EnumSorted f.enumValues) ∧
    (mergeEntries (asCatalogs [("lamp", nanUsage)])).2 = [] ∧
    (mergeEntries (asCatalogs [("lamp", nanUsage), ("lamp", nanUsage)])).2 =
      [⟨"lamp", "level", "min", .number (some (.float .nan)), .number (some (.float .nan))⟩] := by
  refine ⟨?_, by decide +kernel, by decide +kernel⟩
  intro f hf values hvalues
  rw [nanUsage, List.mem_singleton] at hf
  rw [hf] at hvalues
  cases hvalues

/-- A field of a lamp, with the enum values given. -/
def modeUsage (enumValues : List String) : Usage :=
  ⟨[⟨"mode", "string", none, none, none, none, none, none, none, some enumValues⟩], []⟩

/-- The enum values of two devices are put together, in either order. -/
theorem mergeEntries_union_modes :
    (mergeEntries (asCatalogs [("lamp", modeUsage ["ON"]),
      ("lamp", modeUsage ["DIM", "OFF"])])).2 = [] ∧
    CatalogEq (mergeEntries (asCatalogs [("lamp", modeUsage ["DIM", "OFF"]),
        ("lamp", modeUsage ["ON"])])).1
      (mergeEntries (asCatalogs [("lamp", modeUsage ["ON"]),
        ("lamp", modeUsage ["DIM", "OFF"])])).1 := by
  have hnone : (mergeEntries (asCatalogs [("lamp", modeUsage ["ON"]),
      ("lamp", modeUsage ["DIM", "OFF"])])).2 = [] := by decide +kernel
  refine ⟨hnone, ?_⟩
  refine ((mergeEntries_union [("lamp", modeUsage ["ON"]), ("lamp", modeUsage ["DIM", "OFF"])]
    ?_).2.2.1 [("lamp", modeUsage ["DIM", "OFF"]), ("lamp", modeUsage ["ON"])] ?_).2 hnone
  · intro e he
    have hmode : ∀ values : List String, values.Pairwise (· < ·) →
        (modeUsage values).WellFormed := by
      intro values hvalues
      refine ⟨fun f hf xs hxs => ?_, fun f hf => ?_, fun c hc => absurd hc List.not_mem_nil⟩
      · obtain rfl := List.mem_singleton.1 hf
        obtain rfl := Option.some.inj hxs
        exact hvalues
      · obtain rfl := List.mem_singleton.1 hf
        exact ⟨by simp, by simp, by simp⟩
    simp only [List.mem_cons, List.not_mem_nil, or_false] at he
    rcases he with rfl | rfl
    · exact hmode _ (List.pairwise_singleton _ _)
    · exact hmode _ (by decide +kernel)
  · intro e
    simp only [List.mem_cons, List.not_mem_nil, or_false]
    exact or_comm

end Capture

end Tydomio
