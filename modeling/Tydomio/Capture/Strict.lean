import Tydomio.Capture.Tree

/-!
# What `parse_json` accepts

A text is refused at its first number that does not convert, and what is
left of its objects, each key once, is checked for its depth. So a text is
returned or refused as `parse_json` promises, but for two kinds
(`parseJson_promised_iff`): an integer of too many digits that is the first
to fail, and a nesting too deep under a key that comes again.
-/

namespace Tydomio

open Common

namespace Capture

/-- The numbers that were read. -/
def Reading.numerals : Reading → List Numeral
  | value tree => tree.numerals
  | stopped before _ => before

/-! ## The promise -/

namespace JsonReader

variable (reader : JsonReader)

/-- A number that is finite. -/
def Finite : Numeral → Prop
  | .constant _ => False
  | .float text => ∃ q, reader.float text = .finite q
  | .int _ => True

/-- One that has no more digits, either, than `int` converts. -/
def Converts (numeral : Numeral) : Prop :=
  reader.Finite numeral ∧ ∀ digits, numeral = .int digits → digitsOf digits ≤ maxStrDigits

variable (content : Bytes)

/-- **Strict JSON, and its value**: a text that `json.loads` accepts, of
finite numbers and nested no deeper than `MAX_DEPTH`. -/
def Accepts (value : JsonValue) : Prop :=
  ∃ text tree, decodeUtf8 content = some text ∧ reader.read text = .value tree ∧
    (∀ numeral ∈ tree.numerals, reader.Finite numeral) ∧ tree.depth ≤ maxDepth ∧
    reader.plain text = .ok value

/-- **What `parse_json` promises.** -/
structure Promised : Prop where
  value : ∀ value, parseJson reader.strict content = .ok value ↔ reader.Accepts content value
  notJson : (∀ value, ¬ reader.Accepts content value) →
    ∃ message, parseJson reader.strict content = .error (.notJson message)

/-- The first number that does not convert is an integer of too many digits. -/
def DigitsFirst : Prop :=
  ∃ text before digits after, decodeUtf8 content = some text ∧
    (reader.read text).numerals = before ++ .int digits :: after ∧
    maxStrDigits < digitsOf digits ∧ ∀ numeral ∈ before, reader.Converts numeral

/-- A text nests too deep, but only under keys that come again. -/
def DeepUnderRepeated : Prop :=
  ∃ text tree, decodeUtf8 content = some text ∧ reader.read text = .value tree ∧
    (∀ numeral ∈ tree.numerals, reader.Converts numeral) ∧
    tree.kept.depth ≤ maxDepth ∧ maxDepth < tree.depth

end JsonReader

section Numbers

variable {reader : JsonReader}

theorem failure_int (hooks : Hooks) (digits : String) : hooks.failure (.int digits) =
    if maxStrDigits < digitsOf digits then some .valueError else none := by
  rw [Hooks.failure, Hooks.number, intOf]
  by_cases hlimit : maxStrDigits < digitsOf digits
  · rw [if_pos hlimit, if_pos hlimit]
    rfl
  · rw [if_neg hlimit, if_neg hlimit]
    rfl

theorem number_float (text : String) : (strictHooks reader.float).number (.float text) =
    (finiteFloat reader.float text).map .float := rfl

theorem failure_of_finite {text : String} {q : ℚ} (h : reader.float text = .finite q) :
    (strictHooks reader.float).failure (.float text) = none := by
  rw [Hooks.failure, number_float, finiteFloat, h]
  rfl

theorem failure_of_not_finite {text : String} (h : ∀ q, reader.float text ≠ .finite q) :
    (strictHooks reader.float).failure (.float text) =
      some (.notJson "Non-finite number") := by
  rw [Hooks.failure, number_float, finiteFloat]
  cases hfloat : reader.float text with
  | finite q => exact absurd hfloat (h q)
  | _ => rfl

theorem converts_int {digits : String} :
    reader.Converts (.int digits) ↔ ¬ maxStrDigits < digitsOf digits := by
  refine ⟨fun h => Nat.not_lt.2 (h.2 digits rfl), fun h => ⟨trivial, ?_⟩⟩
  rintro _ ⟨⟩
  exact Nat.not_lt.1 h

/-- The numbers that pass the hooks. -/
theorem failure_strictHooks_eq_none {numeral : Numeral} :
    (strictHooks reader.float).failure numeral = none ↔ reader.Converts numeral := by
  cases numeral with
  | constant name => exact iff_of_false nofun fun h => h.1
  | float text =>
      by_cases hfloat : ∃ q, reader.float text = .finite q
      · obtain ⟨q, hq⟩ := hfloat
        exact iff_of_true (failure_of_finite hq) ⟨⟨q, hq⟩, nofun⟩
      · rw [failure_of_not_finite fun q hq => hfloat ⟨q, hq⟩]
        exact iff_of_false nofun fun h => hfloat h.1
  | int digits =>
      rw [failure_int, converts_int]
      split
      · rename_i hlimit
        exact iff_of_false nofun (not_not_intro hlimit)
      · rename_i hlimit
        exact iff_of_true rfl hlimit

/-- What those that do not pass raise. -/
theorem failure_strictHooks {numeral : Numeral} {e : StrictError}
    (h : (strictHooks reader.float).failure numeral = some e) :
    (∃ message, e = .notJson message) ∨
      (e = .valueError ∧ ∃ digits, numeral = .int digits ∧ maxStrDigits < digitsOf digits) := by
  cases numeral with
  | constant name =>
      cases h
      exact .inl ⟨_, rfl⟩
  | float text =>
      by_cases hfloat : ∃ q, reader.float text = .finite q
      · obtain ⟨q, hq⟩ := hfloat
        rw [failure_of_finite hq] at h
        cases h
      · rw [failure_of_not_finite fun q hq => hfloat ⟨q, hq⟩] at h
        cases h
        exact .inl ⟨_, rfl⟩
  | int digits =>
      rw [failure_int] at h
      split at h
      · rename_i hlimit
        cases h
        exact .inr ⟨rfl, digits, rfl, hlimit⟩
      · cases h

/-- Of the finite numbers, the same ones convert without the hooks. -/
theorem failure_plainHooks_eq_none {numeral : Numeral} (hfinite : reader.Finite numeral) :
    (plainHooks reader.float).failure numeral = none ↔ reader.Converts numeral := by
  cases numeral with
  | constant name => exact hfinite.elim
  | float text => exact iff_of_true rfl ⟨hfinite, nofun⟩
  | int digits =>
      rw [← failure_strictHooks_eq_none, failure_int, failure_int]

/-- They convert to the same. -/
theorem converted_plainHooks {numeral : Numeral} (hfinite : reader.Finite numeral) :
    (plainHooks reader.float).converted numeral = (strictHooks reader.float).converted numeral := by
  cases numeral with
  | constant name => exact hfinite.elim
  | float text =>
      obtain ⟨q, hq⟩ := hfinite
      simp only [Hooks.converted, Hooks.number, plainHooks, strictHooks, finiteFloat, hq]
  | int digits => rfl

theorem depth_converted (hooks : Hooks) (numeral : Numeral) :
    (hooks.converted numeral).depth = 0 := by
  rw [Hooks.converted]
  cases numeral with
  | constant name =>
      rw [Hooks.number]
      cases hooks.parseConstant name <;> rfl
  | float text =>
      rw [Hooks.number]
      cases hooks.parseFloat text <;> rfl
  | int digits =>
      rw [Hooks.number]
      cases intOf digits <;> rfl

/-- The first number that does not convert decides what is raised. -/
theorem loads_of_failure {text : String} {e : StrictError}
    (h : (reader.read text).numerals.findSome? (strictHooks reader.float).failure = some e) :
    reader.strict.loads text = .error e := by
  show (strictHooks reader.float).loads (reader.read text) = _
  cases hread : reader.read text with
  | value tree =>
      rw [hread] at h
      have hfound : tree.numerals.findSome? (strictHooks reader.float).failure = some e := h
      rw [Hooks.loads, Hooks.value_eq, Hooks.settle, hfound]
  | stopped before refusal =>
      rw [hread] at h
      have hfound : before.findSome? (strictHooks reader.float).failure = some e := h
      rw [Hooks.loads, Hooks.mapM_eq_settle, Hooks.settle, hfound]
      rfl

/-- The content is refused, as it is by what is promised. -/
theorem promised_of_error {content : Bytes} {message : String}
    (hparse : parseJson reader.strict content = .error (.notJson message))
    (haccepts : ∀ value, ¬ reader.Accepts content value) : reader.Promised content where
  value value := by
    rw [hparse]
    exact iff_of_false nofun (haccepts value)
  notJson _ := ⟨message, hparse⟩

end Numbers

section Promise

variable {reader : JsonReader} {content : Bytes} {text : String}
  (hdecode : decodeUtf8 content = some text)

include hdecode

/-- What `parse_json` makes of a text that was read. -/
theorem parseJson_of_value {tree : Tree} (hread : reader.read text = .value tree)
    (hconverts : ∀ numeral ∈ tree.numerals, reader.Converts numeral) :
    parseJson reader.strict content =
      if tree.kept.depth ≤ maxDepth then .ok (tree.fill (strictHooks reader.float).converted)
      else .error (.notJson "Nested too deep") := by
  have hloads : reader.strict.loads text =
      .ok (tree.fill (strictHooks reader.float).converted) := by
    show (strictHooks reader.float).loads (reader.read text) = _
    rw [hread, Hooks.loads, Hooks.value_eq, Hooks.settle_eq_ok_iff]
    exact ⟨fun numeral hnumeral => failure_strictHooks_eq_none.2 (hconverts numeral hnumeral), rfl⟩
  have hdepth : (tree.fill (strictHooks reader.float).converted).depth = tree.kept.depth :=
    Tree.depth_fill (fun numeral => depth_converted _ numeral) tree
  have hdecode' : reader.strict.decode content = some text := hdecode
  simp only [parseJson, hdecode', hloads]
  rw [checked_eq _ 0 (Nat.zero_le _), hdepth, Nat.zero_add]

/-- What it makes of an exception of the parser. -/
theorem parseJson_of_error {e : StrictError} (hloads : reader.strict.loads text = .error e)
    (he : e ≠ .valueError) :
    ∃ message, parseJson reader.strict content = .error (.notJson message) := by
  have hdecode' : reader.strict.decode content = some text := hdecode
  simp only [parseJson, hdecode', hloads]
  cases e with
  | valueError => exact absurd rfl he
  | _ => exact ⟨_, rfl⟩

/-- The one it lets through. -/
theorem parseJson_of_valueError (hloads : reader.strict.loads text = .error .valueError) :
    parseJson reader.strict content = .error (.raised .valueError) := by
  have hdecode' : reader.strict.decode content = some text := hdecode
  simp only [parseJson, hdecode', hloads]

theorem accepts_iff {value : JsonValue} : reader.Accepts content value ↔
    ∃ tree, reader.read text = .value tree ∧
      (∀ numeral ∈ tree.numerals, reader.Converts numeral) ∧ tree.depth ≤ maxDepth ∧
      value = tree.fill (strictHooks reader.float).converted := by
  have hplain : ∀ tree, reader.read text = .value tree →
      (∀ numeral ∈ tree.numerals, reader.Finite numeral) → (reader.plain text = .ok value ↔
        (∀ numeral ∈ tree.numerals, reader.Converts numeral) ∧
        value = tree.fill (strictHooks reader.float).converted) := by
    intro tree hread hfinite
    have hfill := Tree.fill_congr tree fun numeral hnumeral =>
      converted_plainHooks (hfinite numeral hnumeral)
    rw [JsonReader.plain, hread, Hooks.loads, Hooks.value_eq, Hooks.settle_eq_ok_iff, hfill]
    exact and_congr_left fun _ => forall₂_congr fun numeral hnumeral =>
      failure_plainHooks_eq_none (hfinite numeral hnumeral)
  constructor
  · rintro ⟨_, tree, htext, hread, hfinite, hdepth, hvalue⟩
    cases hdecode.symm.trans htext
    obtain ⟨hconverts, rfl⟩ := (hplain tree hread hfinite).1 hvalue
    exact ⟨tree, hread, hconverts, hdepth, rfl⟩
  · rintro ⟨tree, hread, hconverts, hdepth, hvalue⟩
    have hfinite := fun numeral hnumeral => (hconverts numeral hnumeral).1
    exact ⟨text, tree, hdecode, hread, hfinite, hdepth,
      (hplain tree hread hfinite).2 ⟨hconverts, hvalue⟩⟩

theorem digitsFirst_iff : reader.DigitsFirst content ↔
    (reader.read text).numerals.findSome? (strictHooks reader.float).failure =
      some .valueError := by
  rw [List.findSome?_eq_some_iff]
  constructor
  · rintro ⟨_, before, digits, after, htext, hnumerals, hlimit, hbefore⟩
    cases hdecode.symm.trans htext
    refine ⟨before, .int digits, after, hnumerals, ?_, fun numeral hnumeral =>
      failure_strictHooks_eq_none.2 (hbefore numeral hnumeral)⟩
    rw [failure_int, if_pos hlimit]
  · rintro ⟨before, numeral, after, hnumerals, hfailure, hbefore⟩
    rcases failure_strictHooks hfailure with ⟨message, hmessage⟩ | ⟨-, digits, rfl, hlimit⟩
    · cases hmessage
    · exact ⟨text, before, digits, after, hdecode, hnumerals, hlimit, fun numeral hnumeral =>
        failure_strictHooks_eq_none.1 (hbefore numeral hnumeral)⟩

theorem deepUnderRepeated_iff : reader.DeepUnderRepeated content ↔
    ∃ tree, reader.read text = .value tree ∧
      (∀ numeral ∈ tree.numerals, reader.Converts numeral) ∧
      tree.kept.depth ≤ maxDepth ∧ maxDepth < tree.depth := by
  constructor
  · rintro ⟨_, tree, htext, h⟩
    cases hdecode.symm.trans htext
    exact ⟨tree, h⟩
  · rintro ⟨tree, h⟩
    exact ⟨text, tree, hdecode, h⟩

/-- A number does not convert. -/
theorem promised_of_failure {e : StrictError}
    (hfailure : (reader.read text).numerals.findSome? (strictHooks reader.float).failure = some e) :
    reader.Promised content ↔
      ¬ reader.DigitsFirst content ∧ ¬ reader.DeepUnderRepeated content := by
  have hnone : ∀ tree, reader.read text = .value tree →
      ¬ ∀ numeral ∈ tree.numerals, reader.Converts numeral := by
    intro tree hread hconverts
    obtain ⟨numeral, hnumeral, hfound⟩ := List.exists_of_findSome?_eq_some hfailure
    rw [hread] at hnumeral
    rw [failure_strictHooks_eq_none.2 (hconverts numeral hnumeral)] at hfound
    cases hfound
  have haccepts : ∀ value, ¬ reader.Accepts content value := by
    intro value haccepted
    obtain ⟨tree, hread, hconverts, -⟩ := (accepts_iff hdecode).1 haccepted
    exact hnone tree hread hconverts
  have hdeep : ¬ reader.DeepUnderRepeated content := by
    intro h
    obtain ⟨tree, hread, hconverts, -⟩ := (deepUnderRepeated_iff hdecode).1 h
    exact hnone tree hread hconverts
  have hloads := loads_of_failure hfailure
  rw [digitsFirst_iff hdecode, hfailure, Option.some.injEq]
  constructor
  · intro hpromised
    refine ⟨?_, hdeep⟩
    rintro rfl
    obtain ⟨message, hmessage⟩ := hpromised.notJson haccepts
    rw [parseJson_of_valueError hdecode hloads] at hmessage
    cases hmessage
  · rintro ⟨hdigits, -⟩
    obtain ⟨message, hmessage⟩ := parseJson_of_error hdecode hloads hdigits
    exact promised_of_error hmessage haccepts

/-- The text is read no further, but its numbers convert. -/
theorem promised_of_stopped {before : List Numeral} {refusal : Refusal}
    (hread : reader.read text = .stopped before refusal)
    (hfailure : before.findSome? (strictHooks reader.float).failure = none) :
    reader.Promised content := by
  have hloads : reader.strict.loads text = .error refusal.error := by
    show (strictHooks reader.float).loads (reader.read text) = _
    rw [hread, Hooks.loads, Hooks.mapM_eq_settle, Hooks.settle, hfailure]
    rfl
  have hrefusal : refusal.error ≠ .valueError := by
    intro herror
    cases refusal <;> cases herror
  obtain ⟨message, hmessage⟩ := parseJson_of_error hdecode hloads hrefusal
  refine promised_of_error hmessage fun value haccepted => ?_
  obtain ⟨tree, htree, -⟩ := (accepts_iff hdecode).1 haccepted
  rw [hread] at htree
  cases htree

/-- All of it is read, and its numbers convert. -/
theorem promised_of_value {tree : Tree} (hread : reader.read text = .value tree)
    (hconverts : ∀ numeral ∈ tree.numerals, reader.Converts numeral) :
    reader.Promised content ↔ ¬ reader.DeepUnderRepeated content := by
  have haccepts : ∀ value, reader.Accepts content value ↔
      tree.depth ≤ maxDepth ∧ value = tree.fill (strictHooks reader.float).converted := by
    intro value
    simp only [accepts_iff hdecode, hread, Reading.value.injEq, exists_eq_left']
    exact and_iff_right hconverts
  have hdeep : reader.DeepUnderRepeated content ↔
      tree.kept.depth ≤ maxDepth ∧ maxDepth < tree.depth := by
    simp only [deepUnderRepeated_iff hdecode, hread, Reading.value.injEq, exists_eq_left']
    exact and_iff_right hconverts
  have hparse := parseJson_of_value hdecode hread hconverts
  rw [hdeep]
  by_cases hkept : tree.kept.depth ≤ maxDepth
  · rw [if_pos hkept] at hparse
    constructor
    · rintro hpromised ⟨-, hlarge⟩
      exact absurd ((haccepts _).1 ((hpromised.value _).1 hparse)).1 (Nat.not_le.2 hlarge)
    · intro hsmall
      have hdepth : tree.depth ≤ maxDepth := Nat.not_lt.1 fun hlarge => hsmall ⟨hkept, hlarge⟩
      refine ⟨fun value => ?_, fun hnone => absurd ((haccepts _).2 ⟨hdepth, rfl⟩) (hnone _)⟩
      rw [hparse, haccepts, Except.ok.injEq]
      exact ⟨fun h => ⟨hdepth, h.symm⟩, fun h => h.2.symm⟩
  · rw [if_neg hkept] at hparse
    refine iff_of_true (promised_of_error hparse fun value haccepted => ?_)
      fun h => hkept h.1
    exact hkept ((Tree.depth_kept_le tree).trans ((haccepts value).1 haccepted).1)

end Promise

/-- **When `parse_json` does as it promises**: unless an integer of too many
digits is met first, or what nests too deep is under a key that comes again. -/
theorem parseJson_promised_iff (reader : JsonReader) (content : Bytes) :
    reader.Promised content ↔
      ¬ reader.DigitsFirst content ∧ ¬ reader.DeepUnderRepeated content := by
  cases hdecode : decodeUtf8 content with
  | none =>
      have hnone : ∀ text, decodeUtf8 content ≠ some text := fun text h => by
        rw [hdecode] at h
        cases h
      have hdecode' : reader.strict.decode content = none := hdecode
      have hparse : parseJson reader.strict content =
          .error (.notJson "Content is not UTF-8") := by
        simp only [parseJson, hdecode']
      have haccepts : ∀ value, ¬ reader.Accepts content value :=
        fun value ⟨text, _, h, _⟩ => hnone text h
      refine iff_of_true ⟨fun value => ?_, fun _ => ⟨_, hparse⟩⟩
        ⟨fun ⟨text, _, _, _, h, _⟩ => hnone text h, fun ⟨text, _, h, _⟩ => hnone text h⟩
      rw [hparse]
      exact iff_of_false nofun (haccepts value)
  | some text =>
      cases hfailure : (reader.read text).numerals.findSome? (strictHooks reader.float).failure with
      | some e => exact promised_of_failure hdecode hfailure
      | none =>
          have hdigits : ¬ reader.DigitsFirst content := by
            rw [digitsFirst_iff hdecode, hfailure]
            exact nofun
          rw [and_iff_right hdigits]
          cases hread : reader.read text with
          | stopped before refusal =>
              rw [hread] at hfailure
              refine iff_of_true (promised_of_stopped hdecode hread hfailure) fun h => ?_
              obtain ⟨tree, htree, -⟩ := (deepUnderRepeated_iff hdecode).1 h
              rw [hread] at htree
              cases htree
          | value tree =>
              rw [hread, List.findSome?_eq_none_iff] at hfailure
              exact promised_of_value hdecode hread fun numeral hnumeral =>
                failure_strictHooks_eq_none.1 (hfailure numeral hnumeral)

/-! ## Texts of the two kinds -/

/-- The bytes of a text. -/
def encoded (text : String) : Bytes := text.toByteArray.data.toList

theorem decodeUtf8_encoded (text : String) : decodeUtf8 (encoded text) = some text := by
  rw [decodeUtf8, encoded, Array.toArray_toList, String.fromUTF8?, dif_pos text.isValidUTF8]
  rfl

/-- An integer of as many digits. -/
def repunit (n : ℕ) : String := .ofList (List.replicate n '1')

theorem digitsOf_repunit (n : ℕ) : digitsOf (repunit n) = n := by
  rw [digitsOf, repunit, String.toList_ofList, List.filter_replicate_of_pos (by decide),
    List.length_replicate]

/-- Lists in one another. -/
def nestedLists : ℕ → Tree
  | 0 => .list []
  | n + 1 => .list [nestedLists n]

theorem depth_nestedLists (n : ℕ) : (nestedLists n).depth = n + 1 := by
  induction n with
  | zero => rfl
  | succ n ih =>
      rw [nestedLists, Tree.depth, Tree.depthItems, Tree.depthItems, ih, Nat.max_zero]

theorem numerals_nestedLists (n : ℕ) : (nestedLists n).numerals = [] := by
  induction n with
  | zero => rfl
  | succ n ih =>
      rw [nestedLists, Tree.numerals, Tree.numeralsItems, Tree.numeralsItems, ih, List.nil_append]

/-- An object with a key twice, first with lists in one another. -/
def repeatedTree (n : ℕ) : Tree := .dict [("a", nestedLists n), ("a", .null)]

/-- Its text. -/
def repeatedText (n : ℕ) : String :=
  "\x7b\"a\": " ++ .ofList (List.replicate (n + 1) '[' ++ List.replicate (n + 1) ']') ++
    ", \"a\": null\x7d"

/-- The parser on one text. -/
def readerOf (text : String) (tree : Tree) : JsonReader where
  read other := if other = text then .value tree else .stopped [] .badSyntax
  float _ := .finite 0

/-- **An integer of too many digits is raised through, and lists too deep are
not seen under a key that comes again.** -/
theorem parseJson_not_promised :
    parseJson (readerOf (repunit 4301) (.number (.int (repunit 4301)))).strict
        (encoded (repunit 4301)) = .error (.raised .valueError) ∧
      ¬ (readerOf (repunit 4301) (.number (.int (repunit 4301)))).Promised
        (encoded (repunit 4301)) ∧
      ¬ (readerOf (repeatedText 63) (repeatedTree 63)).Promised (encoded (repeatedText 63)) := by
  have hread : ∀ text tree, (readerOf text tree).read text = .value tree :=
    fun text tree => if_pos rfl
  have hfailure : ∀ n, 4300 < n → ((readerOf (repunit n) (.number (.int (repunit n)))).read
      (repunit n)).numerals.findSome?
        (strictHooks (readerOf (repunit n) (.number (.int (repunit n)))).float).failure =
      some .valueError := by
    intro n hn
    have hlimit : maxStrDigits < digitsOf (repunit n) := hn.trans_eq (digitsOf_repunit n).symm
    rw [hread, Reading.numerals, Tree.numerals, List.findSome?_singleton, failure_int,
      if_pos hlimit]
  have hdigits := hfailure 4301 (by decide)
  refine ⟨parseJson_of_valueError (decodeUtf8_encoded _) (loads_of_failure hdigits), ?_, ?_⟩
  · rw [promised_of_failure (decodeUtf8_encoded _) hdigits, digitsFirst_iff (decodeUtf8_encoded _)]
    exact fun h => h.1 hdigits
  · have hnumerals : (repeatedTree 63).numerals = [] := by
      rw [repeatedTree, Tree.numerals, Tree.numeralsFields, numerals_nestedLists]
      rfl
    have hconverts : ∀ numeral ∈ (repeatedTree 63).numerals,
        (readerOf (repeatedText 63) (repeatedTree 63)).Converts numeral := by
      rw [hnumerals]
      exact fun _ h => absurd h List.not_mem_nil
    have hdeep : maxDepth < (repeatedTree 63).depth := by
      rw [repeatedTree, Tree.depth, Tree.depthFields, depth_nestedLists]
      decide
    rw [promised_of_value (decodeUtf8_encoded _) (hread _ _) hconverts, not_not,
      deepUnderRepeated_iff (decodeUtf8_encoded _)]
    exact ⟨_, hread _ _, hconverts, by decide, hdeep⟩

end Capture

end Tydomio
