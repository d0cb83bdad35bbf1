import Tydomio.Mcp.Writes
import Tydomio.Mcp.Model.View
import Mathlib

/-!
# Reads and writes agree on ids

A write tool reads the integers out of its target's text, `get_state`
writes them back into one: the texts are the same unless a number has a
leading zero. Under the text that `get_state` writes, the last item listed
shows the usage a write to the target acts on.
-/

namespace Tydomio

open Common

namespace Mcp

/-! ## The texts of ids -/

/-- The id that `get_state` lists a target under. -/
def Target.text : Target → String
  | endpoint deviceId endpointId' => endpointId deviceId endpointId'
  | group groupId' => groupId groupId'
  | area areaId' => areaId areaId'

/-- The kind and the numbers of a text. -/
def written (kind : Char) (numbers : List (List Char)) : List Char :=
  [':'].intercalate ([kind] :: numbers)

theorem split_written {kind : Char} {numbers : List (List Char)} (hkind : kind ≠ ':')
    (hnumbers : ∀ n ∈ numbers, ':' ∉ n) :
    Text.split [':'] (written kind numbers) = [kind] :: numbers := by
  rw [Text.split_singleton, written, List.splitOn_intercalate ':' _ (List.cons_ne_nil _ _)]
  intro n hn
  rcases List.mem_cons.1 hn with rfl | hn
  · rw [List.mem_singleton]
    exact hkind.symm
  · exact hnumbers n hn

theorem toList_endpointId (deviceId endpointId' : ℤ) :
    (endpointId deviceId endpointId').toList =
      written 'e' [(toString deviceId).toList, (toString endpointId').toList] := by
  simp [endpointId, written, String.toList_append, List.intercalate_cons_cons]

theorem toList_groupId (groupId' : ℤ) :
    (groupId groupId').toList = written 'g' [(toString groupId').toList] := by
  simp [groupId, written, String.toList_append, List.intercalate_cons_cons]

theorem toList_areaId (areaId' : ℤ) :
    (areaId areaId').toList = written 'a' [(toString areaId').toList] := by
  simp [areaId, written, String.toList_append, List.intercalate_cons_cons]

/-- An integer is written without a colon. -/
theorem colon_not_mem_toString (n : ℤ) : ':' ∉ (toString n).toList := by
  have hdigits : ∀ m : ℕ, ':' ∉ (Nat.repr m).toList := by
    intro m hm
    rw [Nat.toList_repr] at hm
    exact absurd (Nat.isDigit_of_mem_toDigits (by decide) (by decide) hm) (by decide)
  cases n with
  | ofNat m => exact hdigits m
  | negSucc m =>
      intro hm
      rw [Int.toString_eq_repr, Int.repr, String.toList_append, List.mem_append] at hm
      rcases hm with hm | hm
      · exact absurd hm (by decide)
      · exact hdigits _ hm

theorem toList_toString_injective {m n : ℤ} (h : (toString m).toList = (toString n).toList) :
    m = n :=
  Int.repr_injective (String.toList_inj.1 h)

/-! ## The text of a number -/

/-- The digits of a number without leading zeros. -/
def canonical (number : List Char) : List Char :=
  Nat.toDigits 10 (Nat.ofDigitChars 10 number 0)

theorem isNumber_iff {number : List Char} :
    isNumber number = true ↔
      1 ≤ number.length ∧ number.length ≤ 15 ∧ ∀ c ∈ number, c.isDigit = true := by
  simp [isNumber, and_assoc]

theorem toList_toString_numberOf (number : List Char) :
    (toString (numberOf number)).toList = canonical number := by
  rw [canonical, ← Nat.toList_repr]
  rfl

theorem isNumber_canonical {number : List Char} (h : isNumber number = true) :
    isNumber (canonical number) = true := by
  obtain ⟨-, hle, hdigits⟩ := isNumber_iff.1 h
  rw [isNumber_iff]
  refine ⟨Nat.length_toDigits_pos, (Nat.length_toDigits_le_iff (by decide) (by decide)).2 ?_, ?_⟩
  · calc Nat.ofDigitChars 10 number 0 < 10 ^ number.length := Text.ofDigitChars_lt hdigits
      _ ≤ 10 ^ 15 := Nat.pow_le_pow_right (by decide) hle
  · intro c hc
    exact Nat.isDigit_of_mem_toDigits (by decide) (by decide) hc

theorem numberOf_canonical (number : List Char) :
    numberOf (canonical number) = numberOf number := by
  rw [numberOf, canonical, Nat.ofDigitChars_ten_toDigits]
  rfl

theorem colon_not_mem_of_isNumber {number : List Char} (h : isNumber number = true) :
    ':' ∉ number := by
  intro hmem
  exact absurd ((isNumber_iff.1 h).2.2 _ hmem) (by decide)

/-- A number is as `get_state` writes it unless it has a leading zero. -/
theorem canonical_eq_iff {number : List Char} (h : isNumber number = true) :
    canonical number = number ↔ (number.head? = some '0' → number = ['0']) := by
  obtain ⟨hpos, -, hdigits⟩ := isNumber_iff.1 h
  exact Text.toDigits_ofDigitChars_iff (List.length_pos_iff.1 hpos) hdigits

/-! ## A target and its text -/

/-- No number of a text has a leading zero. -/
def NoLeadingZero (text : String) : Prop :=
  ∀ number ∈ (Text.split [':'] text.toList).tail, number.head? = some '0' → number = ['0']

/-- A target's text: its numbers, and how they are written back. -/
theorem parse_eq_some {text : String} {target : Target} (h : Target.parse text = some target) :
    ∃ kind numbers, kind ≠ ':' ∧ (∀ n ∈ numbers, isNumber n = true) ∧
      Text.split [':'] text.toList = [kind] :: numbers ∧
      target.text.toList = written kind (numbers.map canonical) ∧
      ∀ text', Text.split [':'] text'.toList = [kind] :: numbers.map canonical →
        Target.parse text' = some target := by
  unfold Target.parse at h
  split at h
  · rename_i m n hsplit
    split at h
    · rename_i hnumbers
      cases h
      obtain ⟨hm, hn⟩ := Bool.and_eq_true_iff.1 hnumbers
      refine ⟨'e', [m, n], by decide, by simp [hm, hn], hsplit, ?_, fun text' hsplit' => ?_⟩
      · simp only [Target.text, toList_endpointId, toList_toString_numberOf, List.map_cons,
          List.map_nil]
      · simp only [List.map_cons, List.map_nil] at hsplit'
        simp only [Target.parse, hsplit', isNumber_canonical hm, isNumber_canonical hn,
          numberOf_canonical, Bool.and_self, if_true]
    · cases h
  · rename_i n hsplit
    split at h
    · rename_i hn
      cases h
      refine ⟨'g', [n], by decide, by simp [hn], hsplit, ?_, fun text' hsplit' => ?_⟩
      · simp only [Target.text, toList_groupId, toList_toString_numberOf, List.map_cons,
          List.map_nil]
      · simp only [List.map_cons, List.map_nil] at hsplit'
        simp only [Target.parse, hsplit', isNumber_canonical hn, numberOf_canonical, if_true]
    · cases h
  · rename_i n hsplit
    split at h
    · rename_i hn
      cases h
      refine ⟨'a', [n], by decide, by simp [hn], hsplit, ?_, fun text' hsplit' => ?_⟩
      · simp only [Target.text, toList_areaId, toList_toString_numberOf, List.map_cons,
          List.map_nil]
      · simp only [List.map_cons, List.map_nil] at hsplit'
        simp only [Target.parse, hsplit', isNumber_canonical hn, numberOf_canonical, if_true]
    · cases h
  · cases h

/-- **The id of a target is read as the target again.** -/
theorem parse_text {text : String} {target : Target} (h : Target.parse text = some target) :
    Target.parse target.text = some target := by
  obtain ⟨kind, numbers, hkind, hnumbers, -, htext, hparse⟩ := parse_eq_some h
  refine hparse _ ?_
  rw [htext, split_written hkind]
  intro n hn
  obtain ⟨number, hmem, rfl⟩ := List.mem_map.1 hn
  exact colon_not_mem_of_isNumber (isNumber_canonical (hnumbers number hmem))

/-- **A target's text is its id unless a number has a leading zero.** -/
theorem text_eq_iff {text : String} {target : Target} (h : Target.parse text = some target) :
    target.text = text ↔ NoLeadingZero text := by
  obtain ⟨kind, numbers, hkind, hnumbers, hsplit, htext, -⟩ := parse_eq_some h
  have hwritten : text.toList = written kind numbers := by
    rw [written, ← hsplit, Text.split_singleton, List.intercalate_splitOn]
  have hcanonical : ∀ n ∈ numbers.map canonical, ':' ∉ n := by
    intro n hn
    obtain ⟨number, hmem, rfl⟩ := List.mem_map.1 hn
    exact colon_not_mem_of_isNumber (isNumber_canonical (hnumbers number hmem))
  have hmap : target.text = text ↔ numbers.map canonical = numbers := by
    rw [← String.toList_inj, htext, hwritten]
    refine ⟨fun heq => ?_, fun heq => by rw [heq]⟩
    -- equal texts have the same pieces between their colons
    have hpieces := congrArg (Text.split [':']) heq
    rw [split_written hkind hcanonical,
      split_written hkind fun n hn => colon_not_mem_of_isNumber (hnumbers n hn)] at hpieces
    exact (List.cons.inj hpieces).2
  have heach : numbers.map canonical = numbers ↔ ∀ n ∈ numbers, canonical n = n := by
    have hid := List.map_inj_left (l := numbers) (f := canonical) (g := id)
    rwa [List.map_id] at hid
  rw [hmap, heach, NoLeadingZero, hsplit, List.tail_cons]
  exact forall₂_congr fun n hn => canonical_eq_iff (hnumbers n hn)

/-! ## Ids are distinct -/

theorem endpointId_inj {deviceId endpointId' deviceId' endpointId'' : ℤ} :
    endpointId deviceId endpointId' = endpointId deviceId' endpointId'' ↔
      (deviceId, endpointId') = (deviceId', endpointId'') := by
  refine ⟨fun h => ?_, fun h => by cases h; rfl⟩
  have hpieces := congrArg (fun id => Text.split [':'] id.toList) h
  have hno : ∀ m n : ℤ, ∀ piece ∈ [(toString m).toList, (toString n).toList], ':' ∉ piece := by
    intro m n piece hpiece
    simp only [List.mem_cons, List.not_mem_nil, or_false] at hpiece
    rcases hpiece with rfl | rfl
    · exact colon_not_mem_toString m
    · exact colon_not_mem_toString n
  simp only [toList_endpointId, split_written (by decide : 'e' ≠ ':') (hno _ _),
    List.cons.injEq] at hpieces
  obtain ⟨-, hdevice, hendpoint, -⟩ := hpieces
  rw [toList_toString_injective hdevice, toList_toString_injective hendpoint]

theorem areaId_inj {id id' : ℤ} : areaId id = areaId id' ↔ id = id' := by
  refine ⟨fun h => ?_, fun h => by rw [h]⟩
  have hlists := congrArg String.toList h
  simp only [areaId, String.toList_append, List.append_cancel_left_eq] at hlists
  exact toList_toString_injective hlists

theorem endpointId_ne_areaId (deviceId endpointId' id : ℤ) :
    endpointId deviceId endpointId' ≠ areaId id := by
  intro h
  have hheads := congrArg (fun id => id.toList.head?) h
  simp [endpointId, areaId, String.toList_append] at hheads

/-! ## What is listed -/

section Listed

variable {sameLetter : Char → Char → Bool} {cache : Cache} {secrets : Secrets} {config : Config}

/-- The kinds listed under an id. -/
def StateResult.kindsOf (result : StateResult) (id : String) : List String :=
  (result.items.filter fun item => item.id = id).map Item.kind

theorem items_getState (hconfig : cache.config = some config) (withGroups : Bool) :
    (getState sameLetter cache secrets none withGroups).items =
      config.endpoints.map (endpointItem sameLetter cache secrets) ++
        config.areas.map (areaItem sameLetter cache secrets) := by
  simp [getState, hconfig]

/-- Under the id of an endpoint: the usages of its entries. -/
theorem kindsOf_endpointId (hconfig : cache.config = some config) (withGroups : Bool)
    (deviceId endpointId' : ℤ) :
    (getState sameLetter cache secrets none withGroups).kindsOf (endpointId deviceId endpointId') =
      (Dict.itemsOf (deviceId, endpointId')
        (config.endpoints.map fun e => ((e.idDevice, e.idEndpoint), e.lastUsage))).map
          (sanitize sameLetter secrets) := by
  have hareas : (config.areas.map (areaItem sameLetter cache secrets)).filter
      (fun item => item.id = endpointId deviceId endpointId') = [] := by
    rw [List.filter_eq_nil_iff]
    intro item hitem
    obtain ⟨area, -, rfl⟩ := List.mem_map.1 hitem
    have hne := (endpointId_ne_areaId deviceId endpointId' area.id).symm
    exact fun h => hne (of_decide_eq_true h)
  rw [StateResult.kindsOf, items_getState hconfig, List.filter_append, hareas, List.append_nil,
    Dict.itemsOf_map, List.filter_map, List.map_map, List.map_map]
  congr 1
  refine List.filter_congr fun endpoint _ => ?_
  simp only [Function.comp_apply, endpointItem, Mcp.item, endpointId_inj]

/-- Under the id of an area: `area`, once for each entry. -/
theorem kindsOf_areaId (hconfig : cache.config = some config) (withGroups : Bool) (id : ℤ) :
    (getState sameLetter cache secrets none withGroups).kindsOf (areaId id) =
      (Dict.itemsOf id (config.areas.map fun a => (a.id, a.lastUsage))).map
        fun _ => sanitize sameLetter secrets "area" := by
  have hendpoints : (config.endpoints.map (endpointItem sameLetter cache secrets)).filter
      (fun item => item.id = areaId id) = [] := by
    rw [List.filter_eq_nil_iff]
    intro item hitem
    obtain ⟨endpoint, -, rfl⟩ := List.mem_map.1 hitem
    have hne := endpointId_ne_areaId endpoint.idDevice endpoint.idEndpoint id
    exact fun h => hne (of_decide_eq_true h)
  rw [StateResult.kindsOf, items_getState hconfig, List.filter_append, hendpoints,
    List.nil_append, Dict.itemsOf_map, List.filter_map, List.map_map, List.map_map]
  refine congrArg (List.map _) (List.filter_congr fun area _ => ?_)
  simp only [Function.comp_apply, areaItem, Mcp.item, areaId_inj]

/-- **What `get_state` shows of a target of a usage**: the usage last under
its id, or `area`, or a shutter group. `shown` is what is done to a kind. -/
def Shows (result : StateResult) (shown : String → String) (usage : String) : Target → Prop
  | .endpoint deviceId endpointId' =>
      (result.kindsOf (endpointId deviceId endpointId')).getLast? = some (shown usage)
  | .area id => (result.kindsOf (areaId id)).getLast? = some (shown "area")
  | .group id => usage = "shutter" ∧
      ∃ groups group, result.groups = some groups ∧ group ∈ groups ∧ group.id = groupId id

/-- A target that the config gives a usage is shown with it. -/
theorem shows_of_usage {target : Target} {usage : String} (hconfig : cache.config = some config)
    (husage : target.usage? config = some usage)
    (hgroup : ∀ id, target = .group id → usage = "shutter") :
    Shows (getState sameLetter cache secrets none true) (sanitize sameLetter secrets) usage
      target := by
  cases target with
  | endpoint deviceId endpointId' =>
      have hlast := (Dict.get?_ofList_eq_getLast? _ _).symm.trans husage
      rw [Shows, kindsOf_endpointId hconfig, List.getLast?_map, hlast]
      rfl
  | area id =>
      have hlast := (Dict.get?_ofList_eq_getLast? _ _).symm.trans husage
      rw [Shows, kindsOf_areaId hconfig, List.getLast?_map, hlast]
      rfl
  | group id =>
      obtain rfl := hgroup id rfl
      have hlast := (Dict.get?_ofList_eq_getLast? _ _).symm.trans husage
      have hmem := List.mem_of_getLast? hlast
      rw [Dict.itemsOf_map] at hmem
      obtain ⟨group, hgroup, hshutter⟩ := List.mem_map.1 hmem
      obtain ⟨hgroup, hid⟩ := List.mem_filter.1 hgroup
      refine ⟨rfl, _, groupItem sameLetter secrets group, rfl, List.mem_map_of_mem ?_, ?_⟩
      · rw [hconfig]
        exact List.mem_filter.2 ⟨hgroup, decide_eq_true hshutter⟩
      · rw [← of_decide_eq_true hid]
        rfl

/-- An id with a kind under it is not reported as unknown. -/
theorem unknownIds_eq_nil {id kind : String} (hconfig : cache.config = some config)
    (h : ((getState sameLetter cache secrets none true).kindsOf id).getLast? = some kind) :
    (getState sameLetter cache secrets (some [id]) true).unknownIds = [] := by
  obtain ⟨item, hitem, -⟩ := List.mem_map.1 (List.mem_of_getLast? h)
  obtain ⟨hitem, hid⟩ := List.mem_filter.1 hitem
  rw [items_getState hconfig] at hitem
  have hmem : id ∈ (config.endpoints.map (endpointItem sameLetter cache secrets) ++
      config.areas.map (areaItem sameLetter cache secrets)).map Item.id := by
    rw [← of_decide_eq_true hid]
    exact List.mem_map_of_mem hitem
  simp only [getState, hconfig, Option.map_some, Option.getD_some]
  rw [List.filter_eq_nil_iff]
  intro id' hid'
  rw [List.mem_singleton.1 hid']
  exact fun hunknown => of_decide_eq_true hunknown hmem

end Listed

/-! ## Writes and reads -/

theorem idPattern_text {text : String} {target : Target} (h : Target.parse text = some target)
    (hgroup : ∀ id, target ≠ .group id) : idPattern target.text = true := by
  rw [idPattern, parse_text h]
  cases target with
  | endpoint deviceId endpointId' => rfl
  | area id => rfl
  | group id => exact absurd rfl (hgroup id)

/-- A call of one id that the pattern admits. -/
theorem callGetState_one {sameLetter : Char → Char → Bool} {cache : Cache} {secrets : Secrets}
    {id : String} (h : idPattern id = true) :
    callGetState sameLetter cache secrets true (Dict.ofList [("ids", .list [.str id])]) =
      some (getState sameLetter cache secrets (some [id]) true) := by
  have hvalid : GetStateInput.modelValidate (Dict.ofList [("ids", .list [.str id])]) =
      some [id] := by
    have hmapM : [JsonValue.str id].mapM textOf = some [id] := rfl
    have hget : (Dict.ofList [("ids", JsonValue.list [.str id])]).get? "ids" =
        some (.list [.str id]) := rfl
    have hkeys : (Dict.ofList [("ids", JsonValue.list [.str id])]).keys.all (· ∈ ["ids"]) = true :=
      rfl
    rw [GetStateInput.modelValidate, if_pos hkeys, hget]
    simp [hmapM, h]
  rw [callGetState, hvalid]
  rfl

/-- **What is written is what is listed.** The target of a write that is
sent is shown by `get_state` under its id, which is the target's text
unless a number in it has a leading zero. -/
theorem sent_listed {writes : Writes} {tool : Tool} {arguments : Dict String JsonValue}
    {transactionId : ℤ} {clock : ℚ} {text : String} {prepared : Prepared}
    (sameLetter : Char → Char → Bool) (secrets : Secrets)
    (h : (writes.begin tool arguments transactionId clock).1 = .sends text prepared) :
    ∃ target config usage model,
      arguments.get? "target" = some (.str text) ∧ Target.parse text = some target ∧
      (target.text = text ↔ NoLeadingZero text) ∧
      writes.cache.config = some config ∧ target.usage? config = some usage ∧
      Allowed tool target usage model ∧
      prepared.request.request.request.url = target.url ∧
      (∃ result, callGetState sameLetter writes.cache secrets true ∅ = some result ∧
        Shows result (sanitize sameLetter secrets) usage target) ∧
      ((∀ id, target ≠ .group id) → ∃ result,
        callGetState sameLetter writes.cache secrets true
          (Dict.ofList [("ids", .list [.str target.text])]) = some result ∧
        result.unknownIds = []) := by
  rcases begin_cases writes tool arguments transactionId clock with
    ⟨text', prepare, installation, config, prepared', hparse, hsynced, hprepared, -, hbegin⟩ |
    ⟨hno, -⟩
  · rw [hbegin] at h
    obtain ⟨rfl, rfl⟩ := Begun.sends.inj h
    obtain ⟨-, hconfig⟩ := syncedConfig_eq_ok hsynced
    obtain ⟨target, htext, htarget, hprepares⟩ := prepares_of_parse hparse hprepared
    obtain ⟨usage, model, -, husage, hallowed, -⟩ := hprepares.addressed
    have hgroup : ∀ id, target = .group id → usage = "shutter" := by
      rintro id rfl
      cases hallowed
      rfl
    have hshows : Shows (getState sameLetter writes.cache secrets none true)
        (sanitize sameLetter secrets) usage target :=
      shows_of_usage hconfig husage hgroup
    refine ⟨target, config, usage, model, htext, htarget, text_eq_iff htarget, hconfig, husage,
      hallowed, hprepares.url, ⟨_, rfl, hshows⟩, fun hnotGroup => ?_⟩
    refine ⟨_, callGetState_one (idPattern_text htarget hnotGroup), ?_⟩
    cases target with
    | endpoint deviceId endpointId' => exact unknownIds_eq_nil hconfig hshows
    | area id => exact unknownIds_eq_nil hconfig hshows
    | group id => exact absurd rfl (hnotGroup id)
  · exact absurd h (hno text prepared)

/-- Secrets none of which is in a usage. -/
def plainSecrets : Secrets := ⟨"hunter2", none, "001122AABBCC"⟩

/-- Letters but for their case. -/
def asciiLetter (c d : Char) : Bool := c.toLower = d.toLower

theorem sent_listed_shutter :
    ∃ target, Target.parse "e:10:1" = some target ∧ target.text = "e:10:1" ∧
      ∃ result, callGetState asciiLetter shutterCache plainSecrets true ∅ = some result ∧
        Shows result (sanitize asciiLetter plainSecrets) "shutter" target := by
  have hsent : ((⟨shutterCache, 1, none⟩ : Writes).begin .setShutter (halfOpen "e:10:1") 1 0).1 =
      .sends "e:10:1" _ := rfl
  obtain ⟨target, config, usage, model, -, htarget, -, -, -, hallowed, -, hlisted, -⟩ :=
    sent_listed asciiLetter plainSecrets hsent
  cases htarget
  cases hallowed
  exact ⟨_, rfl, rfl, hlisted⟩

/-- A cache in sync with a config of two entries of one endpoint. -/
def repeatedCache : Cache :=
  ((Cache.init.applyConfig ⟨0, [⟨10, 1, "Kitchen", "boiler"⟩, ⟨10, 1, "Kitchen", "shutter"⟩],
    [], []⟩).markConnected).markSynced 0

/-- **The texts can differ, and an id can have other kinds under it**: a
number with a leading zero is written and not listed, both entries of an
endpoint are listed, and a secret is scrubbed out of a usage. -/
theorem sent_not_listed :
    (∃ prepared, ((⟨shutterCache, 1, none⟩ : Writes).begin .setShutter (halfOpen "e:010:1") 1 0).1 =
        .sends "e:010:1" prepared) ∧
      (∀ sameLetter secrets, ∃ result,
        callGetState sameLetter shutterCache secrets true ∅ = some result ∧
          result.items.map Item.id = ["e:10:1"] ∧ result.groups = some []) ∧
      (∀ sameLetter secrets, ∃ result,
        callGetState sameLetter shutterCache secrets true
          (Dict.ofList [("ids", .list [.str "e:010:1"])]) = some result ∧
          result.unknownIds = ["e:010:1"]) ∧
      (∃ prepared,
        ((⟨repeatedCache, 1, none⟩ : Writes).begin .setShutter (halfOpen "e:10:1") 1 0).1 =
          .sends "e:10:1" prepared) ∧
      (∃ result, callGetState asciiLetter repeatedCache plainSecrets true ∅ = some result ∧
        result.kindsOf "e:10:1" = ["boiler", "shutter"]) ∧
      ∃ result, callGetState asciiLetter shutterCache ⟨"shut", none, "001122AABBCC"⟩ true ∅ =
        some result ∧ result.kindsOf "e:10:1" = ["<redacted>ter"] := by
  refine ⟨⟨_, rfl⟩, fun sameLetter secrets => ⟨_, rfl, rfl, rfl⟩, fun sameLetter secrets => ?_,
    ⟨_, rfl⟩, ⟨_, rfl, ?_⟩, ⟨_, rfl, ?_⟩⟩
  · exact ⟨_, callGetState_one rfl, rfl⟩
  · decide +kernel
  · decide +kernel

end Mcp

end Tydomio
