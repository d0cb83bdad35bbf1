import Tydomio.Common.Json.RoundTrip
import Tydomio.Mcp.Writes
import Tydomio.Protocol.Wire

/-!
# What a call puts on the wire

The bytes of a write, split as a message and read as JSON, tell the target of
the call, the fields it gave and the transaction id, and nothing else: two
calls that send the same bytes asked for the same write.
-/

namespace Tydomio

open Common Protocol

namespace Mcp

/-! ## The body as JSON -/

/-- A written value as it is read. -/
def valueTree : WriteValue → Json.Tree
  | .int n => .number (.int (toString n).toList)
  | .float q => .number (.float (floatText q).toList)
  | .enum member => .str member

/-- An item of a body. -/
def itemTree (item : String × WriteValue) : Json.Tree :=
  .dict [("name", .str item.1), ("value", valueTree item.2)]

/-- **A body as it is read.** -/
def bodyTree (body : WriteBody) : Json.Tree := .list (body.map itemTree)

/-- The style of `json.dumps`. -/
def wireStyle : Json.Style := ⟨true, none, 1, 1⟩

/-- A text of ASCII that is written without an escape. -/
def Plain (text : String) : Prop :=
  ∀ c ∈ text.toList, Json.writeChar true c = [c] ∧ c.toNat < 128

instance (text : String) : Decidable (Plain text) := List.decidableBAll _ text.toList

/-- An item without an escape. -/
structure PlainItem (item : String × WriteValue) : Prop where
  name : Plain item.1
  member : ∀ member, item.2 = .enum member → Plain member

theorem Plain.writeString {text : String} (h : Plain text) :
    Json.writeString true text = '"' :: text.toList ++ ['"'] := by
  have hall : text.toList.flatMap (Json.writeChar true) = text.toList :=
    (List.flatMap_congr fun c hc => (h c hc).1).trans (List.flatMap_singleton' _)
  rw [Json.writeString, hall]

/-- The text of an item. -/
def itemText (item : String × WriteValue) : String :=
  "\x7b\"name\": \"" ++ item.1 ++ "\", \"value\": " ++ valueText item.2 ++ "\x7d"

theorem write_itemTree {item : String × WriteValue} (h : PlainItem item) :
    Json.write wireStyle 1 (itemTree item) = (itemText item).toList := by
  have hvalue : Json.write wireStyle 2 (valueTree item.2) = (valueText item.2).toList := by
    obtain ⟨name, v⟩ := item
    cases v with
    | int n => rfl
    | float q => rfl
    | enum member =>
        rw [valueTree, Json.write, valueText, String.toList_append, String.toList_append]
        exact (h.member member rfl).writeString
  rw [itemTree, Json.write, Json.writeFields, Json.writeFields, hvalue, Json.write,
    show wireStyle.ascii = true from rfl, h.name.writeString, itemText]
  simp [Json.newline, Json.itemSeparator, Json.writeKey, Json.writeString, Json.writeChar,
    Json.shortEscape, wireStyle]

theorem writeItems_itemTrees {items : List (String × WriteValue)}
    (h : ∀ item ∈ items, PlainItem item) :
    Json.writeItems wireStyle 1 (items.map itemTree) =
      items.flatMap fun item => [',', ' '] ++ (itemText item).toList := by
  induction items with
  | nil => rfl
  | cons item items ih =>
      rw [List.map_cons, Json.writeItems, write_itemTree (h item List.mem_cons_self),
        ih fun item' hitem => h item' (List.mem_cons_of_mem _ hitem), List.flatMap_cons]
      rfl

/-- Texts with commas between them. -/
theorem intercalate_cons (item : List Char) (items : List (List Char)) :
    [',', ' '].intercalate (item :: items) = item ++ items.flatMap ([',', ' '] ++ ·) := by
  induction items generalizing item with
  | nil => simp
  | cons item' items ih =>
      rw [List.intercalate_cons_of_ne_nil (List.cons_ne_nil _ _), ih, List.flatMap_cons]
      simp

/-- The text of a body. -/
def bodyText (body : WriteBody) : String := "[" ++ ", ".intercalate (body.map itemText) ++ "]"

/-- **The content of a write is JSON**, the text of its body. -/
theorem write_bodyTree {body : WriteBody} (h : ∀ item ∈ body, PlainItem item) :
    Json.write wireStyle 0 (bodyTree body) = (bodyText body).toList := by
  cases body with
  | nil => rfl
  | cons item items =>
      have hitems := writeItems_itemTrees fun item' hitem => h item' (List.mem_cons_of_mem _ hitem)
      rw [bodyTree, List.map_cons, Json.write, write_itemTree (h item List.mem_cons_self), hitems,
        bodyText, String.toList_append, String.toList_append, String.toList_intercalate,
        List.map_cons, List.map_cons]
      show _ = _ ++ [',', ' '].intercalate _ ++ _
      rw [intercalate_cons]
      simp [Json.newline, wireStyle, List.flatMap_map]

/-- A half is written with a digit after its point. -/
theorem proper_floatText (q : ℚ) : (Json.Numeral.float (floatText q).toList).Proper := by
  rw [floatText, String.toList_append]
  split
  · exact Json.proper_pointText q.floor rfl
  · exact Json.proper_pointText q.floor rfl

theorem proper_valueTree (v : WriteValue) :
    ∀ numeral ∈ (valueTree v).numerals, numeral.Proper := by
  intro numeral hmem
  cases v with
  | int n =>
      obtain rfl := List.mem_singleton.1 hmem
      exact Json.proper_intText n
  | float q =>
      obtain rfl := List.mem_singleton.1 hmem
      exact proper_floatText q
  | enum member => exact absurd hmem List.not_mem_nil

theorem proper_bodyTree (body : WriteBody) :
    ∀ numeral ∈ (bodyTree body).numerals, numeral.Proper := by
  rw [bodyTree, Json.Tree.numerals]
  induction body with
  | nil => exact fun numeral hmem => absurd hmem List.not_mem_nil
  | cons item body ih =>
      intro numeral hmem
      rw [List.map_cons, Json.Tree.numeralsItems, List.mem_append] at hmem
      rcases hmem with hmem | hmem
      · refine proper_valueTree item.2 numeral ?_
        simpa [itemTree, Json.Tree.numerals, Json.Tree.numeralsFields] using hmem
      · exact ih numeral hmem

theorem depth_bodyTree (body : WriteBody) : (bodyTree body).depth ≤ 2 := by
  have hvalue : ∀ v : WriteValue, (valueTree v).depth = 0 := by
    intro v
    cases v <;> rfl
  have hitems : Json.Tree.depthItems (body.map itemTree) ≤ 1 := by
    induction body with
    | nil => exact Nat.zero_le 1
    | cons item body ih =>
        have hname : (Json.Tree.str item.1).depth = 0 := rfl
        rw [List.map_cons, Json.Tree.depthItems, itemTree, Json.Tree.depth,
          Json.Tree.depthFields, Json.Tree.depthFields, Json.Tree.depthFields, hvalue, hname]
        omega
  rw [bodyTree, Json.Tree.depth]
  omega

/-- **The body of a write is read.** -/
theorem scan_bodyText {body : WriteBody} (h : ∀ item ∈ body, PlainItem item) :
    Json.scan 2 (bodyText body).toList = .value (bodyTree body) := by
  have hblanks : ∀ c ∈ ([] : List Char), Json.isBlank c = true :=
    fun c hc => absurd hc List.not_mem_nil
  have hscan := Json.scan_write wireStyle (depth_bodyTree body) (proper_bodyTree body) hblanks
  rw [List.append_nil, write_bodyTree h] at hscan
  exact hscan

/-- The members of an enumeration. -/
def membersOf : FieldKind → List String
  | .enum members => members
  | _ => []

/-- The names and the members of the write models have no escape. -/
theorem plain_fields (model : WriteModel) : ∀ field ∈ model.fields, Plain field.aliasName ∧
    ∀ member ∈ membersOf field.kind, Plain member := by
  cases model <;> decide +kernel

theorem plain_body (write : UsageWrite) : ∀ item ∈ write.body, PlainItem item := by
  rintro ⟨name, v⟩ hitem
  obtain ⟨field, hfield, hvalue, rfl⟩ := mem_bodyOf.1 hitem
  obtain ⟨hname, hmembers⟩ := plain_fields write.model field hfield
  have hvalid := write.valid field v hvalue
  refine ⟨hname, fun member hmember => hmembers member ?_⟩
  obtain rfl : v = .enum member := hmember
  cases hkind : field.kind with
  | enum members =>
      rw [hkind] at hvalid
      exact hvalid
  | int _ _ | float _ _ _ =>
      rw [hkind] at hvalid
      exact hvalid.elim

/-! ## ASCII -/

/-- A text of ASCII. -/
def IsAscii (text : List Char) : Prop := ∀ c ∈ text, c.toNat < 128

instance (text : List Char) : Decidable (IsAscii text) := List.decidableBAll _ text

theorem IsAscii.append {text text' : List Char} (h : IsAscii text) (h' : IsAscii text') :
    IsAscii (text ++ text') :=
  fun c hc => (List.mem_append.1 hc).elim (h c) (h' c)

theorem isAscii_intText (n : ℤ) : IsAscii (toString n).toList :=
  fun c hc => ((isVisible_toString_int n).isLine c hc).1

theorem isAscii_valueText {item : String × WriteValue} (h : PlainItem item) :
    IsAscii (valueText item.2).toList := by
  obtain ⟨name, v⟩ := item
  cases v with
  | int n => exact isAscii_intText n
  | float q =>
      have hpoint : IsAscii (if q = q.floor then ".0" else ".5").toList := by
        split <;> decide
      rw [valueText, floatText, String.toList_append]
      exact (isAscii_intText _).append hpoint
  | enum member =>
      have hmember : IsAscii member.toList := fun c hc => (h.member member rfl c hc).2
      simp only [valueText, String.toList_append]
      exact ((by decide : IsAscii _).append hmember).append (by decide)

theorem isAscii_bodyText {body : WriteBody} (h : ∀ item ∈ body, PlainItem item) :
    IsAscii (bodyText body).toList := by
  have hitem : ∀ item ∈ body, IsAscii (itemText item).toList := by
    intro item hmem
    have hname : IsAscii item.1.toList := fun c hc => ((h item hmem).name c hc).2
    simp only [itemText, String.toList_append]
    exact ((((by decide : IsAscii _).append hname).append (by decide)).append
      (isAscii_valueText (h item hmem))).append (by decide)
  have hitems : IsAscii (", ".intercalate (body.map itemText)).toList := by
    intro c hc
    rw [String.toList_intercalate] at hc
    rcases Text.mem_intercalate hc with hsep | ⟨text, htext, hmem⟩
    · exact (by decide : IsAscii ", ".toList) c hsep
    · rw [List.map_map] at htext
      obtain ⟨item, hbody, rfl⟩ := List.mem_map.1 htext
      exact hitem item hbody c hmem
  rw [bodyText, String.toList_append, String.toList_append]
  exact ((by decide : IsAscii _).append hitems).append (by decide)

/-- ASCII is read from its bytes. -/
theorem bytesOf_inj {text text' : String} (h : IsAscii text.toList) (h' : IsAscii text'.toList)
    (hbytes : bytesOf text = bytesOf text') : text = text' := by
  have hdecoded := decodeAscii_map h
  have hdecoded' := decodeAscii_map h'
  have hsame : text.toList.map asciiByte = text'.toList.map asciiByte := hbytes
  rw [hsame, hdecoded'] at hdecoded
  exact String.toList_inj.1 (Option.some.inj hdecoded).symm

/-! ## The request -/

/-- The request of a write. -/
def putRequest (target : Target) (body : WriteBody) (transactionId : ℤ) : Request :=
  ⟨"PUT", target.url, jsonHeaders, some (dumps body), some transactionId⟩

theorem isLine_url (target : Target) : IsLine target.url.toList := by
  have hid : ∀ n : ℤ, IsLine (toString n).toList := fun n => (isVisible_toString_int n).isLine
  cases target with
  | endpoint deviceId endpointId =>
      rw [url_endpoint]
      simp only [String.toList_append]
      exact ((((by decide : IsLine _).append (hid _)).append (by decide)).append (hid _)).append
        (by decide)
  | group groupId =>
      rw [url_group]
      simp only [String.toList_append]
      exact ((by decide : IsLine _).append (hid _)).append (by decide)
  | area areaId =>
      rw [url_area]
      simp only [String.toList_append]
      exact ((by decide : IsLine _).append (hid _)).append (by decide)

variable (target : Target) (body : WriteBody) (transactionId : ℤ)

theorem wellFormed_putRequest : (putRequest target body transactionId).WellFormed where
  method := (by decide : IsLine "PUT".toList)
  url := isLine_url target
  name := (by decide : ∀ name ∈ jsonHeaders.keys, IsLine name.toList ∧ ':' ∉ name.toList ∧
    Text.strip Text.isSpace name.toList = name.toList)
  value := (by decide : ∀ value ∈ jsonHeaders.values, IsLine value.toList)
  distinct := (by decide : (jsonHeaders.keys.map lowerName).Nodup)
  noTransferEncoding :=
    (by decide : "transfer-encoding".toList ∉ jsonHeaders.keys.map lowerName)

/-- The headers it is sent with. -/
theorem wireHeaders_putRequest : (putRequest target body transactionId).wireHeaders =
    [("content-type", "application/json; charset=UTF-8"),
      ("content-length", toString (dumps body).length),
      ("transac-id", toString transactionId)] := by
  have hlength : (putRequest target body transactionId).gives "content-length" = false :=
    (by decide : (jsonHeaders.keys.map lowerName).contains "content-length".toList = false)
  have htransacId : (putRequest target body transactionId).gives "transac-id" = false :=
    (by decide : (jsonHeaders.keys.map lowerName).contains "transac-id".toList = false)
  have hgiven : (jsonHeaders.entries.map fun item => (String.ofList (lowerName item.1),
      String.ofList (Text.strip Text.isSpace item.2.toList))) =
        [("content-type", "application/json; charset=UTF-8")] := by decide
  have hcontent : ¬ ((putRequest target body transactionId).content = none ∧
      (putRequest target body transactionId).method ∉ ["POST", "PUT", "PATCH"]) :=
    fun hnone => Option.some_ne_none _ hnone.1
  rw [Request.wireHeaders, Request.autoLength, Request.autoTransacId, hlength, htransacId,
    if_neg Bool.false_ne_true, if_neg Bool.false_ne_true, if_neg hcontent]
  exact congrArg (· ++ _) hgiven

/-- The content of a write. -/
theorem dumps_eq : dumps body = bytesOf (bodyText body) := rfl

theorem dumps_ne_nil : dumps body ≠ [] := by
  rw [dumps_eq, bytesOf, bodyText]
  simp

/-- **The bytes of a write**, split. -/
theorem split_putRequest (cmdPrefix : Bytes) (error : String → Exc) :
    ∃ (bytes : Bytes) (headers : Headers),
      (putRequest target body transactionId).toBytes cmdPrefix = .ok bytes ∧
      splitMessage (Text.removePrefix cmdPrefix bytes) error =
        .ok (("PUT " ++ target.url ++ " HTTP/1.1").toList, headers, some (dumps body)) ∧
      headers.entries = [("content-type", "application/json; charset=UTF-8"),
        ("content-length", toString (dumps body).length),
        ("transac-id", toString transactionId)] := by
  have h := wellFormed_putRequest target body transactionId
  obtain ⟨headers, hhead, hentries⟩ := @splitHead_head _ error h
  refine ⟨_, headers, toBytes_eq h cmdPrefix, ?_, hentries.trans (wireHeaders_putRequest _ _ _)⟩
  have hdecoded : decodeContent (dumps body) headers error = .ok (dumps body) := by
    rw [decodeContent, get?_transferEncoding h hentries]
  have hcontent : (putRequest target body transactionId).content.getD [] = dumps body := rfl
  rw [Text.removePrefix_append, splitMessage, partition_head h, hcontent]
  simp only [decodeAscii_map (ascii_head h), hhead, hdecoded, contentOrNone,
    if_neg (dumps_ne_nil body), bind, Except.bind, pure, Except.pure]
  rfl

/-! ## What the bytes tell -/

/-- **A url is of one target.** -/
theorem url_injective : Function.Injective Target.url := by
  have hslash : ∀ n : ℤ, '/' ∉ (toString n).toList := by
    intro n hmem
    rcases Text.isDigit_or_neg_of_mem_intText hmem with hdigit | hneg
    · exact absurd hdigit (by decide)
    · exact absurd hneg (by decide)
  have hid : ∀ {m n : ℤ}, (toString m).toList = (toString n).toList → m = n :=
    fun h => Text.intText_injective (String.toList_inj.1 h)
  intro target target' h
  have hlist := congrArg String.toList h
  cases target with
  | endpoint deviceId endpointId =>
      cases target' with
      | endpoint deviceId' endpointId' =>
          simp only [url_endpoint, String.toList_append, List.append_assoc,
            List.append_cancel_left_eq] at hlist
          have hcut : (toString deviceId).toList ++ "/endpoints".toList ++
                '/' :: (toString endpointId).toList =
              (toString deviceId').toList ++ "/endpoints".toList ++
                '/' :: (toString endpointId').toList := by
            refine (List.append_left_inj "/data".toList).1 ?_
            simpa using hlist
          obtain ⟨hdevice, hendpoint⟩ :=
            Text.append_cons_inj_of_not_mem (hslash _) (hslash _) hcut
          rw [hid (List.append_cancel_right hdevice), hid hendpoint]
      | group groupId => simp [url_endpoint, url_group] at hlist
      | area areaId => simp [url_endpoint, url_area] at hlist
  | group groupId =>
      cases target' with
      | endpoint deviceId endpointId => simp [url_endpoint, url_group] at hlist
      | group groupId' =>
          simp only [url_group, String.toList_append, List.append_assoc,
            List.append_cancel_left_eq, List.append_cancel_right_eq] at hlist
          rw [hid hlist]
      | area areaId => simp [url_group, url_area] at hlist
  | area areaId =>
      cases target' with
      | endpoint deviceId endpointId => simp [url_endpoint, url_area] at hlist
      | group groupId => simp [url_group, url_area] at hlist
      | area areaId' =>
          simp only [url_area, String.toList_append, List.append_assoc,
            List.append_cancel_left_eq, List.append_cancel_right_eq] at hlist
          rw [hid hlist]

/-- A half is its floor, or half above it. -/
theorem eq_floor_or {q : ℚ} (h : (q / (1 / 2)).isInt = true) :
    q = q.floor ∨ q = q.floor + 1 / 2 := by
  have hnum : ((q / (1 / 2)).num : ℚ) = q / (1 / 2) :=
    (Rat.den_eq_one_iff _).1 (beq_iff_eq.1 h)
  have hle : (⌊q⌋ : ℚ) ≤ q := Int.floor_le q
  have hlt : q < ⌊q⌋ + 1 := Int.lt_floor_add_one q
  have hhalf : q = ((q / (1 / 2)).num : ℚ) / 2 := by
    rw [hnum]
    ring
  have hlow : 2 * ⌊q⌋ ≤ (q / (1 / 2)).num := by
    have : (2 * ⌊q⌋ : ℚ) ≤ ((q / (1 / 2)).num : ℚ) := by linarith
    exact_mod_cast this
  have hhigh : (q / (1 / 2)).num < 2 * ⌊q⌋ + 2 := by
    have : ((q / (1 / 2)).num : ℚ) < 2 * ⌊q⌋ + 2 := by linarith
    exact_mod_cast this
  have hfloor : (q.floor : ℚ) = ⌊q⌋ := rfl
  rcases (show (q / (1 / 2)).num = 2 * ⌊q⌋ ∨ (q / (1 / 2)).num = 2 * ⌊q⌋ + 1 by omega) with
    heven | hodd
  · rw [heven] at hhalf
    push_cast at hhalf
    exact .inl (by linarith)
  · rw [hodd] at hhalf
    push_cast at hhalf
    exact .inr (by linarith)

/-- **The text of a half denotes it.** -/
theorem readPoint_floatText {q : ℚ} (hpos : 0 ≤ q) (h : (q / (1 / 2)).isInt = true) :
    Text.readPoint (floatText q).toList = some q := by
  obtain ⟨n, hn⟩ := Int.eq_ofNat_of_zero_le (Int.floor_nonneg.2 hpos)
  have hfloor : q.floor = n := hn
  rw [floatText, String.toList_append, hfloor]
  split
  · rename_i hwhole
    have hread := Text.readPoint_natText n (List.cons_ne_nil '0' [])
      fun c hc => by rw [List.mem_singleton.1 hc]; rfl
    rw [show Nat.ofDigitChars 10 ['0'] 0 = 0 from rfl] at hread
    refine hread.trans ?_
    rw [hwhole]
    simp
  · rename_i hnot
    have hread := Text.readPoint_natText n (List.cons_ne_nil '5' [])
      fun c hc => by rw [List.mem_singleton.1 hc]; rfl
    rw [show Nat.ofDigitChars 10 ['5'] 0 = 5 from rfl] at hread
    refine hread.trans ?_
    rw [(eq_floor_or h).resolve_left (by rwa [hfloor]), hfloor]
    norm_num

/-- The doubles of a type are positive halves. -/
def IsSetpoint : FieldKind → Prop
  | .float ge _ multipleOf => 0 ≤ ge ∧ multipleOf = 1 / 2
  | _ => True

instance : ∀ kind, Decidable (IsSetpoint kind)
  | .float ge _ multipleOf => inferInstanceAs (Decidable (0 ≤ ge ∧ multipleOf = 1 / 2))
  | .int .. | .enum _ => .isTrue trivial

/-- **The text of a double of a write denotes it.** -/
theorem readPoint_of_mem_body {write : UsageWrite} {name : String} {q : ℚ}
    (h : (name, .float q) ∈ write.body) : Text.readPoint (floatText q).toList = some q := by
  obtain ⟨field, hfield, hvalue, -⟩ := mem_bodyOf.1 h
  have hvalid := write.valid field _ hvalue
  have hsetpoint : ∀ model : WriteModel, ∀ field ∈ model.fields, IsSetpoint field.kind := by
    intro model
    cases model <;> decide +kernel
  have hkind := hsetpoint write.model field hfield
  cases hfloat : field.kind with
  | float ge le multipleOf =>
      rw [hfloat] at hvalid hkind
      obtain ⟨hge, rfl⟩ := hkind
      exact readPoint_floatText (hge.trans hvalid.1) hvalid.2.2
  | int _ _ | enum _ =>
      rw [hfloat] at hvalid
      exact hvalid.elim

/-- **What is read of a body is of that body.** -/
theorem bodyTree_inj {write write' : UsageWrite} (h : bodyTree write.body = bodyTree write'.body) :
    write.body = write'.body := by
  have hitem : ∀ item ∈ write.body, ∀ item' ∈ write'.body, itemTree item = itemTree item' →
      item = item' := by
    rintro ⟨name, v⟩ hmem ⟨name', v'⟩ hmem' heq
    simp only [itemTree, Json.Tree.dict.injEq, List.cons.injEq, Prod.mk.injEq, true_and,
      Json.Tree.str.injEq, and_true] at heq
    obtain ⟨rfl, hvalue⟩ := heq
    cases v with
    | int n =>
        cases v' with
        | int n' =>
            simp only [valueTree, Json.Tree.number.injEq, Json.Numeral.int.injEq,
              String.toList_inj] at hvalue
            rw [Text.intText_injective hvalue]
        | float q => simp [valueTree] at hvalue
        | enum member => simp [valueTree] at hvalue
    | float q =>
        cases v' with
        | int n => simp [valueTree] at hvalue
        | float q' =>
            simp only [valueTree, Json.Tree.number.injEq, Json.Numeral.float.injEq,
              String.toList_inj] at hvalue
            have hread := readPoint_of_mem_body hmem
            rw [hvalue, readPoint_of_mem_body hmem', Option.some.injEq] at hread
            rw [hread]
        | enum member => simp [valueTree] at hvalue
    | enum member =>
        cases v' with
        | int n => simp [valueTree] at hvalue
        | float q => simp [valueTree] at hvalue
        | enum member' =>
            simp only [valueTree, Json.Tree.str.injEq] at hvalue
            rw [hvalue]
  have hmap := Json.Tree.list.inj h
  revert hmap hitem
  generalize write.body = items, write'.body = items'
  intro hitem hmap
  induction items generalizing items' with
  | nil => exact (List.map_eq_nil_iff.1 hmap.symm).symm
  | cons item items ih =>
      cases items' with
      | nil => cases hmap
      | cons item' items' =>
          obtain ⟨hhead, htail⟩ := List.cons.inj hmap
          rw [hitem item List.mem_cons_self item' List.mem_cons_self hhead,
            ih items' (fun x hx y hy => hitem x (List.mem_cons_of_mem _ hx) y
              (List.mem_cons_of_mem _ hy)) htail]

/-! ## Calls -/

theorem init_eq_ok {target : Target} {usage : UsageModel} {write : UsageWrite}
    {transactionId : ℤ} {request : WriteRequest}
    (h : WriteRequest.init target.url usage write transactionId = .ok request) :
    request.request = ⟨putRequest target write.body transactionId, .ok⟩ := by
  obtain ⟨revalidated, hvalid, hbody⟩ := modelValidate_toDict write
  rw [WriteRequest.init, hvalid] at h
  dsimp only at h
  split at h
  · cases h
  · obtain rfl := Except.ok.inj h
    rw [hbody]
    rfl

/-- What `_shutter_write` sends. -/
theorem request_of_shutterWrite {installation : Installation} {config : Config}
    {input : SetShutterInput} {transactionId : ℤ} {prepared : Prepared}
    (harea : ∀ areaId, input.ids ≠ .area areaId)
    (h : shutterWrite installation config input transactionId = .ok prepared) :
    prepared.request.request = ⟨putRequest input.ids prepared.write.body transactionId, .ok⟩ := by
  obtain ⟨usage, -, h⟩ := bind_eq_ok_iff.1 h
  split at h
  · obtain ⟨ref, href, h⟩ := bind_eq_ok_iff.1 h
    obtain ⟨fields, -, h⟩ := bind_eq_ok_iff.1 h
    obtain ⟨write, -, h⟩ := bind_eq_ok_iff.1 h
    obtain ⟨request, hrequest, h⟩ := bind_eq_ok_iff.1 h
    cases h
    rw [letThrough_eq_ok_iff] at hrequest
    cases hids : input.ids with
    | endpoint deviceId endpointId =>
        rw [hids] at href
        obtain ⟨ref', href', rfl⟩ := map_eq_ok_iff.1 (checkRef_eq_ok_iff.1 href)
        cases endpoint_eq_ok href'
        exact @init_eq_ok (.endpoint deviceId endpointId) _ _ _ _ hrequest
    | group groupId =>
        rw [hids] at href
        obtain ⟨ref', href', rfl⟩ := map_eq_ok_iff.1 (checkRef_eq_ok_iff.1 href)
        cases group_eq_ok href'
        exact @init_eq_ok (.group groupId) _ _ _ _ hrequest
    | area areaId => exact absurd hids (harea areaId)
  · cases h

/-- What `_heating_write` sends. -/
theorem request_of_heatingWrite {installation : Installation} {config : Config}
    {input : SetHeatingInput} {transactionId : ℤ} {prepared : Prepared}
    (h : heatingWrite installation config input transactionId = .ok prepared) :
    prepared.request.request = ⟨putRequest input.ids prepared.write.body transactionId, .ok⟩ := by
  unfold heatingWrite at h
  split at h
  · cases h
  · rename_i areaId hids
    obtain ⟨usage, -, h⟩ := bind_eq_ok_iff.1 h
    split at h
    · obtain ⟨area, harea, h⟩ := bind_eq_ok_iff.1 h
      obtain ⟨write, -, h⟩ := bind_eq_ok_iff.1 h
      obtain ⟨request, hrequest, h⟩ := bind_eq_ok_iff.1 h
      cases h
      cases area_eq_ok (checkRef_eq_ok_iff.1 harea)
      rw [letThrough_eq_ok_iff] at hrequest
      rw [hids]
      exact @init_eq_ok (.area areaId) _ _ _ _ hrequest
    · cases h
  · rename_i deviceId endpointId hids
    obtain ⟨usage, -, h⟩ := bind_eq_ok_iff.1 h
    split at h
    · cases h
    · split at h
      · obtain ⟨endpoint, hendpoint, h⟩ := bind_eq_ok_iff.1 h
        obtain ⟨writeModel, -, h⟩ := bind_eq_ok_iff.1 h
        obtain ⟨write, -, h⟩ := bind_eq_ok_iff.1 h
        obtain ⟨request, hrequest, h⟩ := bind_eq_ok_iff.1 h
        cases h
        cases endpoint_eq_ok (checkRef_eq_ok_iff.1 hendpoint)
        rw [letThrough_eq_ok_iff] at hrequest
        rw [hids]
        exact @init_eq_ok (.endpoint deviceId endpointId) _ _ _ _ hrequest
      · cases h

/-- **What a call makes** is the write of its target. -/
theorem request_of_parse {tool : Tool} {arguments : Dict String JsonValue} {transactionId : ℤ}
    {text : String} {prepare : Installation → Config → Checked Prepared}
    {installation : Installation} {config : Config} {prepared : Prepared}
    (hparse : tool.parse transactionId arguments = some (text, prepare))
    (h : prepare installation config = .ok prepared) :
    ∃ target, Target.parse text = some target ∧
      prepared.request.request = ⟨putRequest target prepared.write.body transactionId, .ok⟩ := by
  cases tool with
  | setShutter =>
      obtain ⟨input, hinput, heq⟩ := Option.map_eq_some_iff.1 hparse
      cases heq
      obtain ⟨-, htarget, harea, -, -⟩ := setShutterInput_eq_some hinput
      exact ⟨input.ids, htarget, request_of_shutterWrite harea h⟩
  | setHeating =>
      obtain ⟨input, hinput, heq⟩ := Option.map_eq_some_iff.1 hparse
      cases heq
      obtain ⟨-, htarget, -⟩ := setHeatingInput_eq_some hinput
      exact ⟨input.ids, htarget, request_of_heatingWrite h⟩

/-- What a call sends. -/
theorem request_of_begin {writes : Writes} {tool : Tool} {arguments : Dict String JsonValue}
    {transactionId : ℤ} {clock : ℚ} {text : String} {prepared : Prepared}
    (h : (writes.begin tool arguments transactionId clock).1 = .sends text prepared) :
    ∃ target, Target.parse text = some target ∧
      prepared.request.request = ⟨putRequest target prepared.write.body transactionId, .ok⟩ := by
  rcases begin_cases writes tool arguments transactionId clock with
    ⟨text', prepare, installation, config, prepared', hparse, -, hprepared, -, hbegin⟩ | ⟨hno, -⟩
  · rw [hbegin] at h
    cases h
    exact request_of_parse hparse hprepared
  · exact absurd h (hno text prepared)

/-- **What a call puts on the wire**, read on the other side: the `PUT` of the
target it was asked for, the length of the content and the transaction id,
and a body that is JSON and holds the fields of the write, each setpoint as a
text that denotes it. -/
theorem call_onWire {writes : Writes} {tool : Tool} {arguments : Dict String JsonValue}
    {transactionId : ℤ} {clock : ℚ} {text : String} {prepared : Prepared}
    (h : (writes.begin tool arguments transactionId clock).1 = .sends text prepared)
    (cmdPrefix : Bytes) (error : String → Exc) :
    ∃ (target : Target) (bytes : Bytes) (headers : Headers) (content : Bytes)
        (source : List Char),
      Target.parse text = some target ∧
      prepared.request.request.request.toBytes cmdPrefix = .ok bytes ∧
      splitMessage (Text.removePrefix cmdPrefix bytes) error =
        .ok (("PUT " ++ target.url ++ " HTTP/1.1").toList, headers, some content) ∧
      headers.entries = [("content-type", "application/json; charset=UTF-8"),
        ("content-length", toString content.length),
        ("transac-id", toString transactionId)] ∧
      Text.decodeAscii content = some source ∧
      Json.scan 2 source = .value (bodyTree prepared.write.body) ∧
      ∀ name q, (name, .float q) ∈ prepared.write.body →
        Text.readPoint (floatText q).toList = some q := by
  obtain ⟨target, htarget, hrequest⟩ := request_of_begin h
  obtain ⟨bytes, headers, hbytes, hsplit, hentries⟩ :=
    split_putRequest target prepared.write.body transactionId cmdPrefix error
  have hplain := plain_body prepared.write
  exact ⟨target, bytes, headers, dumps prepared.write.body, (bodyText prepared.write.body).toList,
    htarget, hrequest ▸ hbytes, hsplit, hentries, decodeAscii_map (isAscii_bodyText hplain),
    scan_bodyText hplain, fun name q => readPoint_of_mem_body⟩

/-- A shutter opened by half. -/
theorem call_onWire_halfOpen : ∃ prepared writes,
    (⟨shutterCache, 1, none⟩ : Writes).begin .setShutter (halfOpen "e:10:1") 1 0 =
      (.sends "e:10:1" prepared, writes) ∧
    ∃ (bytes : Bytes) (headers : Headers) (content : Bytes) (source : List Char),
      prepared.request.request.request.toBytes [0x02] = .ok bytes ∧
      splitMessage (Text.removePrefix [0x02] bytes) .invalidRequest =
        .ok ("PUT /devices/10/endpoints/1/data HTTP/1.1".toList, headers, some content) ∧
      Text.decodeAscii content = some source ∧
      Json.scan 2 source = .value (bodyTree [("position", .int 50)]) := by
  refine ⟨_, _, rfl, ?_⟩
  obtain ⟨target, bytes, headers, content, source, htarget, hbytes, hsplit, -, hdecoded, hscan,
      -⟩ :=
    @call_onWire ⟨shutterCache, 1, none⟩ .setShutter (halfOpen "e:10:1") 1 0 _ _ rfl [0x02]
      .invalidRequest
  obtain rfl : Target.endpoint 10 1 = target := Option.some.inj htarget
  exact ⟨bytes, headers, content, source, hbytes, hsplit, hdecoded, hscan⟩

/-- **The bytes tell the call**: two calls, of any tools on any state, that
send the same bytes ask for the same fields of the same target under the same
transaction id. -/
theorem call_onWire_injective {writes writes' : Writes} {tool tool' : Tool}
    {arguments arguments' : Dict String JsonValue} {transactionId transactionId' : ℤ}
    {clock clock' : ℚ} {text text' : String} {prepared prepared' : Prepared}
    (h : (writes.begin tool arguments transactionId clock).1 = .sends text prepared)
    (h' : (writes'.begin tool' arguments' transactionId' clock').1 = .sends text' prepared')
    (cmdPrefix : Bytes)
    (hbytes : prepared.request.request.request.toBytes cmdPrefix =
      prepared'.request.request.request.toBytes cmdPrefix) :
    Target.parse text = Target.parse text' ∧ prepared.write.body = prepared'.write.body ∧
      transactionId = transactionId' := by
  obtain ⟨target, htarget, hrequest⟩ := request_of_begin h
  obtain ⟨target', htarget', hrequest'⟩ := request_of_begin h'
  obtain ⟨bytes, headers, hsent, hsplit, hentries⟩ :=
    split_putRequest target prepared.write.body transactionId cmdPrefix .invalidRequest
  obtain ⟨bytes', headers', hsent', hsplit', hentries'⟩ :=
    split_putRequest target' prepared'.write.body transactionId' cmdPrefix .invalidRequest
  rw [hrequest, hrequest', hsent, hsent', Except.ok.injEq] at hbytes
  subst hbytes
  rw [hsplit, Except.ok.injEq, Prod.mk.injEq, Prod.mk.injEq, Option.some.injEq] at hsplit'
  obtain ⟨hline, rfl, hcontent⟩ := hsplit'
  have hplain := plain_body prepared.write
  have hplain' := plain_body prepared'.write
  have hurl : target.url = target'.url := by
    simp only [String.toList_append, List.append_cancel_right_eq, List.append_cancel_left_eq,
      String.toList_inj] at hline
    exact hline
  have hid : toString transactionId = toString transactionId' := by
    rw [hentries] at hentries'
    simpa using congrArg List.getLast? hentries'
  have hbody : bodyTree prepared.write.body = bodyTree prepared'.write.body := by
    have htext := bytesOf_inj (isAscii_bodyText hplain) (isAscii_bodyText hplain') hcontent
    have hscan := scan_bodyText hplain
    rw [htext, scan_bodyText hplain', Json.Outcome.value.injEq] at hscan
    exact hscan.symm
  rw [htarget, htarget', url_injective hurl]
  exact ⟨rfl, bodyTree_inj hbody, Text.intText_injective hid⟩

/-- A target is told from its bytes, however it was written. -/
theorem call_onWire_injective_halfOpen : ∃ prepared prepared' writes writes',
    (⟨shutterCache, 1, none⟩ : Writes).begin .setShutter (halfOpen "e:10:1") 1 0 =
      (.sends "e:10:1" prepared, writes) ∧
    (⟨shutterCache, 1, none⟩ : Writes).begin .setShutter (halfOpen "e:010:1") 1 0 =
      (.sends "e:010:1" prepared', writes') ∧
    Target.parse "e:10:1" = Target.parse "e:010:1" := by
  obtain ⟨prepared, writes, hbegin, hbody⟩ : ∃ prepared writes,
      (⟨shutterCache, 1, none⟩ : Writes).begin .setShutter (halfOpen "e:10:1") 1 0 =
        (.sends "e:10:1" prepared, writes) ∧ prepared.write.body = [("position", .int 50)] :=
    ⟨_, _, rfl, rfl⟩
  obtain ⟨prepared', writes', hbegin', hbody'⟩ : ∃ prepared writes,
      (⟨shutterCache, 1, none⟩ : Writes).begin .setShutter (halfOpen "e:010:1") 1 0 =
        (.sends "e:010:1" prepared, writes) ∧ prepared.write.body = [("position", .int 50)] :=
    ⟨_, _, rfl, rfl⟩
  refine ⟨prepared, prepared', writes, writes', hbegin, hbegin', ?_⟩
  have hsends := congrArg Prod.fst hbegin
  have hsends' := congrArg Prod.fst hbegin'
  have hbytes : prepared.request.request.request.toBytes [] =
      prepared'.request.request.request.toBytes [] := by
    obtain ⟨target, htarget, hrequest⟩ := request_of_begin hsends
    obtain ⟨target', htarget', hrequest'⟩ := request_of_begin hsends'
    obtain rfl : Target.endpoint 10 1 = target := Option.some.inj htarget
    obtain rfl : Target.endpoint 10 1 = target' := Option.some.inj htarget'
    rw [hrequest, hrequest', hbody, hbody']
  exact (call_onWire_injective hsends hsends' [] hbytes).1

end Mcp

end Tydomio
