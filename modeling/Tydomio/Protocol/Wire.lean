import Tydomio.Common.Search
import Tydomio.Protocol.Model.Parse
import Tydomio.Protocol.Model.Request

/-!
# What is sent reads back

`Request.to_bytes` and `_split_message` are written in two modules, each
with its own rules on case and white space. `splitMessage_toBytes` puts one
after the other: for a request whose texts are single lines of ASCII, the
split gives the start line, the content whatever bytes it holds, and the
headers of `wireHeaders` in their order.
-/

namespace Tydomio

open Common

namespace Protocol

/-! ## Requests that can be sent -/

/-- A text of ASCII without an end of line. -/
def IsLine (text : List Char) : Prop :=
  ∀ c ∈ text, c.toNat < 128 ∧ c ≠ '\r' ∧ c ≠ '\n'

instance (text : List Char) : Decidable (IsLine text) := List.decidableBAll _ text

/-- The name of a header in lower case. -/
def lowerName (name : String) : List Char := Text.lower name.toList

/-- **A request of single ASCII lines**, no two of whose headers are the
same and none of which announces a transfer encoding. -/
structure Request.WellFormed (request : Request) : Prop where
  method : IsLine request.method.toList
  url : IsLine request.url.toList
  name : ∀ name ∈ request.headers.keys, IsLine name.toList ∧ ':' ∉ name.toList ∧
    Text.strip Text.isSpace name.toList = name.toList
  value : ∀ value ∈ request.headers.values, IsLine value.toList
  distinct : (request.headers.keys.map lowerName).Nodup
  noTransferEncoding : "transfer-encoding".toList ∉ request.headers.keys.map lowerName

/-- A header is given, in any case. -/
def Request.gives (request : Request) (name : String) : Bool :=
  (request.headers.keys.map lowerName).contains name.toList

theorem Request.gives_iff {request : Request} {name : String} :
    request.gives name = true ↔ name.toList ∈ request.headers.keys.map lowerName :=
  List.contains_iff_mem

/-- The length header, unless it is given or the request has no content
and needs none. -/
def Request.autoLength (request : Request) : List (String × String) :=
  if request.gives "content-length" then []
  else if request.content = none ∧ request.method ∉ ["POST", "PUT", "PATCH"] then []
  else [("content-length", toString (request.content.getD []).length)]

/-- The transaction id header, unless it is given. -/
def Request.autoTransacId (request : Request) : List (String × String) :=
  if request.gives "transac-id" then []
  else [("transac-id", request.transactionId.elim "None" toString)]

/-- **The headers the other side reads**: those given, names in lower case
and values stripped, then the automatic ones. -/
def Request.wireHeaders (request : Request) : List (String × String) :=
  (request.headers.entries.map fun item =>
    (String.ofList (lowerName item.1),
      String.ofList (Text.strip Text.isSpace item.2.toList))) ++
  (request.autoLength ++ request.autoTransacId)

/-- The start line. -/
def Request.startLine (request : Request) : String :=
  request.method ++ " " ++ request.url ++ " HTTP/1.1"

/-! ## ASCII both ways -/

/-- The byte of an ASCII character. -/
def asciiByte (c : Char) : UInt8 := UInt8.ofNat c.toNat

theorem toNat_asciiByte {c : Char} (h : c.toNat < 128) : (asciiByte c).toNat = c.toNat := by
  rw [asciiByte, UInt8.toNat_ofNat', Nat.mod_eq_of_lt (by omega)]

theorem encodeAscii_eq {text : List Char} (h : ∀ c ∈ text, c.toNat < 128) :
    encodeAscii text = .ok (text.map asciiByte) := by
  have hall : (text.all fun c => decide (c.toNat < 128)) = true :=
    List.all_eq_true.2 fun c hc => decide_eq_true (h c hc)
  rw [encodeAscii, if_pos hall]
  rfl

/-- What is encoded decodes to itself. -/
theorem decodeAscii_map {text : List Char} (h : ∀ c ∈ text, c.toNat < 128) :
    Text.decodeAscii (text.map asciiByte) = some text := by
  have hall : ((text.map asciiByte).all fun b => decide (b < 128)) = true := by
    rw [List.all_eq_true]
    intro b hb
    obtain ⟨c, hc, rfl⟩ := List.mem_map.1 hb
    have hc' := h c hc
    refine decide_eq_true (UInt8.lt_iff_toNat_lt.2 ?_)
    rw [toNat_asciiByte hc']
    exact hc'
  have hmap : (text.map asciiByte).map (fun b => Char.ofNat b.toNat) = text := by
    rw [List.map_map]
    refine (List.map_congr_left fun c hc => ?_).trans (List.map_id _)
    rw [Function.comp_apply, toNat_asciiByte (h c hc), Char.ofNat_toNat, id]
  rw [Text.decodeAscii, if_pos hall, hmap]

/-- No carriage return is encoded where none is in the line. -/
theorem IsLine.not_mem_map {text : List Char} (h : IsLine text) :
    (13 : UInt8) ∉ text.map asciiByte := by
  intro hmem
  obtain ⟨c, hc, hbyte⟩ := List.mem_map.1 hmem
  have hnat : c.toNat = 13 := by
    rw [← toNat_asciiByte (h c hc).1, hbyte]
    rfl
  exact (h c hc).2.1 (Char.toNat_inj.1 hnat)

theorem IsLine.append {text text' : List Char} (h : IsLine text) (h' : IsLine text') :
    IsLine (text ++ text') := by
  intro c hc
  exact (List.mem_append.1 hc).elim (h c) (h' c)

/-! ## The headers sent -/

/-- A text of visible ASCII characters. -/
def IsVisible (text : List Char) : Prop := ∀ c ∈ text, 33 ≤ c.toNat ∧ c.toNat < 127

instance (text : List Char) : Decidable (IsVisible text) := List.decidableBAll _ text

theorem IsVisible.isLine {text : List Char} (h : IsVisible text) : IsLine text := by
  intro c hc
  obtain ⟨hlow, hhigh⟩ := h c hc
  refine ⟨by omega, ?_, ?_⟩ <;> rintro rfl <;> exact absurd hlow (by decide)

/-- There is nothing to strip from it. -/
theorem IsVisible.strip {text : List Char} (h : IsVisible text) :
    Text.strip Text.isSpace text = text := by
  refine Text.strip_of_forall fun c hc => ?_
  obtain ⟨hlow, hhigh⟩ := h c hc
  simp only [Text.isSpace, Bool.or_eq_false_iff, Bool.and_eq_false_iff, decide_eq_false_iff_not]
  omega

theorem isVisible_toString_nat (n : ℕ) : IsVisible (toString n).toList := by
  intro c hc
  rw [Nat.toString_eq_repr, Nat.toList_repr] at hc
  have hdigit := Nat.isDigit_of_mem_toDigits (by decide) (by decide) hc
  simp only [Char.isDigit, Bool.and_eq_true, decide_eq_true_eq] at hdigit
  obtain ⟨hlow, hhigh⟩ := hdigit
  have hlow' : 48 ≤ c.toNat := hlow
  have hhigh' : c.toNat ≤ 57 := hhigh
  omega

theorem isVisible_toString_int (n : ℤ) : IsVisible (toString n).toList := by
  cases n with
  | ofNat n => exact isVisible_toString_nat n
  | negSucc n =>
      have htext : (toString (Int.negSucc n)).toList = '-' :: (toString (n + 1)).toList := by
        have happend : toString (Int.negSucc n) = "-" ++ toString (n + 1) := rfl
        rw [happend, String.toList_append]
        rfl
      intro c hc
      rw [htext, List.mem_cons] at hc
      refine hc.elim ?_ (isVisible_toString_nat (n + 1) c)
      rintro rfl
      decide

/-- What one header reads as. -/
def readItem (item : String × String) : String × String :=
  (String.ofList (lowerName item.1), String.ofList (Text.strip Text.isSpace item.2.toList))

/-- A header that is read back: a name without a colon, nothing to strip
from it, and a value on its line. -/
structure ReadsBack (item : String × String) : Prop where
  name : IsLine item.1.toList
  noColon : ':' ∉ item.1.toList
  stripped : Text.strip Text.isSpace item.1.toList = item.1.toList
  value : IsLine item.2.toList

variable {request : Request}

/-- The automatic headers are visible ASCII, and already as they are read. -/
theorem autoHeaders_spec {item : String × String}
    (h : item ∈ request.autoLength ++ request.autoTransacId) :
    ReadsBack item ∧ readItem item = item ∧
      item.1.toList ∉ request.headers.keys.map lowerName := by
  have hvisible : IsVisible item.2.toList ∧ item.1 ∈ ["content-length", "transac-id"] ∧
      item.1.toList ∉ request.headers.keys.map lowerName := by
    rw [List.mem_append, Request.autoLength, Request.autoTransacId] at h
    rcases h with h | h
    · split at h
      · cases h
      · rename_i hgiven
        split at h
        · cases h
        · rw [List.mem_singleton.1 h]
          exact ⟨isVisible_toString_nat _, by simp, fun hmem => hgiven (Request.gives_iff.2 hmem)⟩
    · split at h
      · cases h
      · rename_i hgiven
        rw [List.mem_singleton.1 h]
        refine ⟨?_, by simp, fun hmem => hgiven (Request.gives_iff.2 hmem)⟩
        cases request.transactionId with
        | none => decide
        | some id => exact isVisible_toString_int id
  obtain ⟨name, value⟩ := item
  obtain ⟨hvalue, hname, hgiven⟩ := hvisible
  have hread : IsVisible name.toList ∧ ':' ∉ name.toList ∧
      String.ofList (lowerName name) = name := by
    simp only [List.mem_cons, List.not_mem_nil, or_false] at hname
    obtain rfl | rfl := hname
    · exact ⟨by decide, by decide, by decide⟩
    · exact ⟨by decide, by decide, by decide⟩
  refine ⟨⟨hread.1.isLine, hread.2.1, hread.1.strip, hvalue.isLine⟩, ?_, hgiven⟩
  rw [readItem, hread.2.2, hvalue.strip, String.ofList_toList]

/-- The automatic headers are added after the given ones. -/
theorem entries_makeHeaders (h : request.WellFormed) :
    request.makeHeaders.entries =
      request.headers.entries ++ (request.autoLength ++ request.autoTransacId) := by
  have hkeys : (request.headers.keys.map fun name => Text.lower name.toList) =
      request.headers.keys.map lowerName := rfl
  have hlength : (if ¬ ("content-length".toList ∈ request.headers.keys.map lowerName ∨
        "transfer-encoding".toList ∈ request.headers.keys.map lowerName) ∧
        (request.content ≠ none ∨ request.method ∈ ["POST", "PUT", "PATCH"]) then
      [("content-length", toString (request.content.getD []).length)] else []) =
      request.autoLength := by
    rw [Request.autoLength]
    by_cases hgiven : "content-length".toList ∈ request.headers.keys.map lowerName
    · rw [if_neg fun hnot => hnot.1 (.inl hgiven), if_pos (Request.gives_iff.2 hgiven)]
    · have hnot : ¬ ("content-length".toList ∈ request.headers.keys.map lowerName ∨
          "transfer-encoding".toList ∈ request.headers.keys.map lowerName) :=
        fun hor => hor.elim hgiven h.noTransferEncoding
      rw [if_neg fun hgives => hgiven (Request.gives_iff.1 hgives)]
      by_cases hnone : request.content = none ∧ request.method ∉ ["POST", "PUT", "PATCH"]
      · rw [if_pos hnone, if_neg]
        exact fun hsome => hsome.2.elim (fun hne => hne hnone.1) hnone.2
      · rw [if_neg hnone, if_pos ⟨hnot, by tauto⟩]
  have htransacId : (if "transac-id".toList ∈ request.headers.keys.map lowerName then []
      else [("transac-id", request.transactionId.elim "None" toString)]) =
      request.autoTransacId := by
    rw [Request.autoTransacId]
    by_cases hgiven : "transac-id".toList ∈ request.headers.keys.map lowerName
    · rw [if_pos hgiven, if_pos (Request.gives_iff.2 hgiven)]
    · rw [if_neg hgiven, if_neg fun hgives => hgiven (Request.gives_iff.1 hgives)]
  have hauto : request.makeHeaders =
      (request.autoLength ++ request.autoTransacId).foldl
        (fun headers item => headers.set item.1 item.2) request.headers := by
    rw [← hlength, ← htransacId, ← hkeys, Request.makeHeaders]
    cases request.transactionId <;> rfl
  rw [hauto]
  refine Dict.entries_foldl_set ?_ fun item hitem hmem => ?_
  · rw [Request.autoLength, Request.autoTransacId]
    split_ifs <;> simp
  · obtain ⟨-, hread, hnew⟩ := autoHeaders_spec hitem
    have hlower : lowerName item.1 = item.1.toList := by
      have hname := congrArg (fun item => item.1.toList) hread
      rw [readItem, String.toList_ofList] at hname
      exact hname
    exact hnew (List.mem_map.2 ⟨item.1, hmem, hlower⟩)

/-- What the other side reads is what is sent, header by header. -/
theorem wireHeaders_eq (h : request.WellFormed) :
    request.wireHeaders = request.makeHeaders.entries.map readItem := by
  have hauto : (request.autoLength ++ request.autoTransacId).map readItem =
      request.autoLength ++ request.autoTransacId :=
    (List.map_congr_left fun item hitem => (autoHeaders_spec hitem).2.1).trans (List.map_id _)
  rw [entries_makeHeaders h, List.map_append, hauto]
  rfl

/-- Every header sent is read back. -/
theorem readsBack_makeHeaders (h : request.WellFormed) {item : String × String}
    (hitem : item ∈ request.makeHeaders.entries) : ReadsBack item := by
  rw [entries_makeHeaders h, List.mem_append] at hitem
  rcases hitem with hgiven | hauto
  · obtain ⟨hline, hcolon, hstrip⟩ := h.name item.1 (List.mem_map_of_mem hgiven)
    exact ⟨hline, hcolon, hstrip, h.value item.2 (List.mem_map_of_mem hgiven)⟩
  · exact (autoHeaders_spec hauto).1

/-- No two of them are read under the same name. -/
theorem nodup_wireHeaders (h : request.WellFormed) :
    (request.wireHeaders.map Prod.fst).Nodup := by
  have hinjective : Function.Injective String.ofList := fun _ _ => String.ofList_injective
  have hauto : ((request.autoLength ++ request.autoTransacId).map Prod.fst).Nodup := by
    rw [Request.autoLength, Request.autoTransacId]
    split_ifs <;> simp
  have hgiven : (request.headers.entries.map readItem).map Prod.fst =
      (request.headers.keys.map lowerName).map String.ofList := by
    rw [Dict.keys, List.map_map, List.map_map, List.map_map]
    rfl
  have hwire : request.wireHeaders.map Prod.fst =
      (request.headers.keys.map lowerName).map String.ofList ++
        (request.autoLength ++ request.autoTransacId).map Prod.fst := by
    rw [← hgiven, ← List.map_append]
    rfl
  rw [hwire, List.nodup_append]
  refine ⟨h.distinct.map hinjective, hauto, ?_⟩
  rintro name hname name' hname' rfl
  obtain ⟨lower, hlower, rfl⟩ := List.mem_map.1 hname
  obtain ⟨item, hitem, heq⟩ := List.mem_map.1 hname'
  refine (autoHeaders_spec hitem).2.2 ?_
  rw [heq, String.toList_ofList]
  exact hlower

/-! ## Reading them -/

/-- The line of a header. -/
def headerLine (item : String × String) : List Char := (item.1 ++ ": " ++ item.2).toList

variable {error : String → Exc}

/-- One header line is read under its name in lower case. -/
theorem addHeader_headerLine {item : String × String} (h : ReadsBack item) (headers : Headers) :
    addHeader error headers (headerLine item) =
      .ok (headers.set (readItem item).1 (readItem item).2) := by
  have hline : headerLine item = item.1.toList ++ [':'] ++ (' ' :: item.2.toList) := by
    simp [headerLine, String.toList_append]
  have hpartition : Text.partition [':'] (headerLine item) =
      some (item.1.toList, ' ' :: item.2.toList) := by
    rw [hline]
    refine Text.partition_append (List.cons_ne_nil _ _) fun hin => h.noColon ?_
    rw [List.dropLast_singleton, List.append_nil] at hin
    exact hin.subset (List.mem_singleton_self _)
  rw [addHeader, hpartition]
  simp only [h.stripped, Text.strip_cons (show Text.isSpace ' ' = true by decide)]
  rfl

/-- All header lines are read, in their order. -/
theorem foldlM_addHeader {items : List (String × String)}
    (h : ∀ item ∈ items, ReadsBack item) (headers : Headers) :
    (items.map headerLine).foldlM (addHeader error) headers =
      .ok ((items.map readItem).foldl (fun headers item => headers.set item.1 item.2)
        headers) := by
  induction items generalizing headers with
  | nil => rfl
  | cons item items ih =>
      rw [List.map_cons, List.foldlM_cons, addHeader_headerLine (h item List.mem_cons_self)]
      exact ih (fun i hi => h i (List.mem_cons_of_mem _ hi)) _

/-! ## A whole request -/

/-- The lines of the head. -/
def Request.lines (request : Request) : List (List Char) :=
  request.startLine.toList :: request.makeHeaders.entries.map headerLine

theorem isLine_lines (h : request.WellFormed) {line : List Char} (hline : line ∈ request.lines) :
    line ≠ [] ∧ IsLine line := by
  have hspace : IsLine [' '] := by decide
  rw [Request.lines, List.mem_cons] at hline
  rcases hline with rfl | hheader
  · have hversion : IsLine " HTTP/1.1".toList := by decide
    rw [Request.startLine, String.toList_append, String.toList_append, String.toList_append]
    refine ⟨List.append_ne_nil_of_right_ne_nil _ (by decide), ?_⟩
    exact ((h.method.append hspace).append h.url).append hversion
  · obtain ⟨item, hitem, rfl⟩ := List.mem_map.1 hheader
    have hreads := readsBack_makeHeaders h hitem
    have hcolon : IsLine ": ".toList := by decide
    rw [headerLine, String.toList_append, String.toList_append]
    refine ⟨List.append_ne_nil_of_left_ne_nil ?_ _, (hreads.name.append hcolon).append hreads.value⟩
    exact List.append_ne_nil_of_right_ne_nil _ (by decide)

/-- The head and its end, on the wire. -/
def Request.head (request : Request) : List Char := ['\r', '\n'].intercalate request.lines

/-- A request has at least one header line: the head is its lines joined. -/
theorem head_eq (h : request.WellFormed) :
    (request.method ++ " " ++ request.url ++ " HTTP/1.1\r\n" ++
      "\r\n".intercalate (request.makeHeaders.entries.map fun item =>
        item.1 ++ ": " ++ item.2) ++ "\r\n\r\n").toList =
      request.head ++ ['\r', '\n', '\r', '\n'] := by
  have hne : request.makeHeaders.entries.map headerLine ≠ [] := by
    rw [Ne, List.map_eq_nil_iff, entries_makeHeaders h, Request.autoTransacId]
    split
    · rename_i hgiven
      obtain ⟨name, hname, -⟩ := List.mem_map.1 (Request.gives_iff.1 hgiven)
      obtain ⟨item, hitem, -⟩ := List.mem_map.1 hname
      exact List.append_ne_nil_of_left_ne_nil (List.ne_nil_of_mem hitem) _
    · exact List.append_ne_nil_of_right_ne_nil _
        (List.append_ne_nil_of_right_ne_nil _ (List.cons_ne_nil _ _))
  have hheaders : (request.makeHeaders.entries.map fun item =>
      item.1 ++ ": " ++ item.2).map String.toList = request.makeHeaders.entries.map headerLine := by
    rw [List.map_map]
    rfl
  rw [Request.head, Request.lines, List.intercalate_cons_of_ne_nil hne, Request.startLine]
  simp only [String.toList_append, String.toList_intercalate, hheaders, List.append_assoc]
  rfl

theorem ascii_head (h : request.WellFormed) : ∀ c ∈ request.head, c.toNat < 128 := by
  have hcrlf : ∀ c ∈ ['\r', '\n'], c.toNat < 128 := by simp
  intro c hc
  rcases Text.mem_intercalate hc with hsep | ⟨line, hline, hmem⟩
  · exact hcrlf c hsep
  · exact ((isLine_lines h hline).2 c hmem).1

/-- The bytes sent: the head encoded, its end, the content. -/
theorem toBytes_eq (h : request.WellFormed) (cmdPrefix : Bytes) :
    request.toBytes cmdPrefix = .ok (cmdPrefix ++ (request.head.map asciiByte ++ (crlf ++ crlf) ++
      request.content.getD [])) := by
  have hascii : ∀ c ∈ request.head ++ ['\r', '\n', '\r', '\n'], c.toNat < 128 := by
    have hend : ∀ c ∈ ['\r', '\n', '\r', '\n'], c.toNat < 128 := by simp
    exact fun c hc => (List.mem_append.1 hc).elim (ascii_head h c) (hend c)
  have hencoded := encodeAscii_eq hascii
  rw [← head_eq h] at hencoded
  rw [Request.toBytes, hencoded, head_eq h, List.map_append]
  simp only [bind, Except.bind, pure, Except.pure, List.append_assoc]
  rfl

/-- The head ends where it was ended: no CRLF in it is doubled. -/
theorem partition_head (h : request.WellFormed) (content : Bytes) :
    Text.partition (crlf ++ crlf) (request.head.map asciiByte ++ (crlf ++ crlf) ++ content) =
      some (request.head.map asciiByte, content) := by
  refine Text.partition_append (by decide) ?_
  have hmap : request.head.map asciiByte =
      crlf.intercalate (request.lines.map (List.map asciiByte)) :=
    Text.map_intercalate asciiByte request.lines
  rw [hmap, crlf]
  refine Text.not_infix_intercalate (by decide) (List.cons_ne_nil _ _) fun line hline => ?_
  obtain ⟨text, htext, rfl⟩ := List.mem_map.1 hline
  obtain ⟨hne, htextLine⟩ := isLine_lines h htext
  exact ⟨fun hnil => hne (List.map_eq_nil_iff.1 hnil), htextLine.not_mem_map⟩

/-- The head splits into its start line and its headers. -/
theorem splitHead_head (h : request.WellFormed) :
    ∃ headers : Headers, splitHead request.head error = .ok (request.startLine.toList, headers) ∧
      headers.entries = request.wireHeaders := by
  have hsplit : Text.split ['\r', '\n'] request.head = request.lines := by
    refine Text.split_intercalate (List.cons_ne_nil _ _) fun line hline hmem => ?_
    exact ((isLine_lines h hline).2 _ hmem).2.1 rfl
  have hread := @foldlM_addHeader error _ (fun _ hitem => readsBack_makeHeaders h hitem) ∅
  rw [← wireHeaders_eq h] at hread
  refine ⟨request.wireHeaders.foldl (fun headers item => headers.set item.1 item.2) ∅, ?_, ?_⟩
  · rw [splitHead, hsplit, Request.lines]
    simp only [hread, bind, Except.bind, pure, Except.pure]
  · exact Dict.entries_foldl_set (nodup_wireHeaders h) fun _ _ hmem => List.not_mem_nil hmem

/-- Nothing read says that the content is encoded. -/
theorem get?_transferEncoding (h : request.WellFormed) {headers : Headers}
    (hentries : headers.entries = request.wireHeaders) :
    headers.get? "transfer-encoding" = none := by
  rw [Dict.get?_eq_none_iff, Dict.mem_def, hentries, Request.wireHeaders, List.map_append,
    List.mem_append, not_or]
  refine ⟨fun hgiven => ?_, fun hauto => ?_⟩
  · obtain ⟨_, hread, hname⟩ := List.mem_map.1 hgiven
    obtain ⟨item, hitem, rfl⟩ := List.mem_map.1 hread
    refine h.noTransferEncoding (List.mem_map.2 ⟨item.1, List.mem_map_of_mem hitem, ?_⟩)
    rw [← hname, String.toList_ofList]
  · rw [Request.autoLength, Request.autoTransacId] at hauto
    revert hauto
    split_ifs <;> simp

/-- **A request sent is split into what it was made of**: its start line,
its content, an empty one as none, and its headers. -/
theorem splitMessage_toBytes (request : Request) (h : request.WellFormed) (cmdPrefix : Bytes)
    (error : String → Exc) :
    ∃ (bytes : Bytes) (headers : Headers), request.toBytes cmdPrefix = .ok bytes ∧
      splitMessage (Text.removePrefix cmdPrefix bytes) error =
        .ok (request.startLine.toList, headers, contentOrNone (request.content.getD [])) ∧
      headers.entries = request.wireHeaders := by
  obtain ⟨headers, hhead, hentries⟩ := @splitHead_head _ error h
  refine ⟨_, headers, toBytes_eq h cmdPrefix, ?_, hentries⟩
  have hbody : decodeContent (request.content.getD []) headers error =
      .ok (request.content.getD []) := by
    rw [decodeContent, get?_transferEncoding h hentries]
  rw [Text.removePrefix_append, splitMessage, partition_head h]
  simp only [decodeAscii_map (ascii_head h), hhead, hbody, bind, Except.bind, pure, Except.pure]

/-- A write whose content holds the end of a head. -/
def putWithHeaderEnd : Request :=
  ⟨"PUT", "/devices/1/endpoints/2/data",
    Dict.ofList [("Content-Type", "application/json"), ("X-Note", " a: b ")],
    some (bytesOf "[]\r\n\r\n[]"), some 7⟩

/-- It is split into what it was made of. -/
theorem splitMessage_toBytes_put : ∃ (bytes : Bytes) (headers : Headers),
    putWithHeaderEnd.toBytes [0x02] = .ok bytes ∧
    splitMessage (Text.removePrefix [0x02] bytes) .invalidRequest =
      .ok ("PUT /devices/1/endpoints/2/data HTTP/1.1".toList, headers,
        some (bytesOf "[]\r\n\r\n[]")) ∧
    headers.entries = [("content-type", "application/json"), ("x-note", "a: b"),
      ("content-length", "8"), ("transac-id", "7")] := by
  refine splitMessage_toBytes putWithHeaderEnd ?_ [0x02] .invalidRequest
  exact ⟨by decide, by decide, by decide, by decide, by decide, by decide⟩

end Protocol

end Tydomio
