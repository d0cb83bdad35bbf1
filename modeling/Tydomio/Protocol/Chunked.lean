import Tydomio.Common.Search
import Tydomio.Protocol.Parse

/-!
# Chunked contents

What `_decode_chunked` accepts, as a grammar. `Framing` says which bytes
frame which content, without a position and without a search; the loop
returns a content exactly when the body frames it
(`decodeChunked_eq_ok_iff`), and raises the error it is given everywhere
else. Written framings are an instance: decoding `frame` gives the chunks
back, whatever their extensions.
-/

namespace Tydomio

open Common

namespace Protocol

/-! ## The grammar -/

/-- The part of a chunk line that announces the size: what stands before
the first `;`, without the white space around it. -/
def announcedSize (line : Bytes) : Bytes :=
  Text.strip Text.isAsciiSpace (line.takeWhile (· ≠ 59))

/-- **A chunk line announcing `n`**: it ends at its first CRLF, and its size
is one or more hexadecimal digits. -/
structure SizeLine (line : Bytes) (n : ℕ) : Prop where
  noCrlf : ¬ crlf <:+: line
  nonempty : announcedSize line ≠ []
  digits : ∀ b ∈ announcedSize line, (Text.hexDigit b).isSome = true
  value : Text.hexValue (announcedSize line) = n

/-- **The bytes that frame a content.** -/
inductive Framing : Bytes → Bytes → Prop
  /-- The last chunk, the final CRLF and nothing else. -/
  | last {line : Bytes} : SizeLine line 0 → Framing (line ++ crlf ++ crlf) []
  /-- A chunk of some bytes, then the rest. -/
  | chunk {line data rest content : Bytes} :
      SizeLine line data.length → data ≠ [] → Framing rest content →
      Framing (line ++ crlf ++ data ++ crlf ++ rest) (data ++ content)

theorem crlf_ne_nil : crlf ≠ [] := by decide

/-- A CRLF cannot begin at the carriage return of the one that ends the
line. -/
theorem crlf_infix_concat_iff {line : Bytes} :
    crlf <:+: line ++ crlf.dropLast ↔ crlf <:+: line := by
  have hlast : crlf.dropLast = [13] := rfl
  rw [hlast, List.infix_concat_iff, or_iff_right]
  intro hsuffix
  have hend := hsuffix.getLast crlf_ne_nil
  simp [crlf] at hend

variable {body : Bytes} {error : String → Exc}

/-- The end of a chunk line is found where its CRLF is. -/
theorem find_crlf {line after : Bytes} {position : ℕ} (hno : ¬ crlf <:+: line)
    (h : body.drop position = line ++ crlf ++ after) :
    Text.find crlf body position = some (position + line.length) :=
  Text.find_append crlf_ne_nil (fun hin => hno (crlf_infix_concat_iff.1 hin)) h

/-- The size text the loop reads off a chunk line. -/
theorem chunkSizeText_eq {line after : Bytes} {position : ℕ}
    (h : body.drop position = line ++ after) :
    chunkSizeText body position (position + line.length) = announcedSize line := by
  rw [chunkSizeText, Text.slice_of_drop h, announcedSize]

theorem isChunkSize_iff {size : Bytes} :
    isChunkSize size = true ↔ size ≠ [] ∧ ∀ b ∈ size, (Text.hexDigit b).isSome = true := by
  simp [isChunkSize]

/-! ## The loop reads the grammar -/

/-- From a position where a content is framed, the loop adds it. The
induction is on the framing: one round of the loop for each chunk. -/
theorem decodeChunkedFrom_of_framing {bytes rest : Bytes} (h : Framing bytes rest) :
    ∀ (position : ℕ) (content : Bytes), body.drop position = bytes →
      decodeChunkedFrom error body position content = .ok (content ++ rest) := by
  induction h with
  | @last line hline =>
      intro position content hdrop
      have hfind := find_crlf hline.noCrlf hdrop
      have hsize : isChunkSize (announcedSize line) = true :=
        isChunkSize_iff.2 ⟨hline.nonempty, hline.digits⟩
      have hstart : body.drop (position + line.length + 2) = crlf := by
        have hafter := Text.drop_of_drop hdrop
        rw [List.length_append] at hafter
        exact hafter
      rw [List.append_assoc] at hdrop
      rw [decodeChunkedFrom]
      split
      · rename_i hnone
        rw [hfind] at hnone
        cases hnone
      · rename_i lineEnd hsome
        obtain rfl := Option.some.inj (hfind.symm.trans hsome)
        simp [chunkSizeText_eq hdrop, hsize, hline.value, hstart]
  | @chunk line data rest tail hline hdata _ ih =>
      intro position content hdrop
      have hdrop' : body.drop position = line ++ crlf ++ (data ++ crlf ++ rest) := by
        simpa only [List.append_assoc] using hdrop
      have hfind := find_crlf hline.noCrlf hdrop'
      have hsize : isChunkSize (announcedSize line) = true :=
        isChunkSize_iff.2 ⟨hline.nonempty, hline.digits⟩
      have hstart : body.drop (position + line.length + 2) = data ++ (crlf ++ rest) := by
        have hafter := Text.drop_of_drop hdrop'
        rw [List.length_append, List.append_assoc] at hafter
        exact hafter
      have hstop := Text.drop_of_drop hstart
      have hslice := Text.slice_of_drop hstart
      have hend : Text.slice body (position + line.length + 2 + data.length)
          (position + line.length + 2 + data.length + 2) = crlf := Text.slice_of_drop hstop
      have hnext := ih _ (content ++ data) (Text.drop_of_drop hstop)
      have hlength : data.length ≠ 0 := fun hzero => hdata (List.length_eq_zero_iff.1 hzero)
      rw [List.append_assoc] at hdrop'
      rw [decodeChunkedFrom]
      split
      · rename_i hnone
        rw [hfind] at hnone
        cases hnone
      · rename_i lineEnd hsome
        obtain rfl := Option.some.inj (hfind.symm.trans hsome)
        simp only [chunkSizeText_eq hdrop', hsize, if_true, hline.value, hend, dif_pos, hslice,
          Nat.add_eq_left, if_neg hlength]
        rw [← List.append_assoc]
        exact hnext

/-- What the loop returns was framed from its position on. The induction
follows the loop; only two of its exits return. -/
theorem framing_of_decodeChunkedFrom {position : ℕ} {content result : Bytes}
    (h : decodeChunkedFrom error body position content = .ok result) :
    ∃ rest, Framing (body.drop position) rest ∧ result = content ++ rest := by
  fun_induction decodeChunkedFrom error body position content with
  | case1 => cases h
  | case2 position content lineEnd hfind size hsize start stop hstop hend =>
      obtain ⟨line, after, hdrop, rfl, hno⟩ := Text.exists_of_find crlf_ne_nil hfind
      have hannounced : size = announcedSize line :=
        chunkSizeText_eq (hdrop.trans (List.append_assoc _ _ _))
      obtain ⟨hne, hdigits⟩ := isChunkSize_iff.1 hsize
      rw [hannounced] at hne hdigits
      have hvalue : Text.hexValue (announcedSize line) = 0 := by
        rw [← hannounced]
        omega
      have hafter : after = crlf := by
        have hrest := Text.drop_of_drop hdrop
        rw [List.length_append] at hrest
        exact hrest.symm.trans hend
      have hline : SizeLine line 0 :=
        ⟨fun hin => hno (crlf_infix_concat_iff.2 hin), hne, hdigits, hvalue⟩
      refine ⟨[], ?_, ?_⟩
      · rw [hdrop, hafter]
        exact .last hline
      · rw [List.append_nil]
        exact (Except.ok.inj h).symm
  | case3 => cases h
  | case4 position content lineEnd hfind size hsize start stop hstop hend ih =>
      obtain ⟨line, after, hdrop, rfl, hno⟩ := Text.exists_of_find crlf_ne_nil hfind
      obtain ⟨rest, hframing, rfl⟩ := ih h
      have hannounced : size = announcedSize line :=
        chunkSizeText_eq (hdrop.trans (List.append_assoc _ _ _))
      obtain ⟨hne, hdigits⟩ := isChunkSize_iff.1 hsize
      rw [hannounced] at hne hdigits
      have hstart : body.drop start = after := by
        have hrest := Text.drop_of_drop hdrop
        rw [List.length_append] at hrest
        exact hrest
      -- the size is inside the body: its CRLF was found after it
      have hlength : stop ≤ body.length := by
        have hle := Text.le_length_of_slice (show 0 < crlf.length by decide) hend
        omega
      have hdata : body.drop start = Text.slice body start stop ++ body.drop stop :=
        Text.drop_eq_of_slice rfl
      have hsliceLength : (Text.slice body start stop).length = Text.hexValue size := by
        rw [Text.slice, List.length_drop, List.length_take]
        omega
      have hline : SizeLine line (Text.slice body start stop).length :=
        ⟨fun hin => hno (crlf_infix_concat_iff.2 hin), hne, hdigits, by
          rw [hsliceLength, ← hannounced]⟩
      refine ⟨Text.slice body start stop ++ rest, ?_, by rw [List.append_assoc]⟩
      have hbody : body.drop position =
          line ++ crlf ++ Text.slice body start stop ++ crlf ++ body.drop (stop + 2) := by
        rw [hdrop, ← hstart, hdata, Text.drop_eq_of_slice hend]
        simp only [List.append_assoc]
      rw [hbody]
      refine .chunk hline (fun hnil => hstop ?_) hframing
      rw [hnil, List.length_nil] at hsliceLength
      omega
  | case5 => cases h
  | case6 => cases h

/-- **A content is returned exactly when the body frames it.** -/
theorem decodeChunked_eq_ok_iff {content : Bytes} :
    decodeChunked body error = .ok content ↔ Framing body content := by
  constructor
  · intro h
    obtain ⟨rest, hframing, hrest⟩ := framing_of_decodeChunkedFrom h
    rw [List.drop_zero] at hframing
    rw [hrest, List.nil_append]
    exact hframing
  · intro h
    exact decodeChunkedFrom_of_framing h 0 [] List.drop_zero

/-- Everything else raises the error it is given. -/
theorem decodeChunked_error (h : ∀ content, ¬ Framing body content) :
    ∃ text, decodeChunked body error = .error (error text) := by
  classical
  have hraises : RaisesOnly (fun e => decide (∃ text, e = error text))
      (decodeChunked body error) :=
    raisesOnly_decodeChunkedFrom (fun text => decide_eq_true ⟨text, rfl⟩) body 0 []
  cases hresult : decodeChunked body error with
  | ok content => exact absurd (decodeChunked_eq_ok_iff.1 hresult) (h content)
  | error e =>
      obtain ⟨text, rfl⟩ := of_decide_eq_true (hraises e hresult)
      exact ⟨text, rfl⟩

/-! ## Written framings -/

/-- The hexadecimal digits of a number. -/
def hexDigits (n : ℕ) : Bytes := (Nat.toDigits 16 n).map fun c => UInt8.ofNat c.toNat

/-- The line of a chunk of `n` bytes, with the extension it may have. -/
def sizeLine (n : ℕ) (extension : Option Bytes) : Bytes :=
  hexDigits n ++ extension.elim [] (59 :: ·)

/-- A chunk to write. -/
structure Chunk where
  data : Bytes
  extension : Option Bytes

/-- The chunk framed. -/
def Chunk.framed (chunk : Chunk) : Bytes :=
  sizeLine chunk.data.length chunk.extension ++ crlf ++ chunk.data ++ crlf

/-- **The chunks framed one after the other**, then the last chunk with its
extension. -/
def frame (chunks : List Chunk) (extension : Option Bytes) : Bytes :=
  chunks.flatMap Chunk.framed ++ (sizeLine 0 extension ++ crlf ++ crlf)

/-- A digit reads as its value, and is neither white space nor `;` nor an
end of line. -/
theorem hexDigit_digitChar : ∀ d < 16,
    Text.hexDigit (UInt8.ofNat (Nat.digitChar d).toNat) = some d ∧
    Text.isAsciiSpace (UInt8.ofNat (Nat.digitChar d).toNat) = false ∧
    UInt8.ofNat (Nat.digitChar d).toNat ≠ 59 ∧
    UInt8.ofNat (Nat.digitChar d).toNat ≠ 13 := by
  decide

theorem hexDigits_of_lt {n : ℕ} (h : n < 16) :
    hexDigits n = [UInt8.ofNat (Nat.digitChar n).toNat] := by
  rw [hexDigits, Nat.toDigits_of_lt_base h, List.map_singleton]

/-- The digits of a number end with the last one. -/
theorem hexDigits_of_le {n : ℕ} (h : 16 ≤ n) :
    hexDigits n = hexDigits (n / 16) ++ hexDigits (n % 16) := by
  have hpos : 0 < n / 16 := by omega
  have hlast : n % 16 < 16 := by omega
  have hsplit : 16 * (n / 16) + n % 16 = n := by omega
  have happend := Nat.toDigits_append_toDigits (b := 16) (by decide) hpos hlast
  rw [hsplit] at happend
  rw [hexDigits, ← happend, List.map_append, hexDigits, hexDigits]

theorem mem_hexDigits {n : ℕ} {b : UInt8} (h : b ∈ hexDigits n) :
    ∃ d < 16, b = UInt8.ofNat (Nat.digitChar d).toNat := by
  induction n using Nat.strongRecOn with
  | ind n ih =>
      rcases Nat.lt_or_ge n 16 with hn | hn
      · rw [hexDigits_of_lt hn, List.mem_singleton] at h
        exact ⟨n, hn, h⟩
      · rw [hexDigits_of_le hn, List.mem_append] at h
        refine h.elim (ih (n / 16) (by omega)) (ih (n % 16) (by omega))

theorem hexDigits_ne_nil (n : ℕ) : hexDigits n ≠ [] := by
  rcases Nat.lt_or_ge n 16 with hn | hn
  · rw [hexDigits_of_lt hn]
    exact List.cons_ne_nil _ _
  · rw [hexDigits_of_le hn, hexDigits_of_lt (Nat.mod_lt n (by decide))]
    exact List.append_ne_nil_of_right_ne_nil _ (List.cons_ne_nil _ _)

/-- **The digits of a number read back as the number.** -/
theorem hexValue_hexDigits (n : ℕ) : Text.hexValue (hexDigits n) = n := by
  induction n using Nat.strongRecOn with
  | ind n ih =>
      have hlast : ∀ d < 16, ∀ m, 16 * m + (Text.hexDigit
          (UInt8.ofNat (Nat.digitChar d).toNat)).getD 0 = 16 * m + d := by
        intro d hd m
        rw [(hexDigit_digitChar d hd).1, Option.getD_some]
      rcases Nat.lt_or_ge n 16 with hn | hn
      · rw [hexDigits_of_lt hn, Text.hexValue, List.foldl_cons, List.foldl_nil, hlast n hn]
        omega
      · have hmod : n % 16 < 16 := Nat.mod_lt n (by decide)
        have hhigh := ih (n / 16) (by omega)
        rw [Text.hexValue] at hhigh
        rw [hexDigits_of_le hn, hexDigits_of_lt hmod, Text.hexValue, List.foldl_append, hhigh,
          List.foldl_cons, List.foldl_nil, hlast _ hmod]
        omega

/-- The size is what stands before the extension. -/
theorem announcedSize_sizeLine (n : ℕ) (extension : Option Bytes) :
    announcedSize (sizeLine n extension) = hexDigits n := by
  have hkept : ∀ b ∈ hexDigits n, decide (b ≠ 59) = true := by
    intro b hb
    obtain ⟨d, hd, rfl⟩ := mem_hexDigits hb
    exact decide_eq_true (hexDigit_digitChar d hd).2.2.1
  have htake : (sizeLine n extension).takeWhile (· ≠ 59) = hexDigits n := by
    rw [sizeLine, List.takeWhile_append_of_pos hkept]
    cases extension <;> simp
  have hspace : ∀ b ∈ hexDigits n, Text.isAsciiSpace b = false := by
    intro b hb
    obtain ⟨d, hd, rfl⟩ := mem_hexDigits hb
    exact (hexDigit_digitChar d hd).2.1
  rw [announcedSize, htake, Text.strip_of_forall hspace]

theorem sizeLine_spec (n : ℕ) {extension : Option Bytes}
    (h : ∀ bytes ∈ extension, ¬ crlf <:+: bytes) : SizeLine (sizeLine n extension) n := by
  have hdigits : ∀ b ∈ hexDigits n, (Text.hexDigit b).isSome = true := by
    intro b hb
    obtain ⟨d, hd, rfl⟩ := mem_hexDigits hb
    rw [(hexDigit_digitChar d hd).1, Option.isSome_some]
  have hreturn : (13 : UInt8) ∉ hexDigits n := by
    intro hmem
    obtain ⟨d, hd, hb⟩ := mem_hexDigits hmem
    exact (hexDigit_digitChar d hd).2.2.2 hb.symm
  refine ⟨?_, ?_, ?_, ?_⟩
  · rw [sizeLine, crlf, Text.infix_append_iff_of_not_mem hreturn]
    cases extension with
    | none => decide
    | some bytes =>
        have hstart : ¬ [13, 10] <+: 59 :: bytes := by
          intro hpre
          exact absurd (List.cons_prefix_cons.1 hpre).1 (by decide)
        rw [Option.elim_some, List.infix_cons_iff, or_iff_right hstart]
        exact h bytes rfl
  · rw [announcedSize_sizeLine]
    exact hexDigits_ne_nil n
  · rw [announcedSize_sizeLine]
    exact hdigits
  · rw [announcedSize_sizeLine, hexValue_hexDigits]

/-- What is written is a framing of the chunks joined. -/
theorem framing_frame {chunks : List Chunk} {extension : Option Bytes}
    (hchunks : ∀ chunk ∈ chunks, chunk.data ≠ [] ∧
      ∀ bytes ∈ chunk.extension, ¬ crlf <:+: bytes)
    (hlast : ∀ bytes ∈ extension, ¬ crlf <:+: bytes) :
    Framing (frame chunks extension) (chunks.flatMap Chunk.data) := by
  induction chunks with
  | nil => exact .last (sizeLine_spec 0 hlast)
  | cons chunk chunks ih =>
      obtain ⟨hne, hextension⟩ := hchunks chunk List.mem_cons_self
      have hrest := ih fun c hc => hchunks c (List.mem_cons_of_mem _ hc)
      have hchunk := Framing.chunk (sizeLine_spec _ hextension) hne hrest
      rw [frame, List.flatMap_cons, List.flatMap_cons, List.append_assoc]
      exact hchunk

/-- **The chunked decoder accepts the framings and nothing else.** It always
ends, with the content of the framing or with the error it is given; and
whatever is framed into non-empty chunks is read back. -/
theorem decodeChunked_spec (body : Bytes) (error : String → Exc) :
    (∀ content, decodeChunked body error = .ok content ↔ Framing body content) ∧
    ((∀ content, ¬ Framing body content) →
      ∃ text, decodeChunked body error = .error (error text)) ∧
    (∀ chunks extension,
      (∀ chunk ∈ chunks, chunk.data ≠ [] ∧ ∀ bytes ∈ chunk.extension, ¬ crlf <:+: bytes) →
      (∀ bytes ∈ extension, ¬ crlf <:+: bytes) → body = frame chunks extension →
      decodeChunked body error = .ok (chunks.flatMap Chunk.data)) := by
  refine ⟨fun content => decodeChunked_eq_ok_iff, decodeChunked_error, ?_⟩
  rintro chunks extension hchunks hlast rfl
  exact decodeChunked_eq_ok_iff.2 (framing_frame hchunks hlast)

/-- At a body of one chunk with an extension. -/
theorem decodeChunked_spec_extension :
    decodeChunked (bytesOf "2;name=value\r\n\x7b\x7d\r\n0\r\n\r\n") .invalidRequest =
      .ok (bytesOf "\x7b\x7d") := by
  refine (decodeChunked_spec _ .invalidRequest).2.2
    [⟨bytesOf "\x7b\x7d", some (bytesOf "name=value")⟩] none ?_ ?_ ?_
  · intro chunk hchunk
    rw [List.mem_singleton.1 hchunk]
    refine ⟨by decide +kernel, fun bytes hbytes => ?_⟩
    rw [← Option.some.inj hbytes]
    decide +kernel
  · intro bytes hbytes
    cases hbytes
  · decide +kernel

end Protocol

end Tydomio
