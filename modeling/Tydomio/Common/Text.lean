import Mathlib.Algebra.Field.Rat
import Mathlib.Algebra.Ring.Nat
import Mathlib.Data.List.DropRight

/-!
# Searching, splitting and reading sequences

The sequence operations of a scripting language's byte strings and texts,
over lists: search and slices by position, splitting at a separator,
stripping, and reading an integer out of a text. Positions past the end
are allowed everywhere and read as the end. Splitting at one item is the
core library's `splitOn`, and a decimal text is that of its value unless it
has leading zeros: `split_singleton` and `toDigits_ofDigitChars_iff`.

Texts are Unicode; `isSpace` is the white space such a language strips
from them, `isAsciiSpace` the one it strips from byte strings, and
`isIntSpace` the one around the digits of an integer.
-/

namespace Common

namespace Text

section Search

variable {α : Type*} [DecidableEq α]

/-- The first position at which `sub` occurs. -/
def indexOf (sub : List α) : List α → Option ℕ
  | [] => if sub = [] then some 0 else none
  | x :: xs => if sub <+: x :: xs then some 0 else (indexOf sub xs).map (· + 1)

/-- The first position from `start` on at which `sub` occurs. -/
def find (sub xs : List α) (start : ℕ) : Option ℕ :=
  (indexOf sub (xs.drop start)).map (start + ·)

/-- The items from `start` up to `stop`, not included. -/
def slice (xs : List α) (start stop : ℕ) : List α := (xs.take stop).drop start

/-- The list without a prefix it may have. -/
def removePrefix (p xs : List α) : List α := if p <+: xs then xs.drop p.length else xs

/-- What stands before and after the first `sep`. -/
def partition (sep xs : List α) : Option (List α × List α) :=
  (indexOf sep xs).map fun i => (xs.take i, xs.drop (i + sep.length))

/-- The pieces between the occurrences of `sep`: `skip` items of the
separator are still to be passed, `piece` is read so far, last item
first. -/
def splitFrom (sep : List α) : ℕ → List α → List α → List (List α)
  | _, piece, [] => [piece.reverse]
  | skip + 1, piece, _ :: xs => splitFrom sep skip piece xs
  | 0, piece, x :: xs =>
      if sep <+: x :: xs then piece.reverse :: splitFrom sep (sep.length - 1) [] xs
      else splitFrom sep 0 (x :: piece) xs

/-- The pieces between the occurrences of a non-empty separator. -/
def split (sep xs : List α) : List (List α) := splitFrom sep 0 [] xs

/-- The list without the items of a kind at its two ends. -/
def strip (p : α → Bool) (xs : List α) : List α := (xs.dropWhile p).rdropWhile p

theorem le_of_find {sub xs : List α} {start i : ℕ} (h : find sub xs start = some i) :
    start ≤ i := by
  rw [find, Option.map_eq_some_iff] at h
  obtain ⟨j, -, rfl⟩ := h
  exact Nat.le_add_right _ _

omit [DecidableEq α] in
/-- A slice that reaches its full length lies inside the list. -/
theorem le_length_of_slice {xs ys : List α} {start : ℕ} (hpos : 0 < ys.length)
    (h : slice xs start (start + ys.length) = ys) : start + ys.length ≤ xs.length := by
  have hlen := congrArg List.length h
  rw [slice, List.length_drop, List.length_take] at hlen
  omega

theorem splitFrom_singleton (x : α) (piece xs : List α) :
    splitFrom [x] 0 piece xs = xs.splitOnPPrepend (· == x) piece := by
  induction xs generalizing piece with
  | nil => rfl
  | cons y ys ih =>
      have hstart : [x] <+: y :: ys ↔ y = x := by simp [eq_comm]
      rw [splitFrom, List.splitOnPPrepend_cons_eq_if, ← List.splitOnPPrepend_nil_right]
      by_cases hy : y = x
      · simp [hy, ih]
      · simp [hstart, hy, ih]

/-- Splitting at one item. -/
theorem split_singleton (x : α) (xs : List α) : split [x] xs = xs.splitOn x :=
  splitFrom_singleton x [] xs

end Search

/-! ## Characters -/

/-- The white space stripped from a text. -/
def isSpace (c : Char) : Bool :=
  let n := c.toNat
  (9 ≤ n && n ≤ 13) || (28 ≤ n && n ≤ 32) || n = 0x85 || n = 0xA0 || n = 0x1680 ||
    (0x2000 ≤ n && n ≤ 0x200A) || n = 0x2028 || n = 0x2029 || n = 0x202F || n = 0x205F ||
    n = 0x3000

/-- The white space stripped from a byte string. -/
def isAsciiSpace (b : UInt8) : Bool := (9 ≤ b && b ≤ 13) || b = 32

/-- The value of a hexadecimal digit. -/
def hexDigit (b : UInt8) : Option ℕ :=
  if 48 ≤ b && b ≤ 57 then some (b.toNat - 48)
  else if 65 ≤ b && b ≤ 70 then some (b.toNat - 55)
  else if 97 ≤ b && b ≤ 102 then some (b.toNat - 87)
  else none

/-- The value of a run of hexadecimal digits. -/
def hexValue (bs : List UInt8) : ℕ := bs.foldl (fun n b => 16 * n + (hexDigit b).getD 0) 0

/-- A byte string read as ASCII, `none` where a byte is not. -/
def decodeAscii (bs : List UInt8) : Option (List Char) :=
  if bs.all (· < 128) then some (bs.map fun b => Char.ofNat b.toNat) else none

/-- A text in lower case, letter by letter over ASCII. -/
def lower (cs : List Char) : List Char := cs.map Char.toLower

/-! ## Integers -/

/-- The digits of a run in which single underscores may stand between two
digits. -/
def digitRun : List Char → Option (List Char)
  | [] => none
  | [c] => if c.isDigit then some [c] else none
  | c :: '_' :: cs => if c.isDigit then (digitRun cs).map (c :: ·) else none
  | c :: cs => if c.isDigit then (digitRun cs).map (c :: ·) else none

/-- The longest run of digits read as an integer. -/
def maxDigits : ℕ := 4300

/-- A natural number read from a text of digits. -/
def readNat (cs : List Char) : Option ℕ :=
  (digitRun cs).bind fun ds =>
    if ds.length ≤ maxDigits then some (Nat.ofDigitChars 10 ds 0) else none

/-- The white space around the digits of an ASCII text. -/
def isIntSpace (c : Char) : Bool := (9 ≤ c.toNat && c.toNat ≤ 13) || c = ' '

/-- An integer read from an ASCII text: white space around it, a sign,
digits. -/
def readInt (text : String) : Option ℤ :=
  match strip isIntSpace text.toList with
  | '-' :: cs => (readNat cs).map fun n => -(n : ℤ)
  | '+' :: cs => (readNat cs).map Nat.cast
  | cs => (readNat cs).map Nat.cast

/-- A number read from digits, a point and digits. -/
def readPoint (cs : List Char) : Option ℚ :=
  match cs.dropWhile Char.isDigit with
  | '.' :: fraction =>
      let whole := cs.takeWhile Char.isDigit
      if whole ≠ [] ∧ fraction ≠ [] ∧ fraction.all Char.isDigit = true then
        some ((Nat.ofDigitChars 10 whole 0 : ℚ) +
          Nat.ofDigitChars 10 fraction 0 / 10 ^ fraction.length)
      else none
  | _ => none

/-! ## Decimal digits -/

/-- The value of digits ends with the last one. -/
theorem ofDigitChars_concat (ds : List Char) (c : Char) :
    Nat.ofDigitChars 10 (ds ++ [c]) 0 =
      10 * Nat.ofDigitChars 10 ds 0 + (c.toNat - '0'.toNat) := by
  rw [Nat.ofDigitChars_append, Nat.ofDigitChars_cons, Nat.ofDigitChars_nil]

theorem digit_lt {c : Char} (h : c.isDigit = true) : c.toNat - '0'.toNat < 10 := by
  have hle : c.toNat ≤ 57 := by
    simp only [Char.isDigit, Bool.and_eq_true, decide_eq_true_eq] at h
    exact h.2
  have hzero : '0'.toNat = 48 := rfl
  omega

theorem digitChar_sub {c : Char} (h : c.isDigit = true) :
    Nat.digitChar (c.toNat - '0'.toNat) = c := by
  have hge : 48 ≤ c.toNat := by
    simp only [Char.isDigit, Bool.and_eq_true, decide_eq_true_eq] at h
    exact h.1
  have hzero : '0'.toNat = 48 := rfl
  apply Char.toNat_inj.mp
  rw [Nat.toNat_digitChar_of_lt_ten (digit_lt h)]
  omega

/-- Digits stand for less than the power of their number. -/
theorem ofDigitChars_lt {ds : List Char} (h : ∀ c ∈ ds, c.isDigit = true) :
    Nat.ofDigitChars 10 ds 0 < 10 ^ ds.length := by
  induction ds using List.reverseRecOn with
  | nil => simp
  | append_singleton ds c ih =>
      have hds := ih fun d hd => h d (List.mem_append_left _ hd)
      have hc := digit_lt (h c (List.mem_append_right _ (List.mem_singleton_self c)))
      rw [ofDigitChars_concat, List.length_append, List.length_singleton, pow_succ]
      omega

theorem toDigits_ofDigitChars {ds : List Char} (hne : ds ≠ []) (h : ∀ c ∈ ds, c.isDigit = true)
    (hzero : ds.head? = some '0' → ds = ['0']) :
    Nat.toDigits 10 (Nat.ofDigitChars 10 ds 0) = ds := by
  induction ds using List.reverseRecOn with
  | nil => exact absurd rfl hne
  | append_singleton ds c ih =>
      have hc := h c (List.mem_append_right _ (List.mem_singleton_self c))
      rw [ofDigitChars_concat]
      cases ds with
      | nil =>
          rw [Nat.ofDigitChars_nil, Nat.mul_zero, Nat.zero_add,
            Nat.toDigits_of_lt_base (digit_lt hc), digitChar_sub hc]
          rfl
      | cons d ds =>
          -- no digit before the last is a leading zero, so they are not all zeros
          have hd : d ≠ '0' := by
            rintro rfl
            have hlength := congrArg List.length (hzero rfl)
            simp at hlength
          have hih := ih (List.cons_ne_nil _ _) (fun e he => h e (List.mem_append_left _ he))
            (fun hhead => absurd (Option.some.inj hhead) hd)
          have hpos : 0 < Nat.ofDigitChars 10 (d :: ds) 0 := by
            rw [Nat.pos_iff_ne_zero]
            intro hvalue
            rw [hvalue, Nat.toDigits_zero] at hih
            exact hd (List.cons.inj hih).1.symm
          have happend := Nat.toDigits_append_toDigits (b := 10) (by decide) hpos (digit_lt hc)
          rw [← happend, hih, Nat.toDigits_of_lt_base (digit_lt hc), digitChar_sub hc]

/-- **Digits are those of their value** where they have no leading zero,
and only there. -/
theorem toDigits_ofDigitChars_iff {ds : List Char} (hne : ds ≠ [])
    (h : ∀ c ∈ ds, c.isDigit = true) :
    Nat.toDigits 10 (Nat.ofDigitChars 10 ds 0) = ds ↔ (ds.head? = some '0' → ds = ['0']) := by
  refine ⟨fun heq hhead => ?_, toDigits_ofDigitChars hne h⟩
  obtain ⟨ds, rfl⟩ : ∃ ds', ds = '0' :: ds' := by
    cases ds with
    | nil => exact absurd rfl hne
    | cons d ds => exact ⟨ds, by rw [Option.some.inj hhead]⟩
  by_contra hds
  have hpos : 0 < ds.length := by
    rw [List.length_pos_iff]
    rintro rfl
    exact hds rfl
  have hlt : Nat.ofDigitChars 10 ('0' :: ds) 0 < 10 ^ ds.length := by
    rw [Nat.ofDigitChars_cons]
    exact ofDigitChars_lt fun c hc => h c (List.mem_cons_of_mem _ hc)
  have hlength := (Nat.length_toDigits_le_iff (by decide) hpos).2 hlt
  rw [heq, List.length_cons] at hlength
  omega

/-! ## Texts of numbers -/

theorem natText_injective : Function.Injective (toString : ℕ → String) := by
  intro m n h
  rw [Nat.toString_eq_repr, Nat.toString_eq_repr, ← String.toList_inj, Nat.toList_repr,
    Nat.toList_repr] at h
  rw [← Nat.ofDigitChars_toDigits (b := 10) (n := m) (by decide) (by decide), h,
    Nat.ofDigitChars_toDigits (by decide) (by decide)]

theorem isDigit_of_mem_natText {n : ℕ} {c : Char} (h : c ∈ (toString n).toList) :
    c.isDigit = true := by
  rw [Nat.toString_eq_repr, Nat.toList_repr] at h
  exact Nat.isDigit_of_mem_toDigits (by decide) (by decide) h

/-- **The digits of a number around a point** are read as their values. -/
theorem readPoint_natText (n : ℕ) {fraction : List Char} (hne : fraction ≠ [])
    (hdigits : ∀ c ∈ fraction, c.isDigit = true) :
    readPoint ((toString n).toList ++ '.' :: fraction) =
      some ((n : ℚ) + Nat.ofDigitChars 10 fraction 0 / 10 ^ fraction.length) := by
  have hwhole : ∀ c ∈ (toString n).toList, c.isDigit = true := fun c => isDigit_of_mem_natText
  have hdrop : ((toString n).toList ++ '.' :: fraction).dropWhile Char.isDigit =
      '.' :: fraction := by
    rw [List.dropWhile_append_of_pos hwhole]
    rfl
  have htake : ((toString n).toList ++ '.' :: fraction).takeWhile Char.isDigit =
      (toString n).toList := by
    rw [List.takeWhile_append_of_pos hwhole]
    exact List.append_nil _
  have htext : (toString n).toList = Nat.toDigits 10 n := by
    rw [Nat.toString_eq_repr, Nat.toList_repr]
  have hnat : (toString n).toList ≠ [] := by
    rw [htext]
    exact Nat.toDigits_ne_nil
  have hvalue : Nat.ofDigitChars 10 (toString n).toList 0 = n := by
    rw [htext, Nat.ofDigitChars_toDigits (by decide) (by decide)]
  unfold readPoint
  rw [hdrop, htake]
  refine (if_pos ⟨hnat, hne, List.all_eq_true.2 hdigits⟩).trans ?_
  rw [hvalue]

/-- A natural number's text starts with no sign. -/
theorem natText_ne_neg (m n : ℕ) : toString m ≠ "-" ++ toString n := by
  intro h
  have hmem : '-' ∈ (toString m).toList := by
    rw [h, String.toList_append]
    exact List.mem_append_left _ (List.mem_singleton_self '-')
  exact absurd (isDigit_of_mem_natText hmem) (by decide)

theorem intText_injective : Function.Injective (toString : ℤ → String) := by
  intro m n h
  rw [Int.toString_eq_repr, Int.toString_eq_repr, Int.repr_eq_if, Int.repr_eq_if] at h
  split at h
  · split at h
    · have htext := natText_injective h
      omega
    · exact absurd h (natText_ne_neg _ _)
  · split at h
    · exact absurd h.symm (natText_ne_neg _ _)
    · rw [String.append_right_inj] at h
      have htext := natText_injective h
      omega

theorem isDigit_or_neg_of_mem_intText {n : ℤ} {c : Char} (h : c ∈ (toString n).toList) :
    c.isDigit = true ∨ c = '-' := by
  rw [Int.toString_eq_repr, Int.repr_eq_if] at h
  split at h
  · exact .inl (isDigit_of_mem_natText h)
  · rw [String.toList_append, List.mem_append] at h
    rcases h with h | h
    · exact .inr (List.mem_singleton.1 h)
    · exact .inl (isDigit_of_mem_natText h)

theorem intText_ne_empty (n : ℤ) : toString n ≠ "" := by
  intro hempty
  have hlist : (toString n).toList = "".toList := congrArg String.toList hempty
  rw [Int.toString_eq_repr, Int.repr_eq_if] at hlist
  split at hlist <;> simp at hlist

/-- A list is taken apart at the last of its separators. -/
theorem append_cons_inj_of_not_mem {α : Type*} {xs xs' ys ys' : List α} {sep : α} (hys : sep ∉ ys)
    (hys' : sep ∉ ys') (h : xs ++ sep :: ys = xs' ++ sep :: ys') : xs = xs' ∧ ys = ys' := by
  rcases List.append_eq_append_iff.1 h with ⟨middle, rfl, hmiddle⟩ | ⟨middle, rfl, hmiddle⟩
  · cases middle with
    | nil =>
        cases hmiddle
        exact ⟨(List.append_nil xs).symm, rfl⟩
    | cons x middle =>
        obtain ⟨-, rfl⟩ := List.cons.inj hmiddle
        exact absurd (List.mem_append_right _ List.mem_cons_self) hys
  · cases middle with
    | nil =>
        cases hmiddle
        exact ⟨List.append_nil xs', rfl⟩
    | cons x middle =>
        obtain ⟨-, rfl⟩ := List.cons.inj hmiddle
        exact absurd (List.mem_append_right _ List.mem_cons_self) hys'

/-- A text and a number are read back from a text of both. -/
theorem append_natText_inj {text text' : String} {m n : ℕ}
    (h : text ++ ":" ++ toString m = text' ++ ":" ++ toString n) : text = text' ∧ m = n := by
  have hcolon : ∀ k : ℕ, ':' ∉ (toString k).toList := fun k hmem =>
    absurd (isDigit_of_mem_natText hmem) (by decide)
  have hlist : text.toList ++ ':' :: (toString m).toList =
      text'.toList ++ ':' :: (toString n).toList := by
    have htoList := congrArg String.toList h
    rw [String.toList_append, String.toList_append, String.toList_append, String.toList_append,
      List.append_assoc, List.append_assoc] at htoList
    exact htoList
  obtain ⟨htext, hnumber⟩ := append_cons_inj_of_not_mem (hcolon m) (hcolon n) hlist
  exact ⟨String.toList_inj.1 htext, natText_injective (String.toList_inj.1 hnumber)⟩

/-- A text with another character is no integer's. -/
theorem ne_intText {text : String} {c : Char} (hc : c ∈ text.toList) (hdigit : c.isDigit = false)
    (hneg : c ≠ '-') (n : ℤ) : text ≠ toString n := by
  rintro rfl
  rcases isDigit_or_neg_of_mem_intText hc with h | h
  · rw [h] at hdigit
    cases hdigit
  · exact hneg h

end Text

end Common
