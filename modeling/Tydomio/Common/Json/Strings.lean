import Tydomio.Common.Json.Print

/-!
# A string written is read back

Each character is written as itself, as a short escape or as one or two
units of UTF-16, and each of these is read as the character.
-/

namespace Common

namespace Json

/-! ## Units -/

theorem hexDigit_hexChar {n : ℕ} (h : n < 16) : hexDigit (hexChar n) = some n := by
  have hall : ∀ n < 16, hexDigit (hexChar n) = some n := by decide
  exact hall n h

/-- Four digits of a unit are read as the unit. -/
theorem hexValue_unit {n : ℕ} (h : n < 65536) :
    hexValue [hexChar (n / 4096 % 16), hexChar (n / 256 % 16), hexChar (n / 16 % 16),
      hexChar (n % 16)] = some n := by
  have h₁ := hexDigit_hexChar (Nat.mod_lt (n / 4096) (by omega : 0 < 16))
  have h₂ := hexDigit_hexChar (Nat.mod_lt (n / 256) (by omega : 0 < 16))
  have h₃ := hexDigit_hexChar (Nat.mod_lt (n / 16) (by omega : 0 < 16))
  have h₄ := hexDigit_hexChar (Nat.mod_lt n (by omega : 0 < 16))
  simp only [hexValue, List.foldl_cons, List.foldl_nil, Option.bind_some, h₁, h₂, h₃, h₄,
    Option.map_some]
  congr 1
  omega

/-! The cases of a string, one by one. -/

theorem scanPieces_end (rest : List Char) : scanPieces ('"' :: rest) = some ([], rest) := by
  rw [scanPieces.eq_def]
  rfl

theorem scanPieces_escape {letter d : Char} (hu : letter ≠ 'u') (hd : escaped letter = some d)
    (cs : List Char) : scanPieces ('\\' :: letter :: cs) =
      (scanPieces cs).map fun read => (.char d :: read.1, read.2) := by
  rw [scanPieces.eq_def]
  simp only [Char.reduceEq, if_false, if_true, if_neg hu, hd]
  cases scanPieces cs with
  | none => rfl
  | some read => rfl

theorem scanPieces_self {c : Char} (hquote : c ≠ '"') (hslash : c ≠ '\\')
    (hcontrol : ¬ c.toNat < 32) (cs : List Char) : scanPieces (c :: cs) =
      (scanPieces cs).map fun read => (.char c :: read.1, read.2) := by
  rw [scanPieces.eq_def]
  simp only [if_neg hquote, if_neg hslash, if_neg hcontrol]
  cases scanPieces cs with
  | none => rfl
  | some read => rfl

theorem scanPieces_unitEscape {n : ℕ} (h : n < 65536) (cs : List Char) :
    scanPieces (unitEscape n ++ cs) =
      (scanPieces cs).map fun read => (.unit n :: read.1, read.2) := by
  have hvalue := hexValue_unit h
  rw [scanPieces.eq_def]
  simp only [unitEscape, List.cons_append, List.nil_append, Char.reduceEq, if_false, if_true,
    hvalue]
  cases scanPieces cs with
  | none => rfl
  | some read => rfl

/-! ## Characters -/

/-- A character is no half of a pair. -/
theorem not_half (c : Char) : ¬ (0xd800 ≤ c.toNat ∧ c.toNat ≤ 0xdfff) := by
  have hvalid : c.toNat < 0xd800 ∨ 0xdfff < c.toNat ∧ c.toNat < 0x110000 := c.valid
  omega

theorem toNat_lt (c : Char) : c.toNat < 0x110000 := by
  have hvalid : c.toNat < 0xd800 ∨ 0xdfff < c.toNat ∧ c.toNat < 0x110000 := c.valid
  omega

/-- The parts a character is read as. -/
def piecesOf (ascii : Bool) (c : Char) : List Piece :=
  if (shortEscape c).isNone && (c.toNat < 32 || (ascii && 126 < c.toNat)) then
    if c.toNat < 0x10000 then [.unit c.toNat]
    else [.unit (0xd800 + (c.toNat - 0x10000) / 0x400),
      .unit (0xdc00 + (c.toNat - 0x10000) % 0x400)]
  else [.char c]

theorem escaped_of_shortEscape {c letter : Char} (h : shortEscape c = some letter) :
    letter ≠ 'u' ∧ escaped letter = some c := by
  unfold shortEscape at h
  split_ifs at h with hself hn hr ht hf hb
  · obtain rfl := Option.some.inj h
    rcases hself with rfl | rfl <;> decide
  all_goals
    obtain rfl := Option.some.inj h
    subst c
    decide

/-- **A character written is read as its parts.** -/
theorem scanPieces_writeChar (ascii : Bool) (c : Char) (cs : List Char) :
    scanPieces (writeChar ascii c ++ cs) =
      (scanPieces cs).map fun read => (piecesOf ascii c ++ read.1, read.2) := by
  unfold writeChar piecesOf
  cases hshort : shortEscape c with
  | some letter =>
      obtain ⟨hu, hletter⟩ := escaped_of_shortEscape hshort
      exact scanPieces_escape hu hletter cs
  | none =>
      simp only [Option.isNone_none, Bool.true_and]
      split_ifs with hescape hunit
      · -- one unit
        rw [unicodeEscape, if_pos hunit, scanPieces_unitEscape hunit]
        rfl
      · -- a pair
        have hlt := toNat_lt c
        rw [unicodeEscape, if_neg hunit, List.append_assoc, scanPieces_unitEscape (by omega),
          scanPieces_unitEscape (by omega)]
        cases scanPieces cs with
        | none => rfl
        | some read => rfl
      · -- itself
        have hquote : c ≠ '"' := by
          rintro rfl
          cases hshort
        have hslash : c ≠ '\\' := by
          rintro rfl
          cases hshort
        have hcontrol : ¬ c.toNat < 32 := by
          intro hlt
          simp [hlt] at hescape
        exact scanPieces_self hquote hslash hcontrol cs

/-- **Its parts are joined to the character.** -/
theorem joinPieces_piecesOf (ascii : Bool) (c : Char) (pieces : List Piece) :
    joinPieces (piecesOf ascii c ++ pieces) = (joinPieces pieces).map (c :: ·) := by
  have hhalf := not_half c
  have hlt := toNat_lt c
  unfold piecesOf
  split_ifs with hescape hunit
  · have hhigh : isHigh c.toNat = false := by
      simp only [isHigh, Bool.and_eq_false_iff, decide_eq_false_iff_not]
      omega
    have hlow : isLow c.toNat = false := by
      simp only [isLow, Bool.and_eq_false_iff, decide_eq_false_iff_not]
      omega
    change joinPieces (.unit c.toNat :: pieces) = _
    rw [joinPieces.eq_def]
    simp only [hhigh, hlow, Bool.false_eq_true, if_false, Char.ofNat_toNat]
  · have hhigh : isHigh (0xd800 + (c.toNat - 0x10000) / 0x400) = true := by
      simp only [isHigh, Bool.and_eq_true, decide_eq_true_eq]
      omega
    have hlow : isLow (0xdc00 + (c.toNat - 0x10000) % 0x400) = true := by
      simp only [isLow, Bool.and_eq_true, decide_eq_true_eq]
      omega
    have hpair : pairChar (0xd800 + (c.toNat - 0x10000) / 0x400)
        (0xdc00 + (c.toNat - 0x10000) % 0x400) = c := by
      have hnat : 0x10000 + (0xd800 + (c.toNat - 0x10000) / 0x400 - 0xd800) * 0x400 +
          (0xdc00 + (c.toNat - 0x10000) % 0x400 - 0xdc00) = c.toNat := by omega
      rw [pairChar, hnat, Char.ofNat_toNat]
    change joinPieces (.unit _ :: .unit _ :: pieces) = _
    rw [joinPieces, if_pos hhigh]
    simp only [if_pos hlow, hpair]
  · rfl

/-! ## Strings -/

/-- **A string written is read back**, up to its quote. -/
theorem scanString_write (ascii : Bool) (text : String) (rest : List Char) :
    scanString (text.toList.flatMap (writeChar ascii) ++ '"' :: rest) = .ok (text, rest) := by
  have hpieces : ∀ cs : List Char, scanPieces (cs.flatMap (writeChar ascii) ++ '"' :: rest) =
      some (cs.flatMap (piecesOf ascii), rest) := by
    intro cs
    induction cs with
    | nil => exact scanPieces_end rest
    | cons c cs ih =>
        rw [List.flatMap_cons, List.append_assoc, scanPieces_writeChar, ih, List.flatMap_cons,
          Option.map_some]
  have hjoin : ∀ cs : List Char, joinPieces (cs.flatMap (piecesOf ascii)) = some cs := by
    intro cs
    induction cs with
    | nil => rfl
    | cons c cs ih => rw [List.flatMap_cons, joinPieces_piecesOf, ih, Option.map_some]
  rw [scanString, hpieces]
  simp only [hjoin, String.ofList_toList]

end Json

end Common
