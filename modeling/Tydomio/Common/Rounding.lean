import Mathlib.Algebra.Order.Ring.Nat
import Mathlib.Tactic.Ring

/-!
# Rounding to a number of bits

A natural number rounded to its first `p` bits, to nearest and ties to even,
as the significand of a binary floating-point number is. Rounding may carry
into one more bit, so a number below a power of two may reach it:
`roundBits_lt_iff` says from which number on.
-/

namespace Common

/-- The number rounded to `p` bits, ties to even. -/
def roundBits (p a : ℕ) : ℕ :=
  let unit := 2 ^ (a.log2 + 1 - p)
  let kept := a / unit
  let rest := a % unit
  (if unit < 2 * rest ∨ 2 * rest = unit ∧ kept % 2 = 1 then kept + 1 else kept) * unit

/-- Rounding adds a unit at most, and takes less than one off. -/
theorem roundBits_bounds (p a : ℕ) :
    a / 2 ^ (a.log2 + 1 - p) * 2 ^ (a.log2 + 1 - p) ≤ roundBits p a ∧
      roundBits p a ≤ a + 2 ^ (a.log2 + 1 - p) := by
  have hkept := Nat.div_mul_le_self a (2 ^ (a.log2 + 1 - p))
  rw [roundBits]
  split
  · rw [Nat.add_mul, Nat.one_mul]
    omega
  · omega

/-- A number of a full unit and the parts of it: what rounds up to the next
power of two, where the number has as many bits as the power allows. -/
theorem roundBits_lt_iff_of_log2 {p e a : ℕ} (hp : 0 < p) (he : p < e) (ha : a.log2 + 1 = e) :
    roundBits p a < 2 ^ e ↔ a < 2 ^ e - 2 ^ (e - p - 1) := by
  obtain ⟨half, hhalf⟩ : ∃ half, half = 2 ^ (e - p - 1) := ⟨_, rfl⟩
  have hunit : 2 ^ (a.log2 + 1 - p) = 2 * half := by
    rw [ha, hhalf, ← Nat.pow_succ']
    congr 1
    omega
  have hpower : 2 ^ e = 2 ^ p * (2 * half) := by
    rw [← hunit, ha, ← Nat.pow_add]
    congr 1
    omega
  have hpos : 0 < half := by
    rw [hhalf]
    exact Nat.two_pow_pos _
  have heven : 2 ^ p % 2 = 0 := Nat.two_pow_mod_two_eq_zero.2 hp
  have hlt : a < 2 ^ e := by
    rw [← ha]
    exact Nat.lt_log2_self
  obtain ⟨kept, hkept⟩ : ∃ kept, kept = a / (2 * half) := ⟨_, rfl⟩
  obtain ⟨rest, hrest⟩ : ∃ rest, rest = a % (2 * half) := ⟨_, rfl⟩
  have hdiv : 2 * half * kept + rest = a := by
    rw [hkept, hrest]
    exact Nat.div_add_mod a _
  have hrestlt : rest < 2 * half := by
    rw [hrest]
    exact Nat.mod_lt _ (by omega)
  have hkeptlt : kept < 2 ^ p := by
    rw [hkept]
    refine Nat.div_lt_of_lt_mul ?_
    rw [Nat.mul_comm, ← hpower]
    exact hlt
  rw [roundBits, hunit, ← hkept, ← hrest, ← hhalf, hpower]
  have hcancel : ∀ n, n * (2 * half) < 2 ^ p * (2 * half) ↔ n < 2 ^ p := fun n =>
    Nat.mul_lt_mul_right (by omega)
  rw [hcancel]
  rcases Nat.lt_or_ge (kept + 1) (2 ^ p) with hsmall | hlarge
  · -- the unit above is still below the power
    have hbelow : (kept + 2) * (2 * half) ≤ 2 ^ p * (2 * half) :=
      Nat.mul_le_mul_right _ hsmall
    have hexpand : (kept + 2) * (2 * half) = 2 * half * kept + 2 * (2 * half) := by ring
    refine iff_of_true ?_ (by omega)
    split
    · exact hsmall
    · omega
  · have hlast : kept + 1 = 2 ^ p := by omega
    have hexpand : 2 ^ p * (2 * half) = 2 * half * kept + 2 * half := by
      rw [← hlast]
      ring
    rw [hexpand]
    split
    · rename_i hup
      refine iff_of_false (by omega) ?_
      omega
    · rename_i hdown
      refine iff_of_true hkeptlt ?_
      omega

/-- **Below a power of two**: what is less than half a unit under it reaches
it. -/
theorem roundBits_lt_iff {p e a : ℕ} (hp : 0 < p) (he : p < e) :
    roundBits p a < 2 ^ e ↔ a < 2 ^ e - 2 ^ (e - p - 1) := by
  have hle : 2 ^ (e - p - 1) ≤ 2 ^ (e - 1) := Nat.pow_le_pow_right (by omega) (by omega)
  have hdouble : 2 ^ e = 2 * 2 ^ (e - 1) := by
    rw [← Nat.pow_succ']
    congr 1
    omega
  have hupper : a < 2 ^ (a.log2 + 1) := Nat.lt_log2_self
  rcases Nat.lt_trichotomy (a.log2 + 1) e with hlt | heq | hgt
  · -- a bit less than the power has
    have hbits : 2 ^ (a.log2 + 1) ≤ 2 ^ (e - 1) := Nat.pow_le_pow_right (by omega) (by omega)
    have hunit : 2 ^ (a.log2 + 1 - p) ≤ 2 ^ (e - 1) := Nat.pow_le_pow_right (by omega) (by omega)
    have hround := (roundBits_bounds p a).2
    exact iff_of_true (by omega) (by omega)
  · exact roundBits_lt_iff_of_log2 hp he heq
  · have hne : a ≠ 0 := by
      rintro rfl
      rw [Nat.log2_zero] at hgt
      omega
    have hlower : 2 ^ a.log2 ≤ a := Nat.log2_self_le hne
    have hpower : 2 ^ e ≤ 2 ^ a.log2 := Nat.pow_le_pow_right (by omega) (by omega)
    -- the number without its rest is no less than its first bit
    have hsplit : 2 ^ a.log2 = 2 ^ (p - 1) * 2 ^ (a.log2 + 1 - p) := by
      rw [← Nat.pow_add]
      congr 1
      omega
    have hkept : 2 ^ (p - 1) ≤ a / 2 ^ (a.log2 + 1 - p) := by
      rw [Nat.le_div_iff_mul_le (Nat.two_pow_pos _), ← hsplit]
      exact hlower
    have hfloor : 2 ^ a.log2 ≤ a / 2 ^ (a.log2 + 1 - p) * 2 ^ (a.log2 + 1 - p) := by
      rw [hsplit]
      exact Nat.mul_le_mul_right _ hkept
    have hround := hpower.trans (hfloor.trans (roundBits_bounds p a).1)
    have hlarge : 2 ^ e - 2 ^ (e - p - 1) ≤ a := (Nat.sub_le _ _).trans (hpower.trans hlower)
    exact iff_of_false (Nat.not_lt.2 hround) (Nat.not_lt.2 hlarge)

end Common
