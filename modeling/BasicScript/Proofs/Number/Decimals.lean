/-
  Decimals as reals.

  * `Decimal.value`: the number that a decimal denotes.
  * `overflowLimit`: `2^1024 - 2^970`, half a step above the largest finite real.
  * `Decimal.toBinary64_of_whole`: a decimal without a fraction is rounded as a whole number.
  * `Decimal.isFinite_toBinary64_iff`: a decimal is rounded to a finite real if it is below this limit;
    `Decimal.toBinary64_of_overflow`: any other one is rounded to infinity.
-/
import Mathlib.Tactic.FieldSimp
import Mathlib.Algebra.Order.Field.Rat
import Mathlib.Algebra.Order.Field.Power
import BasicScript.Number.Decimal
import BasicScript.Proofs.Number.Rounding

namespace BasicScript

/-- The least number that is too large for a finite real: half way between the largest one and
`2^1024`. -/
def overflowLimit : ℚ := 2 ^ 1024 - 2 ^ 970

theorem natCast_one_pos : (0 : ℚ) < Binary64.one := by exact_mod_cast Binary64.one_pos

theorem overflowUnits_eq : (Binary64.overflowUnits : ℚ) = overflowLimit * Binary64.one := by
  have hunits : Binary64.overflowUnits + 2 ^ 970 * Binary64.one = 2 ^ 1024 * Binary64.one := by
    decide +kernel
  have hcast : ((Binary64.overflowUnits + 2 ^ 970 * Binary64.one : Nat) : ℚ) =
      (2 ^ 1024 * Binary64.one : Nat) := congrArg Nat.cast hunits
  simp only [Nat.cast_add, Nat.cast_mul, Nat.cast_pow, Nat.cast_ofNat] at hcast
  rw [overflowLimit, sub_mul]
  exact eq_sub_of_add_eq hcast

theorem two_pow_le_ten_pow : 2 ^ 1024 ≤ 10 ^ 311 := by decide +kernel

theorem one_le_overflowLimit : 1 ≤ overflowLimit := by
  have hpow : (1 + 2 ^ 970 : ℚ) ≤ 2 ^ 1024 := by
    have hpow : 1 + 2 ^ 970 ≤ 2 ^ 1024 := by decide +kernel
    exact_mod_cast hpow
  exact le_sub_right_of_add_le hpow

namespace Decimal

variable {d : Decimal} {negative : Bool}

/-- The number that a decimal denotes. -/
def value (d : Decimal) : ℚ := d.coefficient * 10 ^ d.exponent

theorem ten_zpow (e : Int) : (10 : ℚ) ^ e = 10 ^ e.toNat / 10 ^ (-e).toNat := by
  obtain ⟨n, rfl | rfl⟩ := e.eq_nat_or_neg <;> simp

theorem value_lt_of_small (h : d.exponent + d.coefficient.log2 < -330) : d.value < 1 := by
  have hcoefficient : (d.coefficient : ℚ) < 10 ^ (d.coefficient.log2 + 1) := by
    have hlt : d.coefficient < 10 ^ (d.coefficient.log2 + 1) :=
      Nat.lt_of_lt_of_le Nat.lt_log2_self (Nat.pow_le_pow_left (by omega) _)
    exact_mod_cast hlt
  have hpos : (0 : ℚ) < 10 ^ d.exponent := zpow_pos (by norm_num) _
  calc
    d.value < 10 ^ (d.coefficient.log2 + 1) * 10 ^ d.exponent :=
      mul_lt_mul_of_pos_right hcoefficient hpos
    _ = (10 : ℚ) ^ ((d.coefficient.log2 + 1 : Nat) + d.exponent) := by
      rw [zpow_add₀ (by norm_num), zpow_natCast]
    _ ≤ 10 ^ (0 : Int) := zpow_le_zpow_right₀ (by norm_num) (by push_cast; omega)
    _ = 1 := zpow_zero _

theorem overflowLimit_le_of_large (hne : d.coefficient ≠ 0) (h : 310 < d.exponent) :
    overflowLimit ≤ d.value := by
  have hone : (1 : ℚ) ≤ d.coefficient := by exact_mod_cast Nat.one_le_iff_ne_zero.2 hne
  have hpow : ((2 : ℚ) ^ 1024) ≤ 10 ^ 311 := by exact_mod_cast two_pow_le_ten_pow
  calc
    overflowLimit ≤ 2 ^ 1024 := sub_le_self _ (pow_nonneg two_pos.le _)
    _ ≤ 10 ^ 311 := hpow
    _ = (10 : ℚ) ^ (311 : Int) := (zpow_natCast 10 311).symm
    _ ≤ 10 ^ d.exponent := zpow_le_zpow_right₀ (by norm_num) (by omega)
    _ ≤ d.value := le_mul_of_one_le_left (zpow_pos (by norm_num) _).le hone

/-- Digits without a point are rounded as a whole number. -/
theorem toBinary64_of_whole {n : Nat} (hn : n ≠ 0) :
    toBinary64 negative ⟨n, 0⟩ = .ofInt (Binary64.signed negative n) := by
  have hsign : decide (Binary64.signed negative n < 0) = negative := by
    simp [Binary64.signed_lt_zero_iff, hn]
  simp only [toBinary64, Binary64.ofInt, hsign, Binary64.natAbs_signed]
  rw [if_neg hn, if_neg (by decide), if_neg (by omega)]
  simp only [neg_zero, Int.toNat_zero, Nat.pow_zero, mul_one, Nat.pow_eq]

/-- A decimal below the limit is rounded to a finite real, and only such a one. -/
theorem isFinite_toBinary64_iff : (d.toBinary64 negative).isFinite = true ↔ d.value < overflowLimit := by
  unfold toBinary64
  split_ifs with hzero hlarge hsmall
  · refine iff_of_true rfl ?_
    rw [value, hzero, Nat.cast_zero, zero_mul]
    exact one_pos.trans_le one_le_overflowLimit
  · exact iff_of_false nofun (overflowLimit_le_of_large hzero hlarge).not_gt
  · exact iff_of_true rfl ((value_lt_of_small hsmall).trans_le one_le_overflowLimit)
  · have hden : 0 < 10 ^ (-d.exponent).toNat := Nat.pow_pos (by omega)
    rw [Nat.pow_eq, Nat.pow_eq, Binary64.isFinite_roundUnits_iff hden, ← @Nat.cast_lt ℚ]
    simp only [Nat.cast_mul, Nat.cast_pow, Nat.cast_ofNat]
    rw [overflowUnits_eq, mul_right_comm overflowLimit, mul_lt_mul_iff_of_pos_right natCast_one_pos, value,
      ten_zpow, mul_div_assoc', div_lt_iff₀ (by exact_mod_cast hden)]

/-- Any other decimal is rounded to infinity. -/
theorem toBinary64_of_overflow (h : overflowLimit ≤ d.value) :
    d.toBinary64 negative = .infinite negative := by
  have hfinite : ¬ (d.toBinary64 negative).isFinite = true := by
    rw [isFinite_toBinary64_iff]
    exact h.not_gt
  unfold toBinary64 at hfinite ⊢
  split_ifs at hfinite ⊢
  · exact absurd rfl hfinite
  · rfl
  · exact absurd rfl hfinite
  · exact Binary64.roundUnits_of_not_isFinite (Bool.not_eq_true _ ▸ hfinite)

end Decimal

end BasicScript
