/-
  Rounding to binary64: what is kept, and what is too large.

  * `divRoundEven_le_iff`: a quotient is rounded to an odd number at most if it is less than half
    above that number.
  * `Binary64.roundUnits_size`: a number that is representable is kept; `units?_ofInt`: so are whole
    numbers of less than 53 bits.
  * `Binary64.overflowUnits`: half a step above the largest finite number, in units;
    `isFinite_roundUnits_iff`: a quotient below it is rounded to a finite number, and only such a
    one.
-/
import Mathlib.Tactic.GCongr
import Mathlib.Tactic.Ring
import BasicScript.Proofs.Value.Numbers

namespace BasicScript

/-- A half goes up next to an odd number. -/
theorem divRoundEven_le_iff {num den n : Nat} (hden : 0 < den) (hodd : n % 2 = 1) :
    divRoundEven num den ≤ n ↔ 2 * num < (2 * n + 1) * den := by
  have hbounds := divRoundEven_bounds num den
  have hdecomp := Nat.div_add_mod num den
  have hmod := Nat.mod_lt num hden
  rcases Nat.lt_trichotomy (num / den) n with hlt | heq | hgt
  · have hle : den * (num / den) + den ≤ n * den := by
      rw [← Nat.mul_succ, Nat.mul_comm n]
      exact Nat.mul_le_mul_left den hlt
    have hsum : (2 * n + 1) * den = 2 * (n * den) + den := by rw [add_mul, one_mul, mul_assoc]
    constructor <;> intro <;> omega
  · have hsum : (2 * n + 1) * den = 2 * (den * (num / den)) + den := by rw [heq]; ring
    simp only [divRoundEven, heq]
    split
    · constructor <;> intro <;> omega
    · split <;> constructor <;> intro <;> omega
  · have hle : n * den + den ≤ den * (num / den) := by
      rw [← Nat.succ_mul, Nat.mul_comm den]
      exact Nat.mul_le_mul_right den hgt
    have hsum : (2 * n + 1) * den = 2 * (n * den) + den := by rw [add_mul, one_mul, mul_assoc]
    constructor <;> intro <;> omega

namespace Binary64

variable {negative : Bool} {mantissa shift num den : Nat} {n : Int}

theorem fullMantissa_eq : fullMantissa = 2 ^ 52 := rfl

/-! ## Numbers that are kept -/

/-- Rounding a representable number does not change it. -/
theorem roundUnits_size (h : IsCanonical mantissa shift) :
    roundUnits negative (size mantissa shift) 1 = finite negative mantissa shift h := by
  have hlt : mantissa < 2 * 2 ^ 52 := h.1
  have hfull : shift = 0 ∨ 2 ^ 52 ≤ mantissa := h.2.2
  have hshift : (size mantissa shift).log2 - 52 = shift := by
    unfold size
    rcases Nat.eq_zero_or_pos shift with rfl | hpos
    · have hlog : mantissa.log2 < 53 := by
        by_cases hm : mantissa = 0
        · simp [hm]
        · exact (Nat.log2_lt hm).2 (by omega)
      simp only [Nat.pow_eq, pow_zero, mul_one]
      omega
    · have hfull : 2 ^ 52 ≤ mantissa := hfull.resolve_left hpos.ne'
      have hne : mantissa * 2 ^ shift ≠ 0 :=
        Nat.mul_ne_zero (by omega) (Nat.two_pow_pos shift).ne'
      have hlog : (mantissa * 2 ^ shift).log2 = 52 + shift := by
        refine (Nat.log2_eq_iff hne).2 ⟨?_, ?_⟩
        · rw [pow_add]
          exact Nat.mul_le_mul_right _ hfull
        · rw [show 52 + shift + 1 = 53 + shift by omega, pow_add]
          exact Nat.mul_lt_mul_of_pos_right (by omega) (Nat.two_pow_pos shift)
      rw [Nat.pow_eq, hlog]
      omega
  have hkept : divRoundEven (size mantissa shift) (size 1 shift) = mantissa := by
    rw [size, size, one_mul]
    exact divRoundEven_mul_right mantissa (Nat.two_pow_pos shift)
  rw [roundUnits, Nat.div_one, hshift, hkept, ofScaled, dif_pos h]

/-- A whole number of less than 53 bits is representable. -/
theorem exists_canonical_of_lt {n : Nat} (hn : n < 2 ^ 53) :
    ∃ mantissa shift, IsCanonical mantissa shift ∧ size mantissa shift = n * one := by
  by_cases hzero : n = 0
  · exact ⟨0, 0, by decide, by simp [hzero, size]⟩
  · have hlog : n.log2 < 53 := (Nat.log2_lt hzero).2 hn
    -- the mantissa is the number moved up until all 53 bits are used
    refine ⟨n * 2 ^ (52 - n.log2), 1022 + n.log2, ⟨?_, by omega, .inr ?_⟩, ?_⟩
    · have hlt : n * 2 ^ (52 - n.log2) < 2 ^ (n.log2 + 1) * 2 ^ (52 - n.log2) :=
        Nat.mul_lt_mul_of_pos_right Nat.lt_log2_self (Nat.two_pow_pos _)
      rwa [← pow_add, show n.log2 + 1 + (52 - n.log2) = 52 + 1 by omega, pow_succ'] at hlt
    · have hle : 2 ^ n.log2 * 2 ^ (52 - n.log2) ≤ n * 2 ^ (52 - n.log2) :=
        Nat.mul_le_mul_right _ (Nat.log2_self_le hzero)
      rwa [← pow_add, show n.log2 + (52 - n.log2) = 52 by omega] at hle
    · unfold size one
      generalize hk : 1074 = k
      rw [Nat.pow_eq, Nat.pow_eq, mul_assoc, ← pow_add]
      congr 2
      omega

theorem signed_natAbs (n : Int) : signed (n < 0) n.natAbs = n := by
  by_cases hneg : n < 0
  · simp only [signed, hneg, decide_true, if_true]
    omega
  · simp only [signed, hneg, decide_false, Bool.false_eq_true, if_false]
    omega

theorem units?_ofInt (hn : n.natAbs < 2 ^ 53) : (ofInt n).units? = some (n * one) := by
  obtain ⟨mantissa, shift, hcanonical, hsize⟩ := exists_canonical_of_lt hn
  rw [ofInt, ← hsize, roundUnits_size hcanonical, units?, hsize, signed_mul, signed_natAbs]

/-! ## Numbers that are too large -/

/-- The number of units half way between the largest mantissa under the shift `k + 1` and the next
power of two. -/
def halfStepBelow (k : Nat) : Nat := (4 * fullMantissa - 1) * Nat.pow 2 k

/-- The least number of units that is rounded to infinity, half a step above the largest finite
number. -/
def overflowUnits : Nat := halfStepBelow 2044

theorem ofScaled_of_not_isFinite (h : (ofScaled negative mantissa shift).isFinite = false) :
    ofScaled negative mantissa shift = infinite negative := by
  unfold ofScaled at h ⊢
  split
  · next hc => simp [hc, isFinite] at h
  · next hc =>
    split
    · next hhalf => simp [hc, hhalf, isFinite] at h
    · rfl

theorem roundUnits_of_not_isFinite (h : (roundUnits negative num den).isFinite = false) :
    roundUnits negative num den = infinite negative := ofScaled_of_not_isFinite h

theorem isFinite_ofScaled_iff (hle : mantissa ≤ 2 * fullMantissa)
    (hfull : shift = 0 ∨ fullMantissa ≤ mantissa) :
    (ofScaled negative mantissa shift).isFinite = true ↔
      shift ≤ 2044 ∨ shift = 2045 ∧ mantissa < 2 * fullMantissa := by
  have hpos : 0 < fullMantissa := Nat.two_pow_pos 52
  unfold ofScaled
  split
  · next hc =>
    obtain ⟨hlt, hshift, -⟩ := hc
    simp only [isFinite, true_iff]
    omega
  · next hc =>
    split
    · next hhalf =>
      obtain ⟨-, hshift, -⟩ := hhalf
      simp only [isFinite, true_iff]
      omega
    · next hhalf =>
      simp only [isFinite, Bool.false_eq_true, false_iff]
      unfold IsCanonical at hc hhalf
      omega

/-- The rounded mantissa has 53 bits, or is the next power of two. -/
theorem mantissa_bounds (num : Nat) (hden : 0 < den) :
    let shift := (num / den).log2 - 52
    num < 2 * fullMantissa * size den shift ∧
      (shift = 0 ∨ fullMantissa * size den shift ≤ num) := by
  intro shift
  have hsize : size den shift = den * 2 ^ shift := rfl
  rw [fullMantissa_eq, hsize]
  have hpos : 0 < den * 2 ^ shift := Nat.mul_pos hden (Nat.two_pow_pos shift)
  constructor
  · have hlt : num / den < 2 ^ (shift + 53) :=
      Nat.lt_of_lt_of_le Nat.lt_log2_self (Nat.pow_le_pow_right (by omega) (by omega))
    rw [Nat.div_lt_iff_lt_mul hden] at hlt
    calc
      num < 2 ^ (shift + 53) * den := hlt
      _ = 2 * 2 ^ 52 * (den * 2 ^ shift) := by ring
  · by_cases hzero : shift = 0
    · exact .inl hzero
    · right
      have hne : num / den ≠ 0 := by
        rintro hquot
        simp [shift, hquot] at hzero
      have hle : 2 ^ (shift + 52) ≤ num / den :=
        (Nat.pow_le_pow_right (by omega) (by omega)).trans (Nat.log2_self_le hne)
      rw [Nat.le_div_iff_mul_le hden] at hle
      calc
        2 ^ 52 * (den * 2 ^ shift) = 2 ^ (shift + 52) * den := by ring
        _ ≤ num := hle

/-- At the shift `k + 1` it depends on the rounding whether the mantissa stays within 53 bits. -/
theorem lt_halfStepBelow_iff {k : Nat} (hden : 0 < den) (hlt : num < 2 * fullMantissa * size den shift)
    (hfull : shift = 0 ∨ fullMantissa * size den shift ≤ num) :
    shift ≤ k ∨ shift = k + 1 ∧ divRoundEven num (size den shift) < 2 * fullMantissa ↔
      num < halfStepBelow k * den := by
  have hpos : 0 < fullMantissa := Nat.two_pow_pos 52
  have hunits : size den shift = den * 2 ^ shift := rfl
  rw [hunits] at hlt hfull ⊢
  rw [halfStepBelow, Nat.pow_eq]
  rcases (by omega : shift ≤ k ∨ shift = k + 1 ∨ k + 2 ≤ shift) with hshift | rfl | hshift
  · refine iff_of_true (.inl hshift) ?_
    calc
      num < 2 * fullMantissa * (den * 2 ^ shift) := hlt
      _ ≤ 2 * fullMantissa * (den * 2 ^ k) := by gcongr; omega
      _ = 2 * fullMantissa * 2 ^ k * den := by ring
      _ ≤ (4 * fullMantissa - 1) * 2 ^ k * den := by gcongr; omega
  · have hodd : (2 * fullMantissa - 1) % 2 = 1 := by omega
    have hround : divRoundEven num (den * 2 ^ (k + 1)) ≤ 2 * fullMantissa - 1 ↔ _ :=
      divRoundEven_le_iff (Nat.mul_pos hden (Nat.two_pow_pos (k + 1))) hodd
    have hlimit : (2 * (2 * fullMantissa - 1) + 1) * (den * 2 ^ (k + 1)) =
        2 * ((4 * fullMantissa - 1) * 2 ^ k * den) := by
      rw [show 2 * (2 * fullMantissa - 1) + 1 = 4 * fullMantissa - 1 by omega]
      ring
    rw [hlimit] at hround
    omega
  · refine iff_of_false (by omega) ?_
    rw [not_lt]
    calc
      (4 * fullMantissa - 1) * 2 ^ k * den ≤ 4 * fullMantissa * 2 ^ k * den := by gcongr; omega
      _ = fullMantissa * (den * 2 ^ (k + 2)) := by ring
      _ ≤ fullMantissa * (den * 2 ^ shift) := by gcongr; omega
      _ ≤ num := hfull.resolve_left (by omega)

/-- A quotient is rounded to a finite number if it is less than half a step above the largest one. -/
theorem isFinite_roundUnits_iff (hden : 0 < den) :
    (roundUnits negative num den).isFinite = true ↔ num < overflowUnits * den := by
  obtain ⟨hlt, hfull⟩ := mantissa_bounds num hden
  rw [roundUnits]
  generalize (num / den).log2 - 52 = shift at hlt hfull ⊢
  have hsize : 0 < size den shift := Nat.mul_pos hden (Nat.two_pow_pos shift)
  have hbounds := divRoundEven_bounds num (size den shift)
  have hquot : num / size den shift < 2 * fullMantissa := (Nat.div_lt_iff_lt_mul hsize).2 hlt
  have hmantissa : shift = 0 ∨ fullMantissa ≤ divRoundEven num (size den shift) :=
    hfull.imp_right fun h => ((Nat.le_div_iff_mul_le hsize).2 h).trans hbounds.1
  rw [isFinite_ofScaled_iff (by omega) hmantissa, overflowUnits]
  exact lt_halfStepBelow_iff hden hlt hfull

end Binary64

end BasicScript
