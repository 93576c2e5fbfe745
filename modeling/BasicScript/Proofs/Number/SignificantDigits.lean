/-
  How many digits a real is shown with.

  * `decimalExponent_eq`: `decimalExponent` is the floor of the decimal logarithm.
  * `Binary64.Estimates magnitude units`: `magnitude` is this floor for a number of units, or one more;
    `estimates_magnitude`: so is the one that is computed.
  * `FixedForm cs sign whole fraction`: the parts of a number in fixed notation.
  * `significant s`: the significant digits of a text; `length_significant_fixedText_le_iff`: their
    number.
  * `significant_digits_shown`: a real below `10^15` is shown with at most 15 of them, any other one as
    the nearest whole number with all of its digits.
-/
import Mathlib.Data.Int.Log
import Mathlib.Data.Rat.Floor
import Mathlib.Tactic.Positivity
import BasicScript.Proofs.Number.Decimals
import BasicScript.Proofs.Number.FixedNotation

namespace BasicScript

variable {num den n k : Nat}

/-! ## Decimal exponents -/

theorem lt_pow_length_digitsOf (n : Nat) : n < 10 ^ (digitsOf n).length :=
  (Nat.length_toDigits_le_iff (by omega) Nat.length_toDigits_pos).1 (Nat.le_refl _)

theorem pow_length_digitsOf_le (hn : n ≠ 0) : 10 ^ ((digitsOf n).length - 1) ≤ n := by
  by_cases hone : (digitsOf n).length - 1 = 0
  · rw [hone, Nat.pow_zero]
    exact Nat.pos_of_ne_zero hn
  · refine Nat.le_of_not_lt fun hlt => ?_
    have hle := (Nat.length_toDigits_le_iff (by omega) (Nat.pos_of_ne_zero hone)).2 hlt
    have hlength : (digitsOf n).length ≤ (digitsOf n).length - 1 := hle
    omega

theorem ten_zpow_le_iff {r : ℚ} {m : Int} (hr : 0 < r) : 10 ^ m ≤ r ↔ m ≤ Int.log 10 r := by
  rw [← Int.zpow_le_iff_le_log (by omega) hr, Nat.cast_ofNat]

theorem lt_ten_zpow_iff {r : ℚ} {m : Int} (hr : 0 < r) : r < 10 ^ m ↔ Int.log 10 r < m := by
  rw [← Int.lt_zpow_iff_log_lt (by omega) hr, Nat.cast_ofNat]

/-- The quotient is at least the power of ten, and less than the next one. -/
theorem decimalExponent_bounds (hnum : 0 < num) (hden : 0 < den) :
    (10 : ℚ) ^ decimalExponent num den ≤ num / den ∧
      (num / den : ℚ) < 10 ^ (decimalExponent num den + 1) := by
  have hnumq : (0 : ℚ) < num := by exact_mod_cast hnum
  have hdenq : (0 : ℚ) < den := by exact_mod_cast hden
  unfold decimalExponent
  split
  · next hle =>
    have hquot : num / den ≠ 0 := (Nat.div_pos hle hden).ne'
    have hlow := (Nat.le_div_iff_mul_le hden).1 (pow_length_digitsOf_le hquot)
    have hhigh := (Nat.div_lt_iff_lt_mul hden).1 (lt_pow_length_digitsOf (num / den))
    have hpos : 0 < (digitsOf (num / den)).length := Nat.length_toDigits_pos
    have hpred : ((digitsOf (num / den)).length : Int) - 1 =
        ((digitsOf (num / den)).length - 1 : Nat) := by omega
    rw [sub_add_cancel, hpred, zpow_natCast, zpow_natCast, le_div_iff₀ hdenq, div_lt_iff₀ hdenq]
    exact ⟨by exact_mod_cast hlow, by exact_mod_cast hhigh⟩
  · next hlt =>
    have hquot : (den - 1) / num ≠ 0 := (Nat.div_pos (by omega) hnum).ne'
    have hlow := (Nat.le_div_iff_mul_le hnum).1 (pow_length_digitsOf_le hquot)
    have hhigh := (Nat.div_lt_iff_lt_mul hnum).1 (lt_pow_length_digitsOf ((den - 1) / num))
    have hpos : 0 < (digitsOf ((den - 1) / num)).length := Nat.length_toDigits_pos
    generalize (digitsOf ((den - 1) / num)).length = d at hlow hhigh hpos
    have hsucc : -(d : Int) + 1 = -((d - 1 : Nat) : Int) := by omega
    rw [hsucc, zpow_neg, zpow_neg, zpow_natCast, zpow_natCast]
    have hlow' : 10 ^ (d - 1) * num < den := by omega
    have hhigh' : den ≤ num * 10 ^ d := by
      rw [Nat.mul_comm]
      omega
    constructor
    · rw [inv_le_iff_one_le_mul₀ (by positivity), div_mul_eq_mul_div, le_div_iff₀ hdenq, one_mul]
      exact_mod_cast hhigh'
    · rw [lt_inv_comm₀ (by positivity) (by positivity), inv_div, lt_div_iff₀ hnumq]
      exact_mod_cast hlow'

/-- The decimal exponent is the floor of the decimal logarithm. -/
theorem decimalExponent_eq (hnum : 0 < num) (hden : 0 < den) :
    decimalExponent num den = Int.log 10 (num / den : ℚ) := by
  obtain ⟨hlow, hhigh⟩ := decimalExponent_bounds hnum hden
  have hpos : (0 : ℚ) < num / den := div_pos (by exact_mod_cast hnum) (by exact_mod_cast hden)
  have hle := (ten_zpow_le_iff hpos).1 hlow
  have hlt := (lt_ten_zpow_iff hpos).1 hhigh
  omega

/-! ## The digits of a text -/

/-- The parts of a number in fixed notation: an optional minus, digits, and, if there is a fraction, a
point and digits of which the last is not zero. -/
structure FixedForm (cs sign whole fraction : List Char) : Prop where
  text_eq : cs = sign ++ whole ++ (if fraction = [] then [] else '.' :: fraction)
  sign_eq : sign = [] ∨ sign = ['-']
  whole_digits : whole ≠ [] ∧ ∀ c ∈ whole, c.isDigit = true
  fraction_digits : ∀ c ∈ fraction, c.isDigit = true
  last_ne_zero : ∀ c ∈ fraction.getLast?, c ≠ '0'

theorem isDigit_of_mem_paddedDigits {places : Nat} :
    ∀ c ∈ paddedDigits places n, c.isDigit = true := by
  intro c hc
  rcases List.mem_append.1 hc with hc | hc
  · rw [List.eq_of_mem_replicate hc]
    rfl
  · exact isDigit_of_mem_digitsOf hc

theorem fixedForm_fixedText (negative : Bool) (scaled places : Nat) :
    FixedForm (fixedText negative scaled places).toList
      (if negative ∧ scaled ≠ 0 then ['-'] else []) (digitsOf (scaled / 10 ^ places))
      (dropZerosRight (paddedDigits places (scaled % 10 ^ places))) where
  text_eq := String.toList_ofList
  sign_eq := by split <;> simp
  whole_digits := ⟨Nat.toDigits_ne_nil, fun _ => isDigit_of_mem_digitsOf⟩
  fraction_digits c hc := isDigit_of_mem_paddedDigits c (mem_of_mem_dropZerosRight hc)
  last_ne_zero := ne_zero_of_getLast?_dropZerosRight _

/-- The significant digits of a text: its digits from the first to the last that is not zero. -/
def significant (s : String) : List Char := significantDigits (s.toList.filter Char.isDigit)

theorem FixedForm.filter_isDigit {cs sign whole fraction : List Char}
    (h : FixedForm cs sign whole fraction) : cs.filter Char.isDigit = whole ++ fraction := by
  have hsign : sign.filter Char.isDigit = [] := by
    rcases h.sign_eq with hs | hs <;> rw [hs] <;> rfl
  have hfraction :
      (if fraction = [] then [] else '.' :: fraction).filter Char.isDigit = fraction := by
    split
    · next hnil => rw [hnil]; rfl
    · exact List.filter_eq_self.2 h.fraction_digits
  rw [h.text_eq, List.filter_append, List.filter_append, hsign, hfraction,
    List.filter_eq_self.2 h.whole_digits.2, List.nil_append]

/-- The digits on both sides of the point are those of the number, or these and a zero. -/
theorem ofDigits_fixed (scaled places : Nat) :
    ∃ i, ofDigits (digitsOf (scaled / 10 ^ places) ++ paddedDigits places (scaled % 10 ^ places)) =
      scaled * 10 ^ i := by
  have hvalue : ofDigits (paddedDigits places (scaled % 10 ^ places)) = scaled % 10 ^ places := by
    rw [paddedDigits, ofDigits_zeros_append, ofDigits_digitsOf]
  rw [ofDigits_append, hvalue, ofDigits_digitsOf]
  rcases Nat.eq_zero_or_pos places with rfl | hplaces
  · refine ⟨1, ?_⟩
    rw [Nat.pow_zero, Nat.div_one, Nat.mod_one]
    rfl
  · have hlt : scaled % 10 ^ places < 10 ^ places := Nat.mod_lt _ (Nat.pow_pos (by omega))
    have hle : (digitsOf (scaled % 10 ^ places)).length ≤ places :=
      (Nat.length_toDigits_le_iff (by omega) hplaces).2 hlt
    have hlength : (paddedDigits places (scaled % 10 ^ places)).length = places := by
      rw [paddedDigits, List.length_append, List.length_replicate]
      omega
    refine ⟨0, ?_⟩
    rw [hlength, Nat.pow_zero, Nat.mul_one, Nat.mul_comm, Nat.div_add_mod]

theorem length_significant_fixedText_le_iff {negative : Bool} {scaled places : Nat} :
    (significant (fixedText negative scaled places)).length ≤ k ↔ AtMostDigits k scaled := by
  have hparts := fixedForm_fixedText negative scaled places
  obtain ⟨i, hi⟩ := ofDigits_fixed scaled places
  obtain ⟨j, hj⟩ := exists_zeros_right (paddedDigits places (scaled % 10 ^ places))
  have hdigits : ∀ c ∈ digitsOf (scaled / 10 ^ places) ++
      dropZerosRight (paddedDigits places (scaled % 10 ^ places)), c.isDigit = true := by
    intro c hc
    rcases List.mem_append.1 hc with hc | hc
    · exact hparts.whole_digits.2 c hc
    · exact hparts.fraction_digits c hc
  rw [significant, hparts.filter_isDigit, length_significantDigits_le_iff hdigits,
    ← atMostDigits_mul_pow j, ← ofDigits_append_zeros, List.append_assoc, ← hj, hi,
    atMostDigits_mul_pow]

/-! ## Reals -/

theorem divRoundEven_le (hden : 0 < den) (h : num ≤ n * den) : divRoundEven num den ≤ n := by
  rcases Nat.lt_or_eq_of_le h with hlt | rfl
  · have hquot := (Nat.div_lt_iff_lt_mul hden).2 hlt
    have hbounds := divRoundEven_bounds num den
    omega
  · exact (divRoundEven_mul_right n hden).le

namespace Binary64

variable {mantissa shift units : Nat} {m : Int}

/-- What is taken for the floor of the decimal logarithm of a number of units is this floor, or one
more. -/
def Estimates (m : Int) (units : Nat) : Prop :=
  m = Int.log 10 (units / one : ℚ) ∨ m = Int.log 10 (units / one : ℚ) + 1

theorem magnitude_cases (mantissa shift : Nat) :
    magnitude mantissa shift = decimalExponent (size mantissa shift) one ∨
      magnitude mantissa shift = decimalExponent (size mantissa shift) one + 1 := by
  -- opened as a function: applied to variables it would be compared with its body by evaluating the
  -- logarithm
  obtain ⟨f, hf⟩ : ∃ f, f = magnitude := ⟨_, rfl⟩
  rw [← hf]
  delta magnitude at hf
  rw [hf]
  generalize commonLog mantissa shift = log
  dsimp only
  generalize log.compare? _ = order
  split
  · exact .inl rfl
  · exact .inr rfl

theorem estimates_magnitude (hm : mantissa ≠ 0) :
    Estimates (magnitude mantissa shift) (size mantissa shift) := by
  have hne : size mantissa shift ≠ 0 := fun h => hm (size_eq_zero_iff.1 h)
  rw [Estimates, ← decimalExponent_eq (Nat.pos_of_ne_zero hne) one_pos]
  exact magnitude_cases mantissa shift

theorem natCast_limit : ((10 ^ 15 * one : Nat) : ℚ) = 10 ^ 15 * one := by
  simp only [Nat.cast_mul, Nat.cast_pow, Nat.cast_ofNat]

/-- Below `10^15` the number in units of the last place is at most `10^15`. -/
theorem scaledAt_le (hm : Estimates m units) (hunits : units < 10 ^ 15 * one) :
    scaledAt m units ≤ 10 ^ 15 := by
  refine divRoundEven_le one_pos ?_
  rcases Nat.eq_zero_or_pos units with rfl | hpos
  · rw [Nat.zero_mul]
    exact Nat.zero_le _
  rcases Int.lt_or_le 14 m with hlt | hle
  · rw [placesAt_of_le hlt.le, Nat.pow_zero, Nat.mul_one]
    exact hunits.le
  · have hquot : (0 : ℚ) < units / one := div_pos (by exact_mod_cast hpos) natCast_one_pos
    have hlt : (units / one : ℚ) < 10 ^ (m + 1) := by
      rw [lt_ten_zpow_iff hquot]
      rcases hm with hm | hm <;> omega
    rw [div_lt_iff₀ natCast_one_pos] at hlt
    have hsum : (10 : ℚ) ^ (m + 1) * 10 ^ placesAt m = 10 ^ 15 := by
      rw [← zpow_natCast, ← zpow_add₀ (by norm_num), natCast_placesAt hle,
        show m + 1 + (14 - m) = ((15 : Nat) : Int) by omega, zpow_natCast]
    rw [← @Nat.cast_le ℚ]
    calc
      ((units * 10 ^ placesAt m : Nat) : ℚ) = units * 10 ^ placesAt m := by
        simp only [Nat.cast_mul, Nat.cast_pow, Nat.cast_ofNat]
      _ ≤ 10 ^ (m + 1) * one * 10 ^ placesAt m :=
        mul_le_mul_of_nonneg_right hlt.le (by positivity)
      _ = 10 ^ 15 * one := by rw [mul_right_comm, hsum]
      _ = ((10 ^ 15 * one : Nat) : ℚ) := natCast_limit.symm

/-- From `10^15` on there are no places after the point. -/
theorem placesAt_eq_zero (hm : Estimates m units) (hunits : 10 ^ 15 * one ≤ units) :
    placesAt m = 0 := by
  have hle : (10 : ℚ) ^ ((15 : Nat) : Int) ≤ units / one := by
    rw [← @Nat.cast_le ℚ, natCast_limit] at hunits
    rwa [le_div_iff₀ natCast_one_pos, zpow_natCast]
  have hpos : (0 : ℚ) < units / one := lt_of_lt_of_le (by norm_num) hle
  have hlog := (ten_zpow_le_iff hpos).1 hle
  refine placesAt_of_le ?_
  rcases hm with hm | hm <;> omega

/-- How a real of `u` units is shown, with `m` for the floor of its decimal logarithm. -/
structure ShownAt (x : Binary64) (u m : Int) : Prop where
  /-- A fraction has no zero at its end, and no point stands without a fraction. -/
  fixed : ∃ sign whole fraction, FixedForm (x.textAt m).toList sign whole fraction
  /-- Below `10^15` there are at most 15 significant digits. -/
  small : u.natAbs < 10 ^ 15 * one → (significant (x.textAt m)).length ≤ 15
  /-- From `10^15` on all digits of the nearest whole number are shown. -/
  large : 10 ^ 15 * one ≤ u.natAbs →
    x.textAt m = intText (signed (u < 0) (divRoundEven u.natAbs one)) ∧
      ((significant (x.textAt m)).length ≤ 15 ↔ AtMostDigits 15 (divRoundEven u.natAbs one))

theorem shownAt_of_estimates {negative : Bool} {shift : Nat} (h : IsCanonical mantissa shift)
    (hm : Estimates m (size mantissa shift)) :
    ShownAt (finite negative mantissa shift h) (signed negative (size mantissa shift)) m where
  fixed := by
    rw [textAt_finite]
    exact ⟨_, _, _, fixedForm_fixedText _ _ _⟩
  small := by
    rw [natAbs_signed, textAt_finite, length_significant_fixedText_le_iff]
    exact fun hunits => atMostDigits_of_le (scaledAt_le hm hunits) (by omega)
  large := by
    rw [natAbs_signed]
    intro hunits
    have hplaces := placesAt_eq_zero hm hunits
    have hscaled : scaledAt m (size mantissa shift) = divRoundEven (size mantissa shift) one := by
      rw [scaledAt, hplaces, Nat.pow_zero, Nat.mul_one]
    have hne : size mantissa shift ≠ 0 :=
      (Nat.lt_of_lt_of_le (Nat.mul_pos (by omega) one_pos) hunits).ne'
    have hsign : decide (signed negative (size mantissa shift) < 0) = negative := by
      simp [signed_lt_zero_iff, hne]
    rw [textAt_finite, length_significant_fixedText_le_iff, hscaled, hplaces, hsign,
      ← fixedText_mul_pow _ _ 0, Nat.pow_zero, Nat.mul_one]
    exact ⟨rfl, Iff.rfl⟩

end Binary64

/-- **Significant digits of reals.**  The text of a finite real is the one at its decimal exponent, or
at one more; either way a fraction has no zero at its end, and no point stands without a fraction.
Below `10^15` in size a real is shown with at most 15 significant digits.  From there on it is shown
as the nearest whole number with all of its digits: with at most 15 significant ones only if this is a
number of at most 15 digits times a power of ten. -/
theorem significant_digits_shown {x : Binary64} {u : Int} (hx : x.units? = some u) :
    (∃ m, Binary64.Estimates m u.natAbs ∧ x.text = x.textAt m) ∧
      ∀ m, Binary64.Estimates m u.natAbs → Binary64.ShownAt x u m := by
  cases x with
  | finite negative mantissa shift h =>
    obtain rfl : Binary64.signed negative (Binary64.size mantissa shift) = u := Option.some.inj hx
    rw [Binary64.natAbs_signed]
    refine ⟨?_, fun m hm => Binary64.shownAt_of_estimates h hm⟩
    by_cases hzero : mantissa = 0
    · exact ⟨_, .inl rfl, by simp only [Binary64.text, Binary64.textAt, if_pos hzero]⟩
    · exact ⟨_, Binary64.estimates_magnitude hzero, Binary64.text_finite h⟩
  | _ => cases hx

/-- A quarter, below zero. -/
theorem significant_digits_shown_quarter :
    ∃ x : Binary64, x.units? = some (.negSucc (2 ^ 1072 - 1)) ∧ (significant x.text).length ≤ 15 := by
  have hx : (Binary64.finite true 4503599627370496 1020 (by decide)).units? =
      some (.negSucc (2 ^ 1072 - 1)) := by decide +kernel
  obtain ⟨⟨m, hm, htext⟩, hshown⟩ := significant_digits_shown hx
  refine ⟨_, hx, ?_⟩
  rw [htext]
  exact (hshown m hm).small (by decide +kernel)

/-- A whole number of 16 digits is shown with all of them. -/
theorem sixteen_digits_shown :
    (Binary64.ofInt 1234567890123456).text = "1234567890123456" ∧
      (significant (Binary64.ofInt 1234567890123456).text).length = 16 := by
  have hunits : (Binary64.ofInt 1234567890123456).units? =
      some ((1234567890123456 : Int) * Binary64.one) := Binary64.units?_ofInt (by decide)
  have htext : (Binary64.ofInt 1234567890123456).text = "1234567890123456" := by
    rw [Binary64.text_of_whole hunits]
    decide +kernel
  exact ⟨htext, by rw [htext]; decide +kernel⟩

end BasicScript
