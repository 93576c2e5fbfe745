/-
  Numbers in fixed notation.

  * `fixedText_mul_pow`: a whole number has no fraction, whatever the number of places, and keeps its
    zeros.
  * `Binary64.placesAt`, `Binary64.scaledAt`, `Binary64.textAt`: the text of a real whose decimal
    logarithm has this floor;
    `text_finite`: the text of a real is the one at `magnitude`.
  * `Binary64.textAt_of_whole`: a real that is a whole number has the text of this number, whatever the
    floor.
-/
import BasicScript.Proofs.Number.Digits
import BasicScript.Proofs.Number.Rounding

namespace BasicScript

variable {negative : Bool}

/-! ## Digits in fixed notation -/

theorem eq_zero_of_mem_paddedDigits {places : Nat} : ∀ c ∈ paddedDigits places 0, c = '0' := by
  intro c hc
  rcases List.mem_append.1 hc with hc | hc
  · exact List.eq_of_mem_replicate hc
  · exact List.mem_singleton.1 hc

/-- A whole number in fixed notation. -/
theorem fixedText_mul_pow (negative : Bool) (n places : Nat) :
    fixedText negative (n * 10 ^ places) places = intText (Binary64.signed negative n) := by
  have hpos : 0 < 10 ^ places := Nat.pow_pos (by omega)
  have hzero : n * 10 ^ places ≠ 0 ↔ n ≠ 0 := by
    rw [Nat.mul_ne_zero_iff, and_iff_left hpos.ne']
  simp only [fixedText, Nat.pow_eq, Nat.mul_div_cancel n hpos, Nat.mul_mod_left, hzero,
    dropZerosRight_of_zeros eq_zero_of_mem_paddedDigits, if_true, List.append_nil, intText,
    Binary64.signed_lt_zero_iff, Binary64.natAbs_signed]
  split <;> rfl

/-! ## Reals -/

namespace Binary64

variable {x : Binary64} {mantissa shift : Nat}

/-- The places after the point, with `magnitude` for the floor of the decimal logarithm. -/
def placesAt (magnitude : Int) : Nat := (displayDigits - 1 - magnitude).toNat

theorem placesAt_of_le {magnitude : Int} (h : 14 ≤ magnitude) : placesAt magnitude = 0 := by
  have hdigits : displayDigits = 15 := rfl
  exact Int.toNat_of_nonpos (by omega)

theorem natCast_placesAt {magnitude : Int} (h : magnitude ≤ 14) :
    (placesAt magnitude : Int) = 14 - magnitude := by
  have hdigits : displayDigits = 15 := rfl
  exact Int.toNat_of_nonneg (by omega)

/-- A number of units, rounded to the last of these places. -/
def scaledAt (magnitude : Int) (units : Nat) : Nat :=
  divRoundEven (units * 10 ^ placesAt magnitude) one

/-- The text of a real, with `magnitude` for the floor of its decimal logarithm. -/
def textAt (magnitude : Int) : Binary64 → String
  | finite negative mantissa shift _ =>
    if mantissa = 0 then "0"
    else fixedText negative (scaledAt magnitude (size mantissa shift)) (placesAt magnitude)
  | x => x.text

/-- The text of a real is the one at the floor of its logarithm in binary64. -/
theorem text_finite (h : IsCanonical mantissa shift) :
    (finite negative mantissa shift h).text =
      (finite negative mantissa shift h).textAt (magnitude mantissa shift) := rfl

theorem size_eq_zero_iff : size mantissa shift = 0 ↔ mantissa = 0 := by
  rw [size, Nat.pow_eq, Nat.mul_eq_zero, or_iff_left (Nat.two_pow_pos shift).ne']

/-- A whole number stays so in any number of places. -/
theorem scaledAt_of_whole (magnitude : Int) (n : Nat) :
    scaledAt magnitude (n * one) = n * 10 ^ placesAt magnitude := by
  rw [scaledAt, Nat.mul_right_comm, divRoundEven_mul_right _ one_pos]

/-- Zero is no exception. -/
theorem textAt_finite (h : IsCanonical mantissa shift) (magnitude : Int) :
    (finite negative mantissa shift h).textAt magnitude =
      fixedText negative (scaledAt magnitude (size mantissa shift)) (placesAt magnitude) := by
  rw [textAt]
  split
  · next hzero =>
    rw [size_eq_zero_iff.2 hzero, ← Nat.zero_mul one, scaledAt_of_whole, fixedText_mul_pow]
    cases negative <;> rfl
  · rfl

/-- A whole number prints as such, whatever is taken for the floor of its logarithm. -/
theorem textAt_of_whole {n : Int} (hx : x.units? = some (n * one)) (magnitude : Int) :
    x.textAt magnitude = intText n := by
  cases x with
  | finite negative mantissa shift h =>
    obtain ⟨hsize, hsigned⟩ := eq_of_signed_eq_mul_one (Option.some.inj hx)
    rw [textAt_finite, hsize, scaledAt_of_whole, fixedText_mul_pow, hsigned]
  | _ => cases hx

theorem text_of_whole {n : Int} (hx : x.units? = some (n * one)) : x.text = intText n := by
  cases x with
  | finite => rw [text_finite, textAt_of_whole hx]
  | _ => cases hx

end Binary64

end BasicScript
