/-
  Rounding an exact quotient to a whole number.

  * `divRoundEven num den` is the whole number nearest to `num / den`; a quotient half way between
    two whole numbers goes to the even one.
  * `divRoundEven_bounds`: it is the floor of the quotient or the next whole number.
  * `divRoundEven_mul_right`: a quotient that is whole already is kept.
-/
namespace BasicScript

/-- The whole number nearest to `num / den`, a half going to the even neighbour. -/
def divRoundEven (num den : Nat) : Nat :=
  let quotient := num / den
  let remainder := num % den
  if 2 * remainder < den then quotient
  else if den < 2 * remainder then quotient + 1
  else quotient + quotient % 2

/-- The rounded quotient is the floor or the next whole number. -/
theorem divRoundEven_bounds (num den : Nat) :
    num / den ≤ divRoundEven num den ∧ divRoundEven num den ≤ num / den + 1 := by
  simp only [divRoundEven]
  split
  · omega
  · split
    · omega
    · have := Nat.mod_lt (num / den) (by decide : 2 > 0)
      omega

/-- A quotient without remainder is kept. -/
theorem divRoundEven_mul_right (n : Nat) {den : Nat} (h : 0 < den) :
    divRoundEven (n * den) den = n := by
  simp [divRoundEven, Nat.mul_div_cancel _ h, h]

end BasicScript
