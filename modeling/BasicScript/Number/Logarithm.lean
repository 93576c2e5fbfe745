/-
  The decimal logarithm of a positive real, evaluated in binary64.

  Natural logarithms come from the series of the inverse hyperbolic tangent, in whole numbers of
  `10^-40`: `ln q = 2 * artanh ((q - 1) / (q + 1))`.

  * `artanh num den` is the inverse hyperbolic tangent of a quotient of at most a third.
  * `naturalLog num den` is the natural logarithm of a quotient from a half to two, taken upward to
    19 places and then to binary64.
  * `commonLog mantissa shift` is the decimal logarithm of a real: `log10 2` times its binary
    exponent and `log10 e` times the natural logarithm of the rest, each product and sum rounded.
-/
import BasicScript.Number.Binary64

namespace BasicScript

/-! ## Natural logarithm -/

/-- The number of units in one, the unit of the series being `10^-40`. -/
def seriesUnit : Nat := Nat.pow 10 40

/-- The sum `power / n + power * square / (n + 2) + power * square^2 / (n + 4) + …` of a number of
terms; powers are in units, and every quotient is rounded down. -/
def oddSeries (square : Nat) : (terms : Nat) → (power n : Nat) → Nat
  | 0, _, _ => 0
  | terms + 1, power, n =>
    power / n + oddSeries square terms (power * square / seriesUnit) (n + 2)

/-- The inverse hyperbolic tangent of `num / den`, in units.  For a quotient of at most a third the
terms after the 42nd are less than a unit. -/
def artanh (num den : Nat) : Nat :=
  let z := num * seriesUnit / den
  oddSeries (z * z / seriesUnit) 42 z 1

/-- The natural logarithm of `num / den`, a quotient from a half to two, taken upward to a whole
number of `10^-19` and then to binary64. -/
def naturalLog (num den : Nat) : Binary64 :=
  let grain := Nat.pow 10 21
  let size := 2 * artanh (max num den - min num den) (num + den)
  let grains := if num < den then size / grain else (size + grain - 1) / grain
  .roundUnits (num < den) (grains * Binary64.one) (seriesUnit / grain)

/-! ## Decimal logarithm -/

namespace Binary64

/-- The leading 40 bits of `log10 2`: its product with a binary exponent is exact. -/
def logTwoHead : Binary64 := ofBits 0x3FD34413509F6000

/-- What `logTwoHead` leaves of `log10 2`. -/
def logTwoRest : Binary64 := ofBits 0x3D59FEF311F12B36

/-- The real nearest to `log10 e`. -/
def logE : Binary64 := ofBits 0x3FDBCB7B1526E50E

/-- The decimal logarithm of `mantissa * 2^shift` units, for a positive mantissa.  The real is
`2^exponent * rest`, with the rest in `[1, 2)` for a real of at least one and in `[1/2, 1)` for one
below, so that both parts of the logarithm have the same sign. -/
def commonLog (mantissa shift : Nat) : Binary64 :=
  let width := mantissa.log2 + if 1074 ≤ mantissa.log2 + shift then 0 else 1
  let exponent := ofInt ((width + shift : Nat) - 1074)
  let rest := naturalLog mantissa (Nat.pow 2 width)
  add (add (mul exponent logTwoRest) (mul logE rest)) (mul exponent logTwoHead)

end Binary64

end BasicScript
