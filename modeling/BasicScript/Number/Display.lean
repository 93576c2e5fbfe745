/-
  The text of a real as a script shows it: fixed notation with at most 15 significant digits, the
  zeros at the end of the fraction left out.

  * `decimalExponent num den` is the `d` with `10^d ≤ num / den < 10^(d+1)`.
  * `magnitude mantissa shift` is the floor of the decimal logarithm of a real, the logarithm taken
    in binary64: it is `decimalExponent`, or one more for a real so near to the next power of ten
    that its logarithm comes out whole.
  * `fixedText` writes a number of `10^-places` in fixed notation.
  * `text` is the text of a real.
-/
import BasicScript.Number.Decimal
import BasicScript.Number.Logarithm

namespace BasicScript

/-! ## Size of a quotient -/

/-- The `d` with `10^d ≤ num / den < 10^(d+1)`, for positive `num` and `den`. -/
def decimalExponent (num den : Nat) : Int :=
  if den ≤ num then (digitsOf (num / den)).length - 1
  else -((digitsOf ((den - 1) / num)).length : Int)

/-- The floor of the decimal logarithm of `mantissa * 2^shift` units, the logarithm evaluated in
binary64. -/
def magnitude (mantissa shift : Nat) : Int :=
  let exponent := decimalExponent (Binary64.size mantissa shift) Binary64.one
  match (Binary64.commonLog mantissa shift).compare? (Binary64.ofInt (exponent + 1)) with
  | some .lt => exponent
  | _ => exponent + 1

/-! ## Fixed notation -/

/-- A list without the zeros at its end. -/
def dropZerosRight (digits : List Char) : List Char :=
  (digits.reverse.dropWhile (· == '0')).reverse

/-- The digits of a number with zeros in front up to a width. -/
def paddedDigits (width n : Nat) : List Char :=
  let digits := digitsOf n
  List.replicate (width - digits.length) '0' ++ digits

/-- The number `scaled * 10^-places` in fixed notation, without zeros at the end of the fraction
and without a bare point; zero has no sign. -/
def fixedText (negative : Bool) (scaled places : Nat) : String :=
  let whole := digitsOf (scaled / Nat.pow 10 places)
  let fraction := dropZerosRight (paddedDigits places (scaled % Nat.pow 10 places))
  String.ofList <| (if negative ∧ scaled ≠ 0 then ['-'] else []) ++ whole ++
    (if fraction = [] then [] else '.' :: fraction)

/-! ## Reals -/

namespace Binary64

/-- The number of significant digits shown. -/
def displayDigits : Int := 15

/-- The places after the point shown for `mantissa * 2^shift` units. -/
def displayPlaces (mantissa shift : Nat) : Nat :=
  (displayDigits - 1 - magnitude mantissa shift).toNat

/-- The text of a real. -/
def text : Binary64 → String
  | nan => "NaN"
  | infinite negative => if negative then "-Infinity" else "Infinity"
  | finite negative mantissa shift _ =>
    if mantissa = 0 then "0"
    else
      let places := displayPlaces mantissa shift
      let scaled := size mantissa shift * Nat.pow 10 places
      fixedText negative (divRoundEven scaled one) places

end Binary64

end BasicScript
