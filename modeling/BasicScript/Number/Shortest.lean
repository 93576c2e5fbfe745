/-
  The shortest decimal that reads back as a given real, and its text as a numeral.

  * `shortest? x` is the decimal with the fewest digits that reads back as the finite number `x`; of
    two such decimals the nearer one, of two equally near ones the larger.
  * `NumeralStyle` says which sizes are written with a point and which with an exponent;
    `NumeralStyle.write` writes a numeral.
  * `numeral` is the style of real literals in messages.
-/
import BasicScript.Number.Display

namespace BasicScript

namespace Binary64

/-- Of the two decimals of exponent `e` around a number of units, the one that reads back as `x`,
the nearer one if both do. -/
def nearestReading? (x : Binary64) (units : Nat) (e : Int) : Option Decimal :=
  let num := units * Nat.pow 10 (-e).toNat
  let den := one * Nat.pow 10 e.toNat
  let below : Decimal := ⟨num / den, e⟩
  let above : Decimal := ⟨num / den + 1, e⟩
  let reads (d : Decimal) : Bool := d.toBinary64 x.isNegative == x
  match reads below, reads above with
  | false, false => none
  | true, false => some below
  | false, true => some above
  | true, true => if 2 * (num % den) < den then some below else some above

/-- The decimal with the fewest digits that reads back, for a finite number other than zero: the
digits are tried from one to seventeen, and seventeen always suffice. -/
def shortest? : Binary64 → Option Decimal
  | x@(finite _ mantissa shift _) =>
    let units := size mantissa shift
    let exponent := decimalExponent units one
    if mantissa = 0 then none
    else (List.range 17).findSome? fun (n : Nat) => nearestReading? x units (exponent - n)
  | _ => none

end Binary64

/-! ## Numerals -/

/-- How a numeral is written: with a point while the exponent of its first digit is at least
`leastPoint` and below `leastExponent`, with an exponent otherwise. -/
structure NumeralStyle where
  leastPoint : Int
  leastExponent : Int

namespace NumeralStyle

/-- Digits with the point after the first `position` of them; a whole number ends in `.0`. -/
def pointed (digits : List Char) (position : Int) : List Char :=
  if position ≤ 0 then '0' :: '.' :: List.replicate (-position).toNat '0' ++ digits
  else
    let width := position.toNat
    let whole := digits.take width ++ List.replicate (width - digits.length) '0'
    let fraction := digits.drop width
    whole ++ '.' :: (if fraction = [] then ['0'] else fraction)

/-- Digits with the point after the first one and the exponent of the first one. -/
def scaled (digits : List Char) (exponent : Int) : List Char :=
  let rest := digits.drop 1
  digits.take 1 ++ (if rest = [] then [] else '.' :: rest) ++ 'e' :: (intText exponent).toList

/-- Writes a decimal other than zero. -/
def writeDecimal (style : NumeralStyle) (d : Decimal) : List Char :=
  let digits := digitsOf d.coefficient
  let exponent := d.exponent + digits.length - 1
  let digits := dropZerosRight digits
  if style.leastPoint ≤ exponent ∧ exponent < style.leastExponent then pointed digits (exponent + 1)
  else scaled digits exponent

/-- Writes a real by its shortest decimal. -/
def write (style : NumeralStyle) (x : Binary64) : String :=
  let sign := if x.isNegative then ['-'] else []
  match x with
  | .nan => "NaN"
  | .infinite _ => String.ofList (sign ++ ['i', 'n', 'f'])
  | .finite .. =>
    match x.shortest? with
    | none => String.ofList (sign ++ ['0', '.', '0'])
    | some d => String.ofList (sign ++ style.writeDecimal d)

end NumeralStyle

/-- Real literals in messages: with a point from `10^-4` up to `10^16`. -/
def numeral : NumeralStyle := ⟨-4, 16⟩

end BasicScript
