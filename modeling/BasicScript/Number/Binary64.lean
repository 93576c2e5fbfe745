/-
  Reals of the script language: the IEEE binary64 numbers, as exact data.

  A finite number is a sign and a whole number of *units*, the unit being the least positive number
  `2^-1074`: `mantissa * 2^shift` units, with the canonical choice of mantissa and shift carried in
  the type.  Every operation computes its exact result as a quotient of whole numbers of units and
  rounds it once.  There is one `nan`, since no script can tell two of them apart.

  * `roundUnits negative num den` is the number nearest to `num / den` units, ties to even.
  * `add`, `sub`, `mul`, `div`, `rem`, `neg` are the arithmetic; `compare?` is the numeric order,
    which leaves `nan` unordered.
  * `ofInt` rounds a whole number, `toSafeInt?` reads one back when it is exactly representable.
  * `ofBits` and `toBits` are the interchange format.
-/
import BasicScript.Number.Rounding

namespace BasicScript

namespace Binary64

/-- The least mantissa that uses all of its 53 bits, `2^52`. -/
def fullMantissa : Nat := Nat.pow 2 52

/-- The canonical pairs: 53 bits of mantissa, all of them used unless the shift is least. -/
def IsCanonical (mantissa shift : Nat) : Prop :=
  mantissa < 2 * fullMantissa ∧ shift ≤ 2045 ∧ (shift = 0 ∨ fullMantissa ≤ mantissa)

instance (mantissa shift : Nat) : Decidable (IsCanonical mantissa shift) :=
  inferInstanceAs (Decidable (_ ∧ _ ∧ (_ ∨ _)))

end Binary64

/-- An IEEE binary64 number; a finite one is `± mantissa * 2^shift` units of `2^-1074`. -/
inductive Binary64 where
  | nan
  | infinite (negative : Bool)
  | finite (negative : Bool) (mantissa shift : Nat)
      (canonical : Binary64.IsCanonical mantissa shift)
  deriving DecidableEq

namespace Binary64

/-! ## Units -/

/-- The number of units in one: the unit is `2^-1074`. -/
def one : Nat := Nat.pow 2 1074

/-- The number of units of a mantissa and a shift. -/
def size (mantissa shift : Nat) : Nat := mantissa * Nat.pow 2 shift

/-- The signed whole number of units of sign and size. -/
def signed (negative : Bool) (size : Nat) : Int := if negative then -size else size

/-- The exact value of a finite number in units. -/
def units? : Binary64 → Option Int
  | finite negative mantissa shift _ => some (signed negative (size mantissa shift))
  | _ => none

/-- Zero with a sign. -/
def zero (negative : Bool) : Binary64 := finite negative 0 0 (by decide)

/-- `mantissa * 2^shift` units for a mantissa of at most `2^53`; too large a shift is infinite. -/
def ofScaled (negative : Bool) (mantissa shift : Nat) : Binary64 :=
  if h : IsCanonical mantissa shift then finite negative mantissa shift h
  else if h : IsCanonical (mantissa / 2) (shift + 1) then
    finite negative (mantissa / 2) (shift + 1) h
  else infinite negative

/-- The number nearest to `num / den` units, a tie going to the even mantissa. -/
def roundUnits (negative : Bool) (num den : Nat) : Binary64 :=
  let shift := (num / den).log2 - 52
  ofScaled negative (divRoundEven num (size den shift)) shift

/-- The number nearest to a whole number, `0` being positive. -/
def ofInt (n : Int) : Binary64 := roundUnits (n < 0) (n.natAbs * one) 1

/-! ## Sign and kind -/

def isNegative : Binary64 → Bool
  | nan => false
  | infinite negative | finite negative _ _ _ => negative

def isNaN : Binary64 → Bool
  | nan => true
  | _ => false

def isFinite : Binary64 → Bool
  | finite .. => true
  | _ => false

/-- Whether the number is a zero of either sign. -/
def isZero : Binary64 → Bool
  | finite _ mantissa _ _ => mantissa == 0
  | _ => false

/-- The opposite number; a zero changes its sign too. -/
def neg : Binary64 → Binary64
  | nan => nan
  | infinite negative => infinite !negative
  | finite negative mantissa shift h => finite (!negative) mantissa shift h

/-! ## Arithmetic -/

/-- The rounded sum; opposite numbers add up to `+0`. -/
def add : Binary64 → Binary64 → Binary64
  | nan, _ | _, nan => nan
  | infinite a, infinite b => if a = b then infinite a else nan
  | infinite a, finite .. | finite .., infinite a => infinite a
  | finite a m s _, finite b n t _ =>
    let sum := signed a (size m s) + signed b (size n t)
    if sum = 0 then zero (a && b) else roundUnits (sum < 0) sum.natAbs 1

/-- The rounded difference. -/
def sub (x y : Binary64) : Binary64 := add x (neg y)

/-- The rounded product; zero times infinity is `nan`. -/
def mul : Binary64 → Binary64 → Binary64
  | nan, _ | _, nan => nan
  | infinite a, infinite b => infinite (a ^^ b)
  | infinite a, finite b m _ _ | finite b m _ _, infinite a =>
    if m = 0 then nan else infinite (a ^^ b)
  | finite a m s _, finite b n t _ => roundUnits (a ^^ b) (size m s * size n t) one

/-- The rounded quotient; `0 / 0` and infinity over infinity are `nan`. -/
def div : Binary64 → Binary64 → Binary64
  | nan, _ | _, nan | infinite _, infinite _ => nan
  | infinite a, finite b _ _ _ => infinite (a ^^ b)
  | finite a _ _ _, infinite b => zero (a ^^ b)
  | finite a m s _, finite b n t _ =>
    if n = 0 then (if m = 0 then nan else infinite (a ^^ b))
    else roundUnits (a ^^ b) (size m s * one) (size n t)

/-- The remainder of the division truncated toward zero, exact, with the sign of the dividend. -/
def rem : Binary64 → Binary64 → Binary64
  | nan, _ | _, nan | infinite _, _ => nan
  | x@(finite ..), infinite _ => x
  | finite a m s _, finite _ n t _ =>
    if n = 0 then nan else roundUnits a (size m s % size n t) 1

/-! ## Order -/

/-- The numeric order; both zeros are equal and `nan` is unordered. -/
def compare? : Binary64 → Binary64 → Option Ordering
  | nan, _ | _, nan => none
  | infinite a, infinite b => some (if a = b then .eq else if a then .lt else .gt)
  | infinite a, finite .. => some (if a then .lt else .gt)
  | finite .., infinite b => some (if b then .gt else .lt)
  | finite a m s _, finite b n t _ =>
    some (compare (signed a (size m s)) (signed b (size n t)))

/-- Numeric equality: `nan` differs from itself and the zeros are equal. -/
def numEq (x y : Binary64) : Bool := compare? x y == some .eq

/-! ## Whole numbers -/

/-- The largest whole number below which every whole number is representable, `2^53 - 1`. -/
def maxSafeInt : Nat := 2 * fullMantissa - 1

/-- The whole number that a real holds, if it is one of at most `maxSafeInt` in size. -/
def toSafeInt? : Binary64 → Option Int
  | finite negative mantissa shift _ =>
    let units := size mantissa shift
    if units % one = 0 ∧ units / one ≤ maxSafeInt then some (signed negative (units / one))
    else none
  | _ => none

/-! ## Interchange format -/

/-- The number of an exponent field of 11 bits and a fraction field of 52. -/
def ofFields (negative : Bool) (exponent fraction : Nat) : Binary64 :=
  if exponent = 2047 then (if fraction = 0 then infinite negative else nan)
  else if exponent = 0 then ofScaled negative fraction 0
  else ofScaled negative (fullMantissa + fraction) (exponent - 1)

/-- Reads the interchange format. -/
def ofBits (bits : UInt64) : Binary64 :=
  let n := bits.toNat
  ofFields (n / (2048 * fullMantissa) == 1) (n / fullMantissa % 2048) (n % fullMantissa)

/-- The interchange format; `nan` has the quiet pattern without a payload. -/
def toBits (x : Binary64) : UInt64 :=
  let sign (negative : Bool) : Nat := if negative then 2048 * fullMantissa else 0
  .ofNat <| match x with
    | nan => 2047 * fullMantissa + fullMantissa / 2
    | infinite negative => sign negative + 2047 * fullMantissa
    | finite negative mantissa shift _ =>
      if mantissa < fullMantissa then sign negative + mantissa
      else sign negative + (shift + 1) * fullMantissa + (mantissa - fullMantissa)

end Binary64

end BasicScript
