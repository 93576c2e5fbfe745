/-
  Decimal numerals: reading digits and scaled decimals.

  * `digitsOf n` are the decimal digits of a natural number, without leading zeros; `ofDigits` reads
    them back (`ofDigits_digitsOf`), by halves (`ofDigits_eq`).
  * `Decimal` is a whole number times a power of ten, `Decimal.toBinary64` the real nearest to it.
  * `Decimal.read?` reads `12`, `1.5`, `.5`, `1.` and `2e-3`, all digits ASCII.
  * `Decimal.exponentOfDigits` leaves out what follows once an exponent has reached `2^16`; a
    smaller one is read exactly (`exponentOfDigits_eq`).
  * `readInt?` reads a whole number with an optional sign.
-/
import BasicScript.Number.Binary64

namespace BasicScript

/-! ## Digits -/

/-- The decimal digits of a number, most significant first. -/
def digitsOf (n : Nat) : List Char := Nat.toDigits 10 n

/-- The number that decimal digits denote, halved `depth` times before they are read one by one. -/
def ofHalves : (depth : Nat) → List Char → Nat
  | 0, cs => Nat.ofDigitChars 10 cs 0
  | depth + 1, cs =>
    let (high, low) := cs.splitAt (cs.length / 2)
    ofHalves depth high * Nat.pow 10 low.length + ofHalves depth low

/-- The number that a list of decimal digits denotes.  A list of more than a thousand digits is
halved, since reading digit by digit takes a multiplication of the whole number for each. -/
def ofDigits (cs : List Char) : Nat := ofHalves (cs.length.log2 - 9) cs

/-- Halving does not change what is read. -/
theorem ofHalves_eq (depth : Nat) (cs : List Char) :
    ofHalves depth cs = Nat.ofDigitChars 10 cs 0 := by
  induction depth generalizing cs with
  | zero => rfl
  | succ depth ih =>
    simp only [ofHalves, List.splitAt_eq, ih, Nat.pow_eq]
    rw [Nat.mul_comm, ← Nat.ofDigitChars_eq_ofDigitChars_zero, ← Nat.ofDigitChars_append,
      List.take_append_drop]

/-- Digits are read from the left: each is added to ten times what stands before it. -/
theorem ofDigits_eq (cs : List Char) : ofDigits cs = Nat.ofDigitChars 10 cs 0 := ofHalves_eq _ cs

theorem ofDigits_digitsOf (n : Nat) : ofDigits (digitsOf n) = n := by
  rw [ofDigits_eq]
  exact Nat.ofDigitChars_ten_toDigits

/-- The text of a whole number. -/
def intText (n : Int) : String :=
  String.ofList (if n < 0 then '-' :: digitsOf n.natAbs else digitsOf n.natAbs)

/-- Splits off a leading `+` or `-`; the flag says whether it was a `-`. -/
def splitSign : List Char → Bool × List Char
  | '-' :: cs => (true, cs)
  | '+' :: cs => (false, cs)
  | cs => (false, cs)

/-- Reads an optional sign and at least one digit, the digits as `value` says. -/
def readSigned? (value : List Char → Nat) (cs : List Char) : Option Int :=
  let (negative, digits) := splitSign cs
  if digits ≠ [] ∧ digits.all Char.isDigit then some (Binary64.signed negative (value digits))
  else none

/-- Reads a whole number: an optional sign and at least one digit. -/
def readInt? (cs : List Char) : Option Int := readSigned? ofDigits cs

/-! ## Scaled decimals -/

/-- The number `coefficient * 10^exponent`. -/
structure Decimal where
  coefficient : Nat
  exponent : Int
  deriving DecidableEq

namespace Decimal

/-- The real nearest to a decimal.  Exponents so large or so small that the result is infinite or
zero whatever the digits are answered without computing the power. -/
def toBinary64 (negative : Bool) (d : Decimal) : Binary64 :=
  if d.coefficient = 0 then .zero negative
  else if 310 < d.exponent then .infinite negative
  else if d.exponent + d.coefficient.log2 < -330 then .zero negative
  else .roundUnits negative (d.coefficient * Nat.pow 10 d.exponent.toNat * Binary64.one)
    (Nat.pow 10 (-d.exponent).toNat)

/-- The size from which on an exponent takes in no more digits. -/
def exponentBound : Nat := 65536

/-- The number that the digits of an exponent denote, with `n` read before them.  Once it has
reached `exponentBound`, the digits that are left do not count. -/
def exponentFrom (n : Nat) : List Char → Nat
  | [] => n
  | d :: ds =>
    if n < exponentBound then exponentFrom (10 * n + (d.toNat - '0'.toNat)) ds else n

/-- The number that the digits of an exponent denote. -/
def exponentOfDigits (ds : List Char) : Nat := exponentFrom 0 ds

/-- Digits make a number no smaller. -/
theorem le_ofDigitChars (n : Nat) (ds : List Char) : n ≤ Nat.ofDigitChars 10 ds n := by
  induction ds generalizing n with
  | nil => exact Nat.le_refl n
  | cons d ds ih =>
    rw [Nat.ofDigitChars_cons]
    have := ih (10 * n + (d.toNat - '0'.toNat))
    omega

/-- Below the bound all digits count. -/
theorem exponentFrom_eq {n : Nat} {ds : List Char}
    (h : Nat.ofDigitChars 10 ds n < exponentBound) :
    exponentFrom n ds = Nat.ofDigitChars 10 ds n := by
  induction ds generalizing n with
  | nil => rfl
  | cons d ds ih =>
    have hn : n < exponentBound := Nat.lt_of_le_of_lt (le_ofDigitChars n (d :: ds)) h
    rw [Nat.ofDigitChars_cons] at h ⊢
    rw [exponentFrom, if_pos hn, ih h]

/-- An exponent below the bound is read exactly. -/
theorem exponentOfDigits_eq {ds : List Char} (h : ofDigits ds < exponentBound) :
    exponentOfDigits ds = ofDigits ds := by
  rw [ofDigits_eq] at h ⊢
  exact exponentFrom_eq h

/-- The exponent part `e[+-]digits`; no exponent part is the exponent `0`. -/
def readExponent? : List Char → Option Int
  | [] => some 0
  | c :: cs => if c = 'e' ∨ c = 'E' then readSigned? exponentOfDigits cs else none

/-- Reads digits with at most one point among them and an optional exponent; at least one digit
stands before the exponent. -/
def read? (cs : List Char) : Option Decimal :=
  let whole := cs.takeWhile Char.isDigit
  let afterWhole := cs.dropWhile Char.isDigit
  let (fraction, rest) := match afterWhole with
    | '.' :: ds => (ds.takeWhile Char.isDigit, ds.dropWhile Char.isDigit)
    | _ => ([], afterWhole)
  if whole ++ fraction = [] then none
  else (readExponent? rest).map fun e => ⟨ofDigits (whole ++ fraction), e - fraction.length⟩

end Decimal

end BasicScript
