/-
  Numbers of both kinds: sign, zero and order.

  * `Binary64.compare?_swap`: compared the other way round, reals come out the other way round.
  * `Binary64.isZero_ofInt`: of the whole numbers only zero is rounded to a zero.
  * `Number.compare?`: the order of two numbers, an integer next to a real being taken as a real, as
    `promote` does (`compare?_of_promote`); `same_eq`: numbers are the same if they compare as equal.
  * `Number.isNaN`, `isZero`, `isNegative`: what kind of number a number is; `compare?_zero`: a zero
    compares as equal to zero.
-/
import Mathlib.Algebra.Order.Ring.Int
import BasicScript.Value.Operators

namespace BasicScript

/-! ## Reals -/

namespace Binary64

theorem compare?_swap (x y : Binary64) : y.compare? x = (x.compare? y).map Ordering.swap := by
  cases x with
  | nan => cases y <;> rfl
  | infinite a =>
    cases y with
    | nan => rfl
    | infinite b => cases a <;> cases b <;> rfl
    | finite => cases a <;> rfl
  | finite a m s hm =>
    cases y with
    | nan => rfl
    | infinite b => cases b <;> rfl
    | finite b n t hn => simp [compare?, Int.compare_swap]

theorem natAbs_signed (negative : Bool) (m : Nat) : (signed negative m).natAbs = m := by
  cases negative <;> simp [signed]

theorem signed_lt_zero_iff {negative : Bool} {m : Nat} :
    signed negative m < 0 ↔ negative = true ∧ m ≠ 0 := by
  cases negative
  · simp [signed]
  · simp only [signed, if_true, true_and]
    omega

theorem signed_mul (negative : Bool) (m n : Nat) :
    signed negative (m * n) = signed negative m * n := by
  cases negative <;> simp [signed]

/-- A mantissa other than zero stays so. -/
theorem isZero_ofScaled {mantissa : Nat} (hm : mantissa ≠ 0) (negative : Bool) (shift : Nat) :
    (ofScaled negative mantissa shift).isZero = false := by
  unfold ofScaled
  split
  · simpa [isZero] using hm
  · split
    · next h =>
      -- half a mantissa under a shift that is not the least uses all of its bits
      have hfull : fullMantissa ≤ mantissa / 2 := h.2.2.resolve_left (by omega)
      have hpos : 0 < fullMantissa := Nat.two_pow_pos 52
      simp only [isZero, beq_eq_false_iff_ne]
      omega
    · rfl

/-- A quotient of at least one unit is not rounded to zero. -/
theorem isZero_roundUnits {num den : Nat} (hden : 0 < den) (h : den ≤ num) (negative : Bool) :
    (roundUnits negative num den).isZero = false := by
  refine isZero_ofScaled ?_ negative _
  have hquot : num / den ≠ 0 := (Nat.div_pos h hden).ne'
  have hshift : Nat.pow 2 ((num / den).log2 - 52) ≤ num / den := by
    rw [Nat.pow_eq]
    calc
      2 ^ ((num / den).log2 - 52) ≤ 2 ^ (num / den).log2 :=
        Nat.pow_le_pow_right (by omega) (by omega)
      _ ≤ num / den := Nat.log2_self_le hquot
  have hle := (divRoundEven_bounds num (size den ((num / den).log2 - 52))).1
  have hpos : 0 < num / den / Nat.pow 2 ((num / den).log2 - 52) :=
    Nat.div_pos hshift (Nat.two_pow_pos _)
  rw [Nat.div_div_eq_div_mul] at hpos
  exact (Nat.lt_of_lt_of_le hpos hle).ne'

theorem ofInt_zero : ofInt 0 = zero false := by
  rw [ofInt, Int.natAbs_zero, Nat.zero_mul]
  rfl

theorem one_pos : 0 < one := by
  unfold one
  generalize 1074 = k
  exact Nat.two_pow_pos k

/-- A signed number of units that is a whole number. -/
theorem eq_of_signed_eq_mul_one {negative : Bool} {units : Nat} {n : Int}
    (h : signed negative units = n * one) :
    units = n.natAbs * one ∧ signed negative n.natAbs = n := by
  have hunits : units = n.natAbs * one := by
    rw [← natAbs_signed negative units, h, Int.natAbs_mul, Int.natAbs_natCast]
  rw [hunits, signed_mul] at h
  exact ⟨hunits, Int.eq_of_mul_eq_mul_right (Int.natCast_ne_zero.2 one_pos.ne') h⟩

theorem isZero_ofInt (n : Int) : (ofInt n).isZero = true ↔ n = 0 := by
  constructor
  · intro h
    by_contra hn
    have hunits : 1 ≤ n.natAbs * one := Nat.mul_pos (Int.natAbs_pos.2 hn) one_pos
    rw [ofInt, isZero_roundUnits Nat.one_pos hunits] at h
    cases h
  · rintro rfl
    rw [ofInt_zero]
    rfl

end Binary64

/-! ## Numbers -/

namespace Number

def isNaN : Number → Bool
  | integer _ => false
  | real x => x.isNaN

def isZero : Number → Bool
  | integer n => n = 0
  | real x => x.isZero

def isNegative : Number → Bool
  | integer n => n < 0
  | real x => x.isNegative

/-- The order of two numbers, if neither of them is `nan`. -/
def compare? (m n : Number) : Option Ordering :=
  match m, n with
  | integer a, integer b => some (compare a.toInt b.toInt)
  | m, n => m.toReal.compare? n.toReal

theorem same_eq (m n : Number) : m.same n = (m.compare? n == some .eq) := by
  cases m <;> cases n
  case integer.integer a b =>
    rw [Bool.eq_iff_iff]
    simp [same, promote, compare?, Int64.toInt_inj]
  all_goals rfl

theorem promote_cases (m n : Number) :
    (∃ a b, m = integer a ∧ n = integer b) ∨ ∃ x y, m.promote n = (real x, real y) := by
  cases m <;> cases n
  case integer.integer a b => exact .inl ⟨a, b, rfl, rfl⟩
  all_goals exact .inr ⟨_, _, rfl⟩

theorem compare?_of_promote {m n : Number} {x y : Binary64} (h : m.promote n = (real x, real y)) :
    m.compare? n = x.compare? y := by
  cases m <;> cases n <;> cases h <;> rfl

theorem compare?_swap (m n : Number) : n.compare? m = (m.compare? n).map Ordering.swap := by
  cases m <;> cases n
  case integer.integer a b => simp [compare?, Int.compare_swap]
  all_goals exact Binary64.compare?_swap _ _

theorem compare?_zero (n : Number) : n.compare? (.integer 0) = some .eq ↔ n.isZero = true := by
  cases n with
  | integer n => simp [compare?, isZero, ← Int64.toInt_inj]
  | real x =>
    have hzero : (real x).compare? (integer 0) = x.compare? (.zero false) :=
      congrArg x.compare? Binary64.ofInt_zero
    rw [hzero, isZero]
    cases x with
    | nan => simp [Binary64.compare?, Binary64.isZero]
    | infinite a => cases a <;> simp [Binary64.compare?, Binary64.isZero, Binary64.zero]
    | finite a m s hm =>
      cases a <;>
        simp [Binary64.compare?, Binary64.isZero, Binary64.zero, Binary64.signed, Binary64.size]

end Number

end BasicScript
