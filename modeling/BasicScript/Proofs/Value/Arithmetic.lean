/-
  Arithmetic is exact or refused.

  * `InRange n`: the number fits into 64 bits with a sign; `inRange_eq_ok_iff`,
    `inRange_eq_error_iff`: what becomes of a number that does, and of one that does not.
  * `exactResult op m n`: the mathematical result of an operator on whole numbers.
  * `ExactOrRefused`, `RealOrRefused`: what an operator comes to on two integers, and on two numbers
    one of which is a real; `exactOrRefused_integerArithmetic`, `realOrRefused_arithmetic`: so it is.
  * `arithmetic_exact_or_refused`: what the arithmetic operators come to on any two values.
-/
import BasicScript.Proofs.Value.Numbers

namespace BasicScript

/-! ## The range of integers -/

/-- The number fits into 64 bits with a sign. -/
def InRange (n : Int) : Prop := -2 ^ 63 ≤ n ∧ n < 2 ^ 63

instance (n : Int) : Decidable (InRange n) := inferInstanceAs (Decidable (_ ∧ _))

theorem inRange_toInt (i : Int64) : InRange i.toInt := ⟨i.le_toInt, i.toInt_lt⟩

theorem inRange_iff_exists {n : Int} : InRange n ↔ ∃ i : Int64, i.toInt = n := by
  constructor
  · intro h
    exact ⟨.ofInt n, Int64.toInt_ofInt_of_le h.1 h.2⟩
  · rintro ⟨i, rfl⟩
    exact inRange_toInt i

namespace Value

theorem inRange_eq_ok_iff {n : Int} {v : Value} :
    inRange n = .ok v ↔ ∃ i : Int64, v = .integer i ∧ i.toInt = n := by
  unfold inRange
  cases h : checked n with
  | none =>
    constructor
    · nofun
    · rintro ⟨i, -, hi⟩
      rw [checked_eq_some_iff.2 hi] at h
      cases h
  | some i =>
    have hi := checked_eq_some_iff.1 h
    constructor
    · rintro ⟨⟩
      exact ⟨i, rfl, hi⟩
    · rintro ⟨j, rfl, hj⟩
      rw [Int64.toInt_inj.1 (hi.trans hj.symm)]

theorem inRange_eq_error_iff {n : Int} {f : Fault} :
    inRange n = .error f ↔ f = .overflow ∧ ¬ InRange n := by
  unfold inRange
  cases h : checked n with
  | none =>
    have hn : ¬ InRange n := by
      rw [inRange_iff_exists]
      rintro ⟨i, hi⟩
      rw [checked_eq_some_iff.2 hi] at h
      cases h
    constructor
    · rintro ⟨⟩
      exact ⟨rfl, hn⟩
    · rintro ⟨rfl, -⟩
      rfl
  | some i =>
    constructor
    · nofun
    · rintro ⟨-, hn⟩
      exact absurd (inRange_iff_exists.2 ⟨i, checked_eq_some_iff.1 h⟩) hn

end Value

/-! ## Integers -/

namespace BinaryOp

def isArithmetic : BinaryOp → Bool
  | add | sub | mul | div | mod => true
  | _ => false

/-- Whether the right operand is a divisor. -/
def divides : BinaryOp → Bool
  | div | mod => true
  | _ => false

end BinaryOp

/-- The mathematical result of an operator on whole numbers; a quotient goes toward zero. -/
def exactResult (op : BinaryOp) (m n : Int) : Int :=
  match op with
  | .add => m + n
  | .sub => m - n
  | .mul => m * n
  | .div => m.tdiv n
  | _ => m - n * m.tdiv n

/-- The one remainder that is refused, since the quotient that comes with it is out of range: that of
the least integer by `-1`. -/
def RemainderRefused (op : BinaryOp) (m n : Int64) : Prop :=
  op = .mod ∧ m = Int64.minValue ∧ n = -1

/-- What an operator comes to on two integers. -/
structure ExactOrRefused (op : BinaryOp) (m n : Int64) (r : Except Fault Value) : Prop where
  /-- A divisor of zero is refused as such. -/
  divisionByZero : r = .error .divisionByZero ↔ op.divides = true ∧ n = 0
  /-- There is no result but the mathematical one. -/
  result : ∀ v, r = .ok v ↔ ¬ (op.divides = true ∧ n = 0) ∧ ¬ RemainderRefused op m n ∧
    ∃ i : Int64, v = .integer i ∧ i.toInt = exactResult op m.toInt n.toInt
  /-- A result out of range is refused. -/
  overflow : r = .error .overflow ↔ ¬ (op.divides = true ∧ n = 0) ∧
    (¬ InRange (exactResult op m.toInt n.toInt) ∨ RemainderRefused op m n)

section
variable {op : BinaryOp} {m n : Int64} {r : Except Fault Value} {f : Fault}

theorem ExactOrRefused.fault (h : ExactOrRefused op m n r) (hr : r = .error f) :
    f = .divisionByZero ∨ f = .overflow := by
  by_cases hzero : op.divides = true ∧ n = 0
  · have := h.divisionByZero.2 hzero
    simp_all
  · by_cases hover : ¬ InRange (exactResult op m.toInt n.toInt) ∨ RemainderRefused op m n
    · have := h.overflow.2 ⟨hzero, hover⟩
      simp_all
    · rw [not_or, not_not, inRange_iff_exists] at hover
      obtain ⟨⟨i, hi⟩, hrefused⟩ := hover
      have := (h.result (.integer i)).2 ⟨hzero, hrefused, i, rfl, hi⟩
      simp_all

theorem exactOrRefused_inRange (hzero : ¬ (op.divides = true ∧ n = 0))
    (hrefused : ¬ RemainderRefused op m n) :
    ExactOrRefused op m n (Value.inRange (exactResult op m.toInt n.toInt)) where
  divisionByZero := by simp [Value.inRange_eq_error_iff, hzero]
  result := by simp [Value.inRange_eq_ok_iff, hzero, hrefused]
  overflow := by simp [Value.inRange_eq_error_iff, hzero, hrefused]

theorem toInt_eq_zero_iff : n.toInt = 0 ↔ n = 0 := by
  rw [← Int64.toInt_inj]
  rfl

/-- A quotient is in range, but for that of the least integer by `-1`. -/
theorem inRange_tdiv (hn : n ≠ 0) :
    InRange (m.toInt.tdiv n.toInt) ↔ ¬ (m = Int64.minValue ∧ n = -1) := by
  have hm := inRange_toInt m
  have hn' : n.toInt ≠ 0 := mt toInt_eq_zero_iff.1 hn
  have hmin : m = Int64.minValue ↔ m.toInt = -2 ^ 63 := by
    rw [← Int64.toInt_inj]
    rfl
  have hone : n = -1 ↔ n.toInt = -1 := by
    rw [← Int64.toInt_inj]
    rfl
  rw [hmin, hone]
  unfold InRange at hm ⊢
  have habs : (m.toInt.tdiv n.toInt).natAbs = m.toInt.natAbs / n.toInt.natAbs := Int.natAbs_tdiv _ _
  rcases (by omega : n.toInt = 1 ∨ n.toInt = -1 ∨ 2 ≤ n.toInt.natAbs) with hone | hone | htwo
  · rw [hone, Int.tdiv_one]
    omega
  · rw [hone, Int.tdiv_neg, Int.tdiv_one]
    omega
  · have hle := Nat.div_le_div_left htwo (Nat.succ_pos 1) (a := m.toInt.natAbs)
    omega

theorem exactOrRefused_integerArithmetic (hop : op.isArithmetic = true) (m n : Int64) :
    ExactOrRefused op m n (Value.integerArithmetic op m n) := by
  have hzero : ∀ {op : BinaryOp}, op.divides = true → n = 0 →
      ExactOrRefused op m n (.error .divisionByZero) := by
    intro op hop hn
    constructor <;> simp [hop, hn]
  cases op with
  | add => exact exactOrRefused_inRange (by simp [BinaryOp.divides]) (by simp [RemainderRefused])
  | sub => exact exactOrRefused_inRange (by simp [BinaryOp.divides]) (by simp [RemainderRefused])
  | mul => exact exactOrRefused_inRange (by simp [BinaryOp.divides]) (by simp [RemainderRefused])
  | div =>
    simp only [Value.integerArithmetic, toInt_eq_zero_iff]
    split
    · next hn => exact hzero rfl hn
    · next hn => exact exactOrRefused_inRange (by simp [hn]) (by simp [RemainderRefused])
  | mod =>
    simp only [Value.integerArithmetic, toInt_eq_zero_iff]
    split
    · next hn => exact hzero rfl hn
    · next hn =>
      by_cases hquotient : InRange (m.toInt.tdiv n.toInt)
      · have hrefused : ¬ RemainderRefused .mod m n := fun h => (inRange_tdiv hn).1 hquotient h.2
        obtain ⟨q, hq⟩ := inRange_iff_exists.1 hquotient
        rw [Value.inRange_eq_ok_iff.2 ⟨q, rfl, hq⟩, Int.tmod_def]
        exact exactOrRefused_inRange (by simp [hn]) hrefused
      · have hrefused : RemainderRefused .mod m n :=
          ⟨rfl, not_not.1 (mt (inRange_tdiv hn).2 hquotient)⟩
        rw [Value.inRange_eq_error_iff.2 ⟨rfl, hquotient⟩]
        constructor <;> simp [Except.bind, hn, hrefused]
  | _ => cases hop

end

/-! ## Reals -/

def Number.isReal : Number → Bool
  | integer _ => false
  | real _ => true

theorem Number.isZero_toReal (n : Number) : n.toReal.isZero = n.isZero := by
  cases n with
  | integer n =>
    rw [Bool.eq_iff_iff]
    simp [toReal, isZero, Binary64.isZero_ofInt, toInt_eq_zero_iff]
  | real x => rfl

/-- What an operator comes to on two numbers one of which is a real, `n` being the right one. -/
structure RealOrRefused (op : BinaryOp) (n : Number) (r : Except Fault Value) : Prop where
  /-- A divisor of zero is refused as such. -/
  divisionByZero : r = .error .divisionByZero ↔ op.divides = true ∧ n.isZero = true
  /-- Everything else has a result. -/
  result : ¬ (op.divides = true ∧ n.isZero = true) → ∃ x, r = .ok (.real x)

section
variable {op : BinaryOp} {m n : Number} {r : Except Fault Value} {f : Fault}

theorem RealOrRefused.fault (h : RealOrRefused op n r) (hr : r = .error f) :
    f = .divisionByZero := by
  by_cases hzero : op.divides = true ∧ n.isZero = true
  · have := h.divisionByZero.2 hzero
    simp_all
  · obtain ⟨x, hx⟩ := h.result hzero
    simp_all

theorem realOrRefused_realArithmetic (hop : op.isArithmetic = true) (m n : Number) :
    RealOrRefused op n (Value.realArithmetic op m.toReal n.toReal) := by
  cases op with
  | add | sub | mul =>
    constructor <;> simp [Value.realArithmetic, BinaryOp.divides]
  | div | mod =>
    simp only [Value.realArithmetic, n.isZero_toReal]
    cases hn : n.isZero <;> constructor <;> simp [BinaryOp.divides, hn]
  | _ => cases hop

end

/-! ## Any two values -/

namespace Value

/-- The value coerces to a number. -/
def Numeric (v : Value) : Prop := ∃ n, v.toNumber = .ok n

/-- The operator joins texts: it is `+`, next to a text. -/
def JoinsTexts (op : BinaryOp) (a b : Value) : Prop := op = .add ∧ (a.isText = true ∨ b.isText = true)

section
variable {op : BinaryOp} {a b : Value} {f : Fault}

theorem exists_type_of_toNumber {v : Value} (h : ¬ v.Numeric) : ∃ t, v.toNumber = .error (.type t) := by
  cases v with
  | text s =>
    simp only [Numeric, toNumber] at h ⊢
    split at h
    · simp at h
    · exact ⟨_, rfl⟩
  | array => exact ⟨_, rfl⟩
  | _ => exact absurd ⟨_, rfl⟩ h

theorem arithmetic_eq (hjoins : ¬ JoinsTexts op a b) :
    arithmetic op a b = toNumbers a b >>= fun
      | (.integer m, .integer n) => integerArithmetic op m n
      | (m, n) => realArithmetic op m.toReal n.toReal :=
  if_neg hjoins

theorem binary_of_joinsTexts (h : JoinsTexts op a b) :
    binary op a b = .ok (.text (a.toText ++ b.toText)) := by
  obtain ⟨rfl, htext⟩ := h
  exact if_pos ⟨rfl, htext⟩

theorem arithmetic_of_not_numeric (hjoins : ¬ JoinsTexts op a b) (h : ¬ (a.Numeric ∧ b.Numeric)) :
    ∃ t, arithmetic op a b = .error (.type t) := by
  rw [arithmetic_eq hjoins]
  by_cases ha : a.Numeric
  · obtain ⟨m, hm⟩ := ha
    obtain ⟨t, ht⟩ := exists_type_of_toNumber fun hb => h ⟨⟨m, hm⟩, hb⟩
    exact ⟨t, by rw [toNumbers, hm, ht]; rfl⟩
  · obtain ⟨t, ht⟩ := exists_type_of_toNumber ha
    exact ⟨t, by rw [toNumbers, ht]; rfl⟩

theorem arithmetic_of_integers {m n : Int64} (hjoins : ¬ JoinsTexts op a b)
    (ha : a.toNumber = .ok (.integer m)) (hb : b.toNumber = .ok (.integer n)) :
    arithmetic op a b = integerArithmetic op m n := by
  rw [arithmetic_eq hjoins, toNumbers, ha, hb]
  rfl

theorem arithmetic_of_reals {m n : Number} (hjoins : ¬ JoinsTexts op a b)
    (ha : a.toNumber = .ok m) (hb : b.toNumber = .ok n) (hreal : m.isReal = true ∨ n.isReal = true) :
    arithmetic op a b = realArithmetic op m.toReal n.toReal := by
  rw [arithmetic_eq hjoins, toNumbers, ha, hb]
  cases m <;> cases n
  case integer.integer => simp [Number.isReal] at hreal
  all_goals rfl

theorem exactOrRefused_arithmetic (hop : op.isArithmetic = true) (hjoins : ¬ JoinsTexts op a b)
    {m n : Int64} (ha : a.toNumber = .ok (.integer m)) (hb : b.toNumber = .ok (.integer n)) :
    ExactOrRefused op m n (arithmetic op a b) := by
  rw [arithmetic_of_integers hjoins ha hb]
  exact exactOrRefused_integerArithmetic hop m n

theorem realOrRefused_arithmetic (hop : op.isArithmetic = true) (hjoins : ¬ JoinsTexts op a b)
    {m n : Number} (ha : a.toNumber = .ok m) (hb : b.toNumber = .ok n)
    (hreal : m.isReal = true ∨ n.isReal = true) : RealOrRefused op n (arithmetic op a b) := by
  rw [arithmetic_of_reals hjoins ha hb hreal]
  exact realOrRefused_realArithmetic hop m n

/-- Values that coerce to numbers are not refused for what they are. -/
theorem fault_of_numeric (hop : op.isArithmetic = true) (hjoins : ¬ JoinsTexts op a b)
    (ha : a.Numeric) (hb : b.Numeric) (hf : arithmetic op a b = .error f) :
    f = .divisionByZero ∨ f = .overflow := by
  obtain ⟨m, hm⟩ := ha
  obtain ⟨n, hn⟩ := hb
  by_cases hreal : m.isReal = true ∨ n.isReal = true
  · exact .inl ((realOrRefused_arithmetic hop hjoins hm hn hreal).fault hf)
  · cases m <;> cases n
    case integer.integer => exact (exactOrRefused_arithmetic hop hjoins hm hn).fault hf
    all_goals simp [Number.isReal] at hreal

theorem binary_of_isArithmetic (hop : op.isArithmetic = true) (a b : Value) :
    binary op a b = arithmetic op a b := by
  cases op with
  | add | sub | mul | div | mod => rfl
  | _ => cases hop

end

/-- **Arithmetic is exact or refused.**  `+` next to a text joins the texts of its operands.  Otherwise
both operands have to coerce to numbers; integers give the mathematical result, or are refused if it
is out of range or its divisor is zero; with a real among them they give a real, or are refused if
their divisor is zero.  Of the results in range one is refused all the same: the remainder of the
least integer by `-1`, whose quotient is out of range.  The line of the operator is no part of this; a
fault is put on it afterwards. -/
theorem arithmetic_exact_or_refused {op : BinaryOp} (hop : op.isArithmetic = true) (a b : Value) :
    (JoinsTexts op a b → binary op a b = .ok (.text (a.toText ++ b.toText))) ∧
    (¬ JoinsTexts op a b →
      ((∃ t, binary op a b = .error (.type t)) ↔ ¬ (a.Numeric ∧ b.Numeric)) ∧
      (∀ m n, a.toNumber = .ok (.integer m) → b.toNumber = .ok (.integer n) →
        ExactOrRefused op m n (binary op a b)) ∧
      (∀ m n, a.toNumber = .ok m → b.toNumber = .ok n → m.isReal = true ∨ n.isReal = true →
        RealOrRefused op n (binary op a b))) ∧
    ∀ f, binary op a b = .error f → f = .divisionByZero ∨ f = .overflow ∨ ∃ t, f = .type t := by
  rw [binary_of_isArithmetic hop]
  refine ⟨fun h => if_pos h, fun hjoins => ⟨⟨?_, ?_⟩, ?_, ?_⟩, ?_⟩
  · rintro ⟨t, ht⟩ ⟨ha, hb⟩
    rcases fault_of_numeric hop hjoins ha hb ht with h | h <;> cases h
  · exact arithmetic_of_not_numeric hjoins
  · exact fun m n ha hb => exactOrRefused_arithmetic hop hjoins ha hb
  · exact fun m n ha hb hreal => realOrRefused_arithmetic hop hjoins ha hb hreal
  · intro f hf
    by_cases hjoins : JoinsTexts op a b
    · rw [show arithmetic op a b = _ from if_pos hjoins] at hf
      cases hf
    · by_cases hnumeric : a.Numeric ∧ b.Numeric
      · rcases fault_of_numeric hop hjoins hnumeric.1 hnumeric.2 hf with h | h
        · exact .inl h
        · exact .inr (.inl h)
      · obtain ⟨t, ht⟩ := arithmetic_of_not_numeric hjoins hnumeric
        cases ht.symm.trans hf
        exact .inr (.inr ⟨t, rfl⟩)

/-- The quotient of the least integer by `-1` is out of range and refused. -/
theorem least_quotient_refused :
    BinaryOp.div.isArithmetic = true ∧ ¬ JoinsTexts .div (.integer Int64.minValue) (.text "-1") ∧
      ExactOrRefused .div Int64.minValue (-1)
        (binary .div (.integer Int64.minValue) (.text "-1")) ∧
      binary .div (.integer Int64.minValue) (.text "-1") = .error .overflow := by
  have hjoins : ¬ JoinsTexts .div (.integer Int64.minValue) (.text "-1") := by simp [JoinsTexts]
  have hread : toNumber (.text "-1") = .ok (.integer (-1)) := by decide +kernel
  have h := ((arithmetic_exact_or_refused rfl _ _).2.1 hjoins).2.1 _ _ rfl hread
  exact ⟨rfl, hjoins, h, h.overflow.2 ⟨by decide, .inl (by decide)⟩⟩

/-- The remainder of the least integer by `-1` is zero, yet it is refused. -/
theorem least_remainder_refused :
    exactResult .mod Int64.minValue.toInt (-1 : Int64).toInt = 0 ∧ InRange 0 ∧
      binary .mod (.integer Int64.minValue) (.integer (-1)) = .error .overflow :=
  ⟨by decide, by decide, rfl⟩

end Value

end BasicScript
