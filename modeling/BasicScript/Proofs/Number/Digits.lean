/-
  Lists of decimal digits, and the zeros at their ends.

  * `ofDigits_append`, `ofDigits_zeros_append`, `ofDigits_append_zeros`: the number that digits denote,
    part by part.
  * `significantDigits ds`: the digits from the first to the last that is not zero.
  * `AtMostDigits k n`: `n` is a number of at most `k` digits times a power of ten;
    `length_significantDigits_le_iff`: so it is if its digits have no more significant ones.
-/
import Mathlib.Algebra.Order.Ring.Nat
import Mathlib.Data.List.DropRight
import BasicScript.Number.Display

namespace BasicScript

variable {cs ds : List Char} {c : Char} {k n : Nat}

/-! ## The number that digits denote -/

theorem isDigit_of_mem_digitsOf (h : c ∈ digitsOf n) : c.isDigit = true :=
  Nat.isDigit_of_mem_toDigits (by omega) (by omega) h

theorem ofDigits_append (cs ds : List Char) :
    ofDigits (cs ++ ds) = ofDigits cs * 10 ^ ds.length + ofDigits ds := by
  rw [ofDigits_eq, ofDigits_eq, ofDigits_eq, Nat.ofDigitChars_append,
    Nat.ofDigitChars_eq_ofDigitChars_zero, Nat.mul_comm]

theorem ofDigits_singleton (c : Char) : ofDigits [c] = c.toNat - '0'.toNat := by
  rw [ofDigits_eq, Nat.ofDigitChars_cons, Nat.ofDigitChars_nil, Nat.mul_zero, Nat.zero_add]

theorem ofDigits_zeros (k : Nat) : ofDigits (List.replicate k '0') = 0 := by
  rw [ofDigits_eq, Nat.ofDigitChars_replicate_zero, Nat.mul_zero]

/-- Zeros in front do not count. -/
theorem ofDigits_zeros_append (k : Nat) (ds : List Char) :
    ofDigits (List.replicate k '0' ++ ds) = ofDigits ds := by
  rw [ofDigits_append, ofDigits_zeros, Nat.zero_mul, Nat.zero_add]

theorem ofDigits_append_zeros (ds : List Char) (k : Nat) :
    ofDigits (ds ++ List.replicate k '0') = ofDigits ds * 10 ^ k := by
  rw [ofDigits_append, ofDigits_zeros, List.length_replicate, Nat.add_zero]

theorem ofDigits_singleton_lt (hc : c.isDigit = true) : ofDigits [c] < 10 := by
  have hrange : 48 ≤ c.toNat ∧ c.toNat ≤ 57 := Char.isDigit_iff_toNat.1 hc
  have hzero : '0'.toNat = 48 := rfl
  rw [ofDigits_singleton]
  omega

theorem ofDigits_singleton_pos (hc : c.isDigit = true) (hne : c ≠ '0') : 0 < ofDigits [c] := by
  have hrange : 48 ≤ c.toNat ∧ c.toNat ≤ 57 := Char.isDigit_iff_toNat.1 hc
  have hzero : '0'.toNat = 48 := rfl
  have hcode : c.toNat ≠ '0'.toNat := fun h => hne (Char.toNat_inj.1 h)
  rw [ofDigits_singleton]
  omega

theorem ofDigits_lt (hds : ∀ c ∈ ds, c.isDigit = true) : ofDigits ds < 10 ^ ds.length := by
  induction ds with
  | nil => decide
  | cons c ds ih =>
    rw [List.forall_mem_cons] at hds
    have hhead := ofDigits_singleton_lt hds.1
    calc
      ofDigits (c :: ds) = ofDigits [c] * 10 ^ ds.length + ofDigits ds := ofDigits_append [c] ds
      _ < ofDigits [c] * 10 ^ ds.length + 10 ^ ds.length := Nat.add_lt_add_left (ih hds.2) _
      _ = (ofDigits [c] + 1) * 10 ^ ds.length := (Nat.succ_mul _ _).symm
      _ ≤ 10 * 10 ^ ds.length := Nat.mul_le_mul_right _ hhead
      _ = 10 ^ (c :: ds).length := (Nat.pow_succ' ..).symm

/-- A digit in front that is not zero. -/
theorem pow_le_ofDigits_cons (hc : c.isDigit = true) (hne : c ≠ '0') (ds : List Char) :
    10 ^ ds.length ≤ ofDigits (c :: ds) := by
  calc
    10 ^ ds.length ≤ ofDigits [c] * 10 ^ ds.length :=
      Nat.le_mul_of_pos_left _ (ofDigits_singleton_pos hc hne)
    _ ≤ ofDigits [c] * 10 ^ ds.length + ofDigits ds := Nat.le_add_right _ _
    _ = ofDigits (c :: ds) := (ofDigits_append [c] ds).symm

/-- A digit at the end that is not zero. -/
theorem ofDigits_concat_mod_ten (hc : c.isDigit = true) (hne : c ≠ '0') (ds : List Char) :
    ofDigits (ds ++ [c]) % 10 ≠ 0 := by
  have hlt := ofDigits_singleton_lt hc
  have hpos := ofDigits_singleton_pos hc hne
  rw [ofDigits_append, List.length_singleton, Nat.pow_one]
  omega

/-! ## Zeros at the ends -/

theorem dropZerosRight_eq (cs : List Char) : dropZerosRight cs = cs.rdropWhile (· == '0') := rfl

theorem dropZerosRight_of_zeros (h : ∀ c ∈ cs, c = '0') : dropZerosRight cs = [] := by
  rw [dropZerosRight_eq, List.rdropWhile_eq_nil_iff]
  exact fun c hc => beq_iff_eq.2 (h c hc)

theorem exists_zeros_right (cs : List Char) :
    ∃ k, cs = dropZerosRight cs ++ List.replicate k '0' := by
  have hzeros : cs.rtakeWhile (· == '0') = List.replicate _ '0' :=
    List.eq_replicate_length.2 fun c hc => beq_iff_eq.1
      (List.mem_rtakeWhile_imp (p := fun c => c == '0') hc)
  refine ⟨(cs.rtakeWhile (· == '0')).length, ?_⟩
  rw [← hzeros, dropZerosRight_eq, List.rdropWhile_append_rtakeWhile]

theorem ne_zero_of_getLast?_dropZerosRight (cs : List Char) :
    ∀ c ∈ (dropZerosRight cs).getLast?, c ≠ '0' := by
  intro c hc
  have hnot := List.head?_dropWhile_not (· == '0') cs.reverse
  rw [dropZerosRight, List.getLast?_reverse] at hc
  rw [Option.mem_def.1 hc] at hnot
  simpa using hnot

theorem mem_of_mem_dropZerosRight (h : c ∈ dropZerosRight cs) : c ∈ cs :=
  (List.rdropWhile_prefix _ _).mem h

/-- The digits from the first to the last that is not zero. -/
def significantDigits (ds : List Char) : List Char := (dropZerosRight ds).dropWhile (· == '0')

/-- Digits are the significant ones with zeros around them. -/
theorem exists_zeros_around (ds : List Char) :
    ∃ i j, ds = List.replicate i '0' ++ significantDigits ds ++ List.replicate j '0' := by
  obtain ⟨j, hj⟩ := exists_zeros_right ds
  have hzeros : (dropZerosRight ds).takeWhile (· == '0') = List.replicate _ '0' :=
    List.eq_replicate_length.2 fun c hc => beq_iff_eq.1
      (List.mem_takeWhile_imp (p := fun c => c == '0') hc)
  refine ⟨((dropZerosRight ds).takeWhile (· == '0')).length, j, ?_⟩
  rw [← hzeros, significantDigits, List.takeWhile_append_dropWhile]
  exact hj

/-- The first and the last of the significant digits are not zero. -/
theorem ne_zero_of_significantDigits (h : significantDigits ds = c :: cs) :
    c ≠ '0' ∧ ∀ d ∈ (c :: cs).getLast?, d ≠ '0' := by
  have hsuffix : c :: cs <:+ dropZerosRight ds := h ▸ List.dropWhile_suffix _
  obtain ⟨before, hbefore⟩ := hsuffix
  have hhead := List.head?_dropWhile_not (· == '0') (dropZerosRight ds)
  rw [show (dropZerosRight ds).dropWhile _ = c :: cs from h] at hhead
  refine ⟨by simpa using hhead, fun d hd => ?_⟩
  refine ne_zero_of_getLast?_dropZerosRight ds d ?_
  rwa [← hbefore, List.getLast?_append_of_ne_nil _ (List.cons_ne_nil c cs)]

/-! ## Counting significant digits -/

/-- The number has at most `k` significant digits. -/
def AtMostDigits (k n : Nat) : Prop := ∃ m j, n = m * 10 ^ j ∧ m < 10 ^ k

theorem atMostDigits_of_le (h : n ≤ 10 ^ k) (hk : 0 < k) : AtMostDigits k n := by
  rcases Nat.lt_or_eq_of_le h with hlt | rfl
  · exact ⟨n, 0, by simp, hlt⟩
  · exact ⟨1, k, by simp, Nat.one_lt_pow hk.ne' (by omega)⟩

theorem atMostDigits_mul_pow (i : Nat) : AtMostDigits k (n * 10 ^ i) ↔ AtMostDigits k n := by
  constructor
  · rintro ⟨m, j, heq, hlt⟩
    rcases Nat.le_total i j with hle | hle
    · refine ⟨m, j - i, Nat.eq_of_mul_eq_mul_right (Nat.pow_pos (by omega)) (heq.trans ?_), hlt⟩
      rw [Nat.mul_assoc, ← Nat.pow_add, Nat.sub_add_cancel hle]
    · have hm : m = n * 10 ^ (i - j) := by
        refine Nat.eq_of_mul_eq_mul_right (Nat.pow_pos (by omega)) (heq.symm.trans ?_)
        rw [Nat.mul_assoc, ← Nat.pow_add, Nat.sub_add_cancel hle]
      refine ⟨n, 0, by simp, Nat.lt_of_le_of_lt ?_ hlt⟩
      rw [hm]
      exact Nat.le_mul_of_pos_right n (Nat.pow_pos (by omega))
  · rintro ⟨m, j, rfl, hlt⟩
    exact ⟨m, j + i, by rw [Nat.mul_assoc, ← Nat.pow_add], hlt⟩

theorem length_significantDigits_le_iff (hds : ∀ c ∈ ds, c.isDigit = true) :
    (significantDigits ds).length ≤ k ↔ AtMostDigits k (ofDigits ds) := by
  obtain ⟨i, j, hsplit⟩ := exists_zeros_around ds
  have hcore : ∀ c ∈ significantDigits ds, c.isDigit = true := fun c hc =>
    hds c (by rw [hsplit]; simp [hc])
  have hvalue : ofDigits ds = ofDigits (significantDigits ds) * 10 ^ j := by
    conv_lhs => rw [hsplit]
    rw [ofDigits_append_zeros, ofDigits_zeros_append]
  rw [hvalue, atMostDigits_mul_pow]
  constructor
  · exact fun hle => ⟨_, 0, by simp, (ofDigits_lt hcore).trans_le
      (Nat.pow_le_pow_right (by omega) hle)⟩
  · rintro ⟨m, e, heq, hlt⟩
    cases hdigits : significantDigits ds with
    | nil => exact Nat.zero_le k
    | cons c cs =>
      rw [hdigits] at heq hcore
      obtain ⟨hfirst, hlast⟩ := ne_zero_of_significantDigits hdigits
      -- the last digit leaves no power of ten in the number
      have hexact : e = 0 := by
        have hsome := List.getLast?_isSome.2 (List.cons_ne_nil c cs)
        obtain ⟨d, hd⟩ := Option.isSome_iff_exists.1 hsome
        obtain ⟨init, hinit⟩ := List.getLast?_eq_some_iff.1 hd
        have hmod := ofDigits_concat_mod_ten (hcore d (List.mem_of_getLast? hd)) (hlast d hd) init
        rw [← hinit, heq] at hmod
        cases e with
        | zero => rfl
        | succ e => exact absurd (by rw [Nat.pow_succ, ← Nat.mul_assoc, Nat.mul_mod_left]) hmod
      have hle := pow_le_ofDigits_cons (hcore c List.mem_cons_self) hfirst cs
      rw [heq, hexact, Nat.pow_zero, Nat.mul_one] at hle
      exact (Nat.pow_lt_pow_iff_right (by omega)).1 (Nat.lt_of_le_of_lt hle hlt)

end BasicScript
