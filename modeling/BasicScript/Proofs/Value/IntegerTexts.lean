/-
  Integers and their texts.

  * `Padded w s`: the text is `w` with blanks around it; `trim_of_padded`: they do not count.
  * `WholeNumeral w v`: `w` is an optional sign and digits, and denotes `v`; `parseNumber?_of_checked`:
    in range it is read as this integer, `parseNumber?_of_outside`: otherwise as a real, or as nothing.
  * `Spelling n w`: `w` is the text of `n`, with more zeros behind the sign or with a `+`.
  * `integer_of_spelling`: every spelling of an integer is worth this integer, and a whole number out
    of range is never worth an integer.
-/
import BasicScript.Proofs.Number.Decimals
import BasicScript.Proofs.Number.Digits
import BasicScript.Proofs.Token.Tokens
import BasicScript.Proofs.Value.Arithmetic
import BasicScript.Proofs.Value.Comparison

namespace BasicScript

variable {w ds : List Char} {s : String} {v : Int}

/-! ## Blanks -/

/-- The text is `w` with blanks around it. -/
def Padded (w : List Char) (s : String) : Prop :=
  ∃ before after, s.toList = before ++ (w ++ after) ∧ (∀ c ∈ before, isBlank c = true) ∧
    ∀ c ∈ after, isBlank c = true

theorem trim_of_padded (h : Padded w s) (hne : w ≠ []) (hw : ∀ c ∈ w, isBlank c = false) :
    trim s.toList = w := by
  obtain ⟨before, after, hs, hbefore, hafter⟩ := h
  have hhead : ∀ c ∈ (w ++ after).head?, isBlank c = false := by
    intro c hc
    rw [List.head?_append_of_ne_nil _ hne] at hc
    exact hw c (List.mem_of_mem_head? hc)
  have hlast : ∀ c ∈ w.reverse.head?, isBlank c = false := fun c hc =>
    hw c (List.mem_reverse.1 (List.mem_of_mem_head? hc))
  rw [trim, hs, dropWhile_append hbefore hhead, List.reverse_append,
    dropWhile_append (fun c hc => hafter c (List.mem_reverse.1 hc)) hlast, List.reverse_reverse]

theorem isBlank_of_isDigit {c : Char} (h : c.isDigit = true) : isBlank c = false := by
  have hrange : 48 ≤ c.toNat ∧ c.toNat ≤ 57 := Char.isDigit_iff_toNat.1 h
  simp only [isBlank, blankRanges, List.any_cons, List.any_nil, Bool.or_eq_false_iff,
    Bool.and_eq_false_iff, decide_eq_false_iff_not, and_true]
  omega

/-! ## Whole numerals -/

/-- An optional sign and digits, and the number that they denote. -/
inductive WholeNumeral : List Char → Int → Prop
  | plain {ds : List Char} : ds ∈ run Char.isDigit → WholeNumeral ds (ofDigits ds)
  | plus {ds : List Char} : ds ∈ run Char.isDigit → WholeNumeral ('+' :: ds) (ofDigits ds)
  | minus {ds : List Char} : ds ∈ run Char.isDigit → WholeNumeral ('-' :: ds) (-ofDigits ds)

namespace WholeNumeral

theorem not_blank (h : WholeNumeral w v) : w ≠ [] ∧ ∀ c ∈ w, isBlank c = false := by
  have hdigits : ∀ ds ∈ run Char.isDigit, ∀ c ∈ ds, isBlank c = false := fun ds hds c hc =>
    isBlank_of_isDigit ((mem_run.1 hds).2 c hc)
  cases h with
  | plain hds => exact ⟨(mem_run.1 hds).1, hdigits w hds⟩
  | plus hds => exact ⟨nofun, List.forall_mem_cons.2 ⟨rfl, hdigits _ hds⟩⟩
  | minus hds => exact ⟨nofun, List.forall_mem_cons.2 ⟨rfl, hdigits _ hds⟩⟩

theorem exists_splitSign (h : WholeNumeral w v) :
    ∃ negative, ∃ ds ∈ run Char.isDigit, splitSign w = (negative, ds) ∧
      v = Binary64.signed negative (ofDigits ds) := by
  cases h with
  | plain hds =>
    obtain ⟨d, rest, hd, -, rfl⟩ := mem_oneOf_mul.1 hds
    exact ⟨false, _, hds, splitSign_of_isDigit hd, rfl⟩
  | plus hds => exact ⟨false, _, hds, rfl, rfl⟩
  | minus hds => exact ⟨true, _, hds, rfl, rfl⟩

theorem readInt?_eq (h : WholeNumeral w v) : readInt? w = some v := by
  obtain ⟨negative, ds, hds, hsplit, rfl⟩ := h.exists_splitSign
  obtain ⟨hne, hdigits⟩ := mem_run.1 hds
  have hread : ds ≠ [] ∧ ds.all Char.isDigit = true := ⟨hne, List.all_eq_true.2 hdigits⟩
  simp only [readInt?, readSigned?, hsplit, if_pos hread]

end WholeNumeral

/-- Digits alone are a decimal without a fraction. -/
theorem Decimal.read?_of_digits (hds : ds ∈ run Char.isDigit) :
    Decimal.read? ds = some ⟨ofDigits ds, 0⟩ := by
  obtain ⟨hne, hdigits⟩ := mem_run.1 hds
  have htake : ds.takeWhile Char.isDigit = ds := List.takeWhile_eq_self_iff.2 hdigits
  have hdrop : ds.dropWhile Char.isDigit = [] := List.dropWhile_eq_nil_iff.2 hdigits
  simp [Decimal.read?, htake, hdrop, hne, Decimal.readExponent?]

/-- As a real, a whole number other than zero is the nearest one, if it is finite. -/
theorem WholeNumeral.readReal?_eq (h : WholeNumeral w v) (hv : v ≠ 0) :
    readReal? w = (some (Binary64.ofInt v)).filter (·.isFinite) := by
  obtain ⟨negative, ds, hds, hsplit, rfl⟩ := h.exists_splitSign
  have hpos : ofDigits ds ≠ 0 := by
    intro hzero
    rw [hzero] at hv
    cases negative <;> exact hv rfl
  simp only [readReal?, hsplit, Decimal.read?_of_digits hds, Option.map_some,
    Decimal.toBinary64_of_whole hpos]

theorem parseNumber?_of_checked {n : Int64} (h : WholeNumeral w v) (hs : Padded w s)
    (hv : checked v = some n) : parseNumber? s = some (.integer n) := by
  obtain ⟨hne, hw⟩ := h.not_blank
  simp only [parseNumber?, trim_of_padded hs hne hw, h.readInt?_eq, Option.bind_some, hv]

theorem parseNumber?_of_not_inRange (h : WholeNumeral w v) (hs : Padded w s) (hv : ¬ InRange v) :
    parseNumber? s = (readReal? w).map .real := by
  obtain ⟨hne, hw⟩ := h.not_blank
  have hchecked : checked v = none := by
    rw [Option.eq_none_iff_forall_ne_some]
    exact fun n hn => hv (inRange_iff_exists.2 ⟨n, checked_eq_some_iff.1 hn⟩)
  simp only [parseNumber?, trim_of_padded hs hne hw, h.readInt?_eq, Option.bind_some, hchecked]

/-- Out of range a whole number is read as the nearest real, if this is finite. -/
theorem parseNumber?_of_outside (h : WholeNumeral w v) (hs : Padded w s) (hv : ¬ InRange v) :
    parseNumber? s =
      if (v.natAbs : ℚ) < overflowLimit then some (.real (.ofInt v)) else none := by
  have hzero : v ≠ 0 := by
    rintro rfl
    exact hv (by decide)
  have hfinite : (Binary64.ofInt v).isFinite = true ↔ (v.natAbs : ℚ) < overflowLimit := by
    have hdecimal : (Decimal.toBinary64 (v < 0) ⟨v.natAbs, 0⟩).isFinite = true ↔ _ :=
      Decimal.isFinite_toBinary64_iff
    rwa [Decimal.toBinary64_of_whole (by omega), Binary64.signed_natAbs, Decimal.value, zpow_zero,
      mul_one] at hdecimal
  rw [parseNumber?_of_not_inRange h hs hv, h.readReal?_eq hzero]
  split_ifs with hlimit
  · simp [Option.filter, hfinite.2 hlimit]
  · simp [Option.filter, mt hfinite.1 hlimit]

/-! ## Spellings of an integer -/

/-- The spellings of an integer: its text, with any number of zeros behind the sign, and with a `+` in
front if it is not negative. -/
inductive Spelling (n : Int64) : List Char → Prop
  | plain {ds : List Char} (zeros : Nat) : 0 ≤ n.toInt → (Value.integer n).toText.toList = ds →
      Spelling n (List.replicate zeros '0' ++ ds)
  | plus {ds : List Char} (zeros : Nat) : 0 ≤ n.toInt → (Value.integer n).toText.toList = ds →
      Spelling n ('+' :: (List.replicate zeros '0' ++ ds))
  | minus {ds : List Char} (zeros : Nat) : n.toInt < 0 →
      (Value.integer n).toText.toList = '-' :: ds →
      Spelling n ('-' :: (List.replicate zeros '0' ++ ds))

theorem digitsOf_mem_run (n : Nat) : digitsOf n ∈ run Char.isDigit :=
  mem_run.2 ⟨Nat.toDigits_ne_nil, fun _ => isDigit_of_mem_digitsOf⟩

theorem zeros_append_mem_run (zeros : Nat) (hds : ds ∈ run Char.isDigit) :
    List.replicate zeros '0' ++ ds ∈ run Char.isDigit := by
  obtain ⟨hne, hdigits⟩ := mem_run.1 hds
  refine mem_run.2 ⟨by simp [hne], fun c hc => ?_⟩
  rcases List.mem_append.1 hc with hc | hc
  · rw [List.eq_of_mem_replicate hc]
    rfl
  · exact hdigits c hc

theorem Spelling.wholeNumeral {n : Int64} (h : Spelling n w) : WholeNumeral w n.toInt := by
  have hvalue (zeros : Nat) : ofDigits (List.replicate zeros '0' ++ digitsOf n.toInt.natAbs) =
      n.toInt.natAbs := by
    rw [ofDigits_zeros_append, ofDigits_digitsOf]
  have hmem (zeros : Nat) := zeros_append_mem_run zeros (digitsOf_mem_run n.toInt.natAbs)
  cases h with
  | plain zeros hn hds =>
    rw [Value.toText, intText, String.toList_ofList, if_neg (by omega)] at hds
    subst hds
    have h := WholeNumeral.plain (hmem zeros)
    rwa [hvalue, Int.natAbs_of_nonneg hn] at h
  | plus zeros hn hds =>
    rw [Value.toText, intText, String.toList_ofList, if_neg (by omega)] at hds
    subst hds
    have h := WholeNumeral.plus (hmem zeros)
    rwa [hvalue, Int.natAbs_of_nonneg hn] at h
  | minus zeros hn hds =>
    rw [Value.toText, intText, String.toList_ofList, if_pos hn] at hds
    obtain rfl := (List.cons.inj hds).2
    have h := WholeNumeral.minus (hmem zeros)
    rwa [hvalue, Int.ofNat_natAbs_of_nonpos hn.le, neg_neg] at h

theorem parseNumber?_of_spelling {n : Int64} (h : Spelling n w) (hs : Padded w s) :
    parseNumber? s = some (.integer n) :=
  parseNumber?_of_checked h.wholeNumeral hs (checked_eq_some_iff.2 rfl)

/-! ## What a spelling is worth -/

namespace Value

/-- Except for `+`, an arithmetic operator sees only the numbers that its operands are worth. -/
theorem binary_eq_of_toNumber_eq {op : BinaryOp} {a a' b b' : Value} (hop : op.isArithmetic = true)
    (hadd : op ≠ .add) (ha : a.toNumber = a'.toNumber) (hb : b.toNumber = b'.toNumber) :
    binary op a b = binary op a' b' := by
  have hjoins : ∀ a b, ¬ JoinsTexts op a b := fun a b h => hadd h.1
  rw [binary_of_isArithmetic hop, binary_of_isArithmetic hop, arithmetic_eq (hjoins a b),
    arithmetic_eq (hjoins a' b'), toNumbers, toNumbers, ha, hb]

/-- The text is worth the integer: in every coercion, in arithmetic, and when the two are compared. -/
structure Worth (s : String) (n : Int64) : Prop where
  toNumber : (text s).toNumber = .ok (.integer n)
  toInteger : (text s).toInteger = .ok n
  equal : Holds .equal (text s) (integer n) ∧ Holds .equal (integer n) (text s)
  order : order (text s) (integer n) = .ok .eq ∧ order (integer n) (text s) = .ok .eq
  arithmetic : ∀ op, op.isArithmetic = true → op ≠ .add → ∀ v,
    binary op (text s) v = binary op (integer n) v ∧ binary op v (text s) = binary op v (integer n)
  negate : unary .negate (text s) = unary .negate (integer n)

theorem worth_of_parseNumber? {n : Int64} (h : parseNumber? s = some (.integer n)) : Worth s n := by
  have hnumber : (text s).toNumber = .ok (.integer n) := by rw [toNumber, h]
  have hself : (Number.integer n).compare? (.integer n) = some .eq := by
    simp [Number.compare?]
  have horder : order (text s) (integer n) = .ok .eq := by
    rw [order_of_numbers (.inr rfl) hnumber rfl, hself]
  have hequal : Holds .equal (text s) (integer n) := by
    rw [holds_equal, looseEq_iff_order horder]
    exact ⟨rfl, by simp [EmptyBesideZero]⟩
  refine ⟨hnumber, ?_, ⟨hequal, ?_⟩, ⟨horder, order_swap horder⟩,
    fun op hop hadd v => ⟨?_, ?_⟩, ?_⟩
  · rw [toInteger, hnumber]
    rfl
  · rwa [holds_equal, looseEq_comm, ← holds_equal]
  · exact binary_eq_of_toNumber_eq hop hadd hnumber rfl
  · exact binary_eq_of_toNumber_eq hop hadd rfl hnumber
  · rw [unary, unary, hnumber]
    rfl

end Value

/-- **Integers survive the trip through text.**  However the text of an integer is padded with blanks,
lengthened by zeros behind the sign or, if it is not negative, given a `+`, it is read as this integer
and is worth it wherever numbers are wanted.  An optional sign and digits that denote a number out of
range are never read as an integer: they are the nearest real, or nothing if that is infinite. -/
theorem integer_of_spelling :
    (∀ n w s, Spelling n w → Padded w s →
      parseNumber? s = some (.integer n) ∧ Value.Worth s n) ∧
    (∀ n, Spelling n (Value.integer n).toText.toList) ∧
    ∀ w v s, WholeNumeral w v → Padded w s → ¬ InRange v →
      (∀ n, parseNumber? s ≠ some (.integer n)) ∧
      parseNumber? s =
        if (v.natAbs : ℚ) < overflowLimit then some (.real (.ofInt v)) else none := by
  refine ⟨fun n w s hw hs => ?_, fun n => ?_, fun w v s hw hs hv => ?_⟩
  · have hread := parseNumber?_of_spelling hw hs
    exact ⟨hread, Value.worth_of_parseNumber? hread⟩
  · rcases lt_or_ge n.toInt 0 with hn | hn
    · have htext : (Value.integer n).toText.toList = '-' :: digitsOf n.toInt.natAbs := by
        rw [Value.toText, intText, String.toList_ofList, if_pos hn]
      exact htext ▸ .minus 0 hn htext
    · exact .plain 0 hn rfl
  · have hread := parseNumber?_of_outside hw hs hv
    refine ⟨fun n hn => ?_, hread⟩
    rw [hread] at hn
    split_ifs at hn
    cases Option.some.inj hn

/-- A spelling of `7` between blanks, and the number before the least integer. -/
theorem integer_of_spelling_seven :
    (Spelling 7 "+007".toList ∧ Padded "+007".toList " \t+007\n" ∧
      Value.Worth " \t+007\n" 7 ∧ Value.Holds .equal (.text " \t+007\n") (.integer 7)) ∧
    (WholeNumeral "-9223372036854775809".toList (-9223372036854775809) ∧
      ¬ InRange (-9223372036854775809) ∧
      ∀ n, parseNumber? "-9223372036854775809" ≠ some (.integer n)) := by
  have hspelling : Spelling 7 "+007".toList := .plus 2 (by decide) (by decide +kernel)
  have hpadded : Padded "+007".toList " \t+007\n" :=
    ⟨" \t".toList, "\n".toList, by decide +kernel, List.all_eq_true.1 (by decide +kernel),
      List.all_eq_true.1 (by decide +kernel)⟩
  have hnumeral : WholeNumeral "-9223372036854775809".toList (-9223372036854775809) := by
    have hds : "9223372036854775809".toList ∈ run Char.isDigit :=
      mem_run.2 ⟨by decide +kernel, List.all_eq_true.1 (by decide +kernel)⟩
    exact .minus hds
  have houtside : ¬ InRange (-9223372036854775809) := by decide
  have hworth := (integer_of_spelling.1 _ _ _ hspelling hpadded).2
  refine ⟨⟨hspelling, hpadded, hworth, hworth.equal.1⟩, hnumeral, houtside, ?_⟩
  exact (integer_of_spelling.2.2 _ _ _ hnumeral ⟨[], [], rfl, nofun, nofun⟩ houtside).1

end BasicScript
