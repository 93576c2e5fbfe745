/-
  Keys that come from values, and the entries of arrays.

  * `Key.Canonical k`: the key is that of a value, so that it is neither `nan` nor a real that holds a
    whole number.
  * `Key.compare_eq_iff`: to such a key only the key itself compares as equal.
  * `Entries.find?_insert_self`, `find?_insert_of_ne`, `find?_erase_self`, `find?_erase_of_ne`: what a
    key leads to after an entry is set or removed.
-/
import BasicScript.Proofs.Arena.FreeList

namespace BasicScript

/-! ## Reals -/

namespace Binary64

/-- A mantissa and a shift are determined by the size. -/
theorem size_inj {m s n t : Nat} (hm : IsCanonical m s) (hn : IsCanonical n t)
    (h : size m s = size n t) : m = n ∧ s = t := by
  -- With a smaller shift the mantissa would need more than 53 bits.
  have hshift : ∀ {m s n t : Nat}, IsCanonical m s → IsCanonical n t → size m s = size n t →
      ¬ s < t := by
    intro m s n t hm hn h hlt
    obtain ⟨hmlt, -, -⟩ := hm
    have hn' : fullMantissa ≤ n := hn.2.2.resolve_left (by omega)
    have hpow : Nat.pow 2 t = Nat.pow 2 s * Nat.pow 2 (t - s) := by
      rw [Nat.pow_eq, Nat.pow_eq, Nat.pow_eq, ← Nat.pow_add, Nat.add_sub_cancel' hlt.le]
    rw [size, size, hpow, Nat.mul_comm (Nat.pow 2 s), ← Nat.mul_assoc] at h
    have hm' : m = n * Nat.pow 2 (t - s) := Nat.eq_of_mul_eq_mul_right (Nat.two_pow_pos s) h
    have htwo : 2 ≤ Nat.pow 2 (t - s) := Nat.le_self_pow (Nat.sub_ne_zero_of_lt hlt) 2
    have hle : fullMantissa * 2 ≤ n * Nat.pow 2 (t - s) := Nat.mul_le_mul hn' htwo
    omega
  have hst : s = t := by
    have hst := hshift hm hn h
    have hts := hshift hn hm h.symm
    omega
  subst hst
  exact ⟨Nat.eq_of_mul_eq_mul_right (Nat.two_pow_pos s) h, rfl⟩

theorem signed_inj {a b : Bool} {m n : Nat} (hm : m ≠ 0) (h : signed a m = signed b n) :
    a = b ∧ m = n := by
  cases a <;> cases b <;> simp [signed] at h ⊢ <;> omega

/-- Only a number itself is equal to a number that is neither `nan` nor zero. -/
theorem eq_of_compare?_eq {x y : Binary64} (hx : x.isZero = false)
    (h : x.compare? y = some .eq) : x = y := by
  cases x with
  | nan => cases h
  | infinite a =>
    cases y with
    | nan => cases h
    | infinite b =>
      by_cases hab : a = b
      · rw [hab]
      · cases a <;> cases b <;> simp [compare?] at h hab
    | finite => cases a <;> simp [compare?] at h
  | finite a m s hm =>
    cases y with
    | nan => cases h
    | infinite b => cases b <;> simp [compare?] at h
    | finite b n t hn =>
      have hm0 : m ≠ 0 := by simpa [isZero] using hx
      have hsize : size m s ≠ 0 := Nat.mul_ne_zero hm0 (Nat.two_pow_pos s).ne'
      have hunits : signed a (size m s) = signed b (size n t) :=
        Int.compare_eq_eq.1 (Option.some.inj h)
      obtain ⟨rfl, hsizes⟩ := signed_inj hsize hunits
      obtain ⟨rfl, rfl⟩ := size_inj hm hn hsizes
      rfl

theorem isZero_of_toSafeInt?_eq_none {x : Binary64} (h : x.toSafeInt? = none) :
    x.isZero = false := by
  cases x with
  | finite a m s hm =>
    by_contra hzero
    have hm0 : m = 0 := by simpa [isZero] using hzero
    simp [toSafeInt?, size, hm0] at h
  | _ => rfl

end Binary64

/-! ## Keys -/

namespace Key

variable {k k' : Key}

/-- The key is that of a value. -/
def Canonical (k : Key) : Prop := ∃ v, ofValue v = .ok k

theorem compare_self (k : Key) : k.compare k = .eq := by
  cases k with
  | real x => cases x <;> simp [compare, compareReal, Binary64.compare?]
  | bool b => exact Nat.compare_eq_eq.2 rfl
  | integer n => exact Int.compare_eq_eq.2 rfl
  | text s => exact Std.ReflOrd.compare_self

/-- Only a number compares as equal to a number. -/
theorem compare?_of_compareReal {x y : Binary64} (hx : x.isNaN = false)
    (h : compareReal x y = .eq) : x.compare? y = some .eq := by
  cases x with
  | nan => cases hx
  | _ => cases y <;> simp_all [compareReal, Binary64.compare?, Binary64.isNaN]

theorem Canonical.real {x : Binary64} (h : (real x).Canonical) :
    x.isNaN = false ∧ x.toSafeInt? = none := by
  obtain ⟨v, hv⟩ := h
  cases v with
  | real y =>
    simp only [ofValue] at hv
    split at hv
    · cases hv
    · next hnan =>
      split at hv
      · cases hv
      · next hint =>
        cases hv
        exact ⟨by simpa using hnan, hint⟩
  | _ => cases hv

/-- To the key of a value only the key itself compares as equal. -/
theorem compare_eq_iff (hk : k.Canonical) : k.compare k' = .eq ↔ k = k' := by
  constructor
  · intro h
    cases k <;> cases k'
    case bool.bool a b => cases a <;> cases b <;> cases h <;> rfl
    case integer.integer a b => rw [Int64.toInt_inj.1 (Int.compare_eq_eq.1 h)]
    case real.real x y =>
      obtain ⟨hnan, hint⟩ := hk.real
      rw [Binary64.eq_of_compare?_eq (Binary64.isZero_of_toSafeInt?_eq_none hint)
        (compare?_of_compareReal hnan h)]
    case text.text s t => rw [Std.LawfulEqOrd.eq_of_compare h]
    all_goals cases h
  · rintro rfl
    exact compare_self k

end Key

/-! ## Entries -/

namespace Entries

variable {es : Entries} {k k' : Key} {v : Value}

theorem find?_cons (e : Key × Value) (es : Entries) (k : Key) :
    find? (e :: es) k = if k.compare e.1 = .eq then some e.2 else es.find? k := by
  rw [find?, find?, List.find?_cons]
  by_cases h : k.compare e.1 = .eq
  · simp [h]
  · have hb : (k.compare e.1 == .eq) = false := by simpa using h
    simp only [hb, if_neg h]

/-- A key leads to the value that was set. -/
theorem find?_insert_self (es : Entries) (k : Key) (v : Value) :
    (es.insert k v).find? k = some v := by
  induction es with
  | nil => rw [insert, find?_cons, if_pos (k.compare_self)]
  | cons e es ih =>
    rw [insert]
    split
    · rw [find?_cons, if_pos (k.compare_self)]
    · next h => rw [find?_cons, if_pos h]
    · next h => rw [find?_cons, if_neg (by rw [h]; exact nofun), ih]

/-- Any other key leads to what it did. -/
theorem find?_insert_of_ne (hk : k.Canonical) (hk' : k'.Canonical) (hne : k' ≠ k) (es : Entries)
    (v : Value) : (es.insert k v).find? k' = es.find? k' := by
  have hne' : ¬ k'.compare k = .eq := fun h => hne ((Key.compare_eq_iff hk').1 h)
  induction es with
  | nil => rw [insert, find?_cons, if_neg hne']
  | cons e es ih =>
    rw [insert]
    split
    · rw [find?_cons, if_neg hne']
    · next h =>
      obtain rfl := (Key.compare_eq_iff hk).1 h
      rw [find?_cons, find?_cons, if_neg hne', if_neg hne']
    · rw [find?_cons, find?_cons, ih]

theorem erase_cons (k : Key) (e : Key × Value) (es : Entries) :
    erase k (e :: es) = if k.compare e.1 = .eq then es.erase k else e :: es.erase k := by
  rw [erase, erase, List.filter_cons]
  by_cases h : k.compare e.1 = .eq <;> simp [h]

/-- A key leads to nothing after its entry is removed. -/
theorem find?_erase_self (es : Entries) (k : Key) : (es.erase k).find? k = none := by
  induction es with
  | nil => rfl
  | cons e es ih =>
    rw [erase_cons]
    split
    · exact ih
    · next h => rw [find?_cons, if_neg h, ih]

/-- Any other key leads to what it did. -/
theorem find?_erase_of_ne (hk : k.Canonical) (hk' : k'.Canonical) (hne : k' ≠ k) (es : Entries) :
    (es.erase k).find? k' = es.find? k' := by
  have hne' : ¬ k'.compare k = .eq := fun h => hne ((Key.compare_eq_iff hk').1 h)
  induction es with
  | nil => rfl
  | cons e es ih =>
    rw [erase_cons]
    split
    · next h =>
      obtain rfl := (Key.compare_eq_iff hk).1 h
      rw [ih, find?_cons, if_neg hne']
    · rw [find?_cons, find?_cons, ih]

end Entries

end BasicScript
