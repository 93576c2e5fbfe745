/-
  Integers of the script language: 64-bit signed integers whose operations are exact or refused.

  * `checked n` is the integer `n` when it is in range.
  * `checked_eq_some_iff`: it is `some i` exactly when `i` is the mathematical value.
-/
namespace BasicScript

/-- The 64-bit integer of a mathematical value, if it is in range. -/
def checked (n : Int) : Option Int64 :=
  if Int64.minValue.toInt ≤ n ∧ n ≤ Int64.maxValue.toInt then some (.ofInt n) else none

theorem checked_eq_some_iff {n : Int} {i : Int64} : checked n = some i ↔ i.toInt = n := by
  unfold checked
  constructor
  · intro h
    split at h
    · next hn =>
      obtain rfl := Option.some.inj h
      exact Int64.toInt_ofInt_of_le hn.1 (Int.lt_add_one_of_le hn.2)
    · simp at h
  · rintro rfl
    rw [if_pos ⟨Int64.minValue_le_toInt i, Int64.toInt_le i⟩, Int64.ofInt_toInt]

end BasicScript
