/-
  Steps in sequence: what the first one comes to decides what becomes of the second.
-/
namespace BasicScript

variable {ε σ α β : Type} {m : EStateM ε σ α} {f : α → EStateM ε σ β} {s s' : σ}

theorem bind_of_ok {a : α} (h : m s = .ok a s') : (m >>= f) s = f a s' := by
  simp only [bind, EStateM.bind, h]

theorem bind_of_error {e : ε} (h : m s = .error e s') : (m >>= f) s = .error e s' := by
  simp only [bind, EStateM.bind, h]

theorem bind_eq_ok_iff {b : β} :
    (m >>= f) s = .ok b s' ↔ ∃ a s₁, m s = .ok a s₁ ∧ f a s₁ = .ok b s' := by
  constructor
  · intro h
    cases hm : m s with
    | ok a s₁ => exact ⟨a, s₁, rfl, (bind_of_ok hm).symm.trans h⟩
    | error e s₁ => cases (bind_of_error hm).symm.trans h
  · rintro ⟨a, s₁, hm, hf⟩
    exact (bind_of_ok hm).trans hf

end BasicScript
