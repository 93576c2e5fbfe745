/-
  The faults that operations on values give.

  * `Fault.Ordinary f`: the fault is neither an `ABORT` on its way out of a call nor that of an array
    that is no longer alive.
  * `Faults r`: if there is no result, the fault is an ordinary one.
  * `faults_ofValue`, `faults_unary`, `faults_binary`, `faults_builtin?`, ...: so it is for the
    operations on values, none of which looks at the frames or changes an array.
-/
import BasicScript.Machine.Basic

namespace BasicScript

/-- The fault is neither an `ABORT` nor that of an array that is no longer alive. -/
structure Fault.Ordinary (f : Fault) : Prop where
  not_aborted : f ≠ .aborted
  not_stale : ∀ h, f ≠ .type (.notAlive h)

theorem Fault.ordinary_unknownCallable (key : CallKey) : (Fault.unknownCallable key).Ordinary :=
  ⟨nofun, nofun⟩

section
variable {α β : Type}

/-- A result, or an ordinary fault. -/
def Faults (r : Except Fault α) : Prop := ∀ f, r = .error f → f.Ordinary

theorem faults_ok (a : α) : Faults (.ok a) := nofun

theorem faults_error {f : Fault} (hf : f.Ordinary) : Faults (α := α) (.error f) := by
  rintro _ ⟨⟩
  exact hf

theorem Faults.bind {r : Except Fault α} {f : α → Except Fault β} (hr : Faults r)
    (hf : ∀ a, Faults (f a)) : Faults (r >>= f) := by
  cases r with
  | ok a => exact hf a
  | error fault => exact faults_error (hr fault rfl)

theorem Faults.map {r : Except Fault α} (hr : Faults r) (f : α → β) : Faults (r.map f) := by
  cases r with
  | ok a => exact faults_ok _
  | error fault => exact faults_error (hr fault rfl)

theorem Faults.ite {p : Prop} [Decidable p] {r r' : Except Fault α} (h : Faults r)
    (h' : Faults r') : Faults (if p then r else r') := by
  split
  · exact h
  · exact h'

end

/-! ## Numbers -/

theorem faults_ofCount (n : Nat) : Faults (ofCount n) := by
  unfold ofCount
  split
  · exact faults_ok _
  · exact faults_error ⟨nofun, nofun⟩

namespace Value

theorem faults_toNumber (v : Value) : Faults v.toNumber := by
  cases v with
  | text s =>
    simp only [toNumber]
    split
    · exact faults_ok _
    · exact faults_error ⟨nofun, nofun⟩
  | array => exact faults_error ⟨nofun, nofun⟩
  | _ => exact faults_ok _

theorem faults_toNumbers (a b : Value) : Faults (toNumbers a b) := by
  refine (faults_toNumber a).bind fun m => ?_
  exact (faults_toNumber b).bind fun n => faults_ok _

theorem faults_inRange (n : Int) : Faults (inRange n) := by
  unfold inRange
  split
  · exact faults_ok _
  · exact faults_error ⟨nofun, nofun⟩

/-! ## Operators -/

theorem faults_integerArithmetic (op : BinaryOp) (m n : Int64) :
    Faults (integerArithmetic op m n) := by
  have hzero : Faults (α := Value) (.error .divisionByZero) := faults_error ⟨nofun, nofun⟩
  cases op with
  | add | sub | mul => exact faults_inRange _
  | div => exact hzero.ite (faults_inRange _)
  | mod => exact hzero.ite ((faults_inRange _).bind fun _ => faults_inRange _)
  | _ => exact faults_error ⟨nofun, nofun⟩

theorem faults_realArithmetic (op : BinaryOp) (x y : Binary64) : Faults (realArithmetic op x y) := by
  have hzero : Faults (α := Value) (.error .divisionByZero) := faults_error ⟨nofun, nofun⟩
  cases op with
  | add | sub | mul => exact faults_ok _
  | div | mod => exact hzero.ite (faults_ok _)
  | _ => exact faults_error ⟨nofun, nofun⟩

theorem faults_arithmetic (op : BinaryOp) (a b : Value) : Faults (arithmetic op a b) := by
  refine (faults_ok _).ite ((faults_toNumbers a b).bind fun numbers => ?_)
  split
  · exact faults_integerArithmetic op _ _
  · exact faults_realArithmetic op _ _

theorem faults_order (a b : Value) : Faults (order a b) := by
  unfold order
  split
  · exact faults_ok _
  · refine (faults_toNumbers a b).bind fun numbers => ?_
    split
    · exact faults_ok _
    · split
      · exact faults_ok _
      · exact faults_error ⟨nofun, nofun⟩

theorem faults_comparison (op : BinaryOp) (a b : Value) : Faults (comparison op a b) := by
  cases op with
  | equal | notEqual => exact faults_ok _
  | less | greater | lessEqual | greaterEqual => exact (faults_order a b).map _
  | _ => exact faults_error ⟨nofun, nofun⟩

theorem faults_binary (op : BinaryOp) (a b : Value) : Faults (binary op a b) := by
  cases op with simp only [binary]
  | add | sub | mul | div | mod => exact faults_arithmetic _ a b
  | and_ | or_ | xor => exact faults_ok _
  | _ => exact faults_comparison _ a b

theorem faults_unary (op : UnaryOp) (v : Value) : Faults (unary op v) := by
  cases op with
  | not_ => exact faults_ok _
  | negate =>
    refine (faults_toNumber v).bind fun n => ?_
    split
    · exact faults_inRange _
    · exact faults_ok _

end Value

theorem Key.faults_ofValue (v : Value) : Faults (ofValue v) := by
  cases v with
  | real x =>
    simp only [ofValue]
    split
    · exact faults_error ⟨nofun, nofun⟩
    · split <;> exact faults_ok _
  | empty | array => exact faults_error ⟨nofun, nofun⟩
  | _ => exact faults_ok _

/-! ## Built-in functions and loops -/

namespace Machine

theorem faults_builtin? {arrays : Arena} {name : String} {vs : List Value}
    {r : Except Fault Value} (h : builtin? arrays name vs = some r) : Faults r := by
  unfold builtin? at h
  split at h
  · split at h <;> cases h
    exact (faults_ofCount _).map _
  · split at h <;> cases h
    refine Faults.map ?_ _
    unfold has
    split
    · exact (Key.faults_ofValue _).map _
    · exact faults_ok _
  · cases h

theorem faults_ascending (step : Number) : Faults (ascending step) := by
  have hzero : Faults (α := Bool) (.error .zeroStep) := faults_error ⟨nofun, nofun⟩
  cases step with
  | integer n => exact hzero.ite (faults_ok _)
  | real x => exact hzero.ite (faults_ok _)

theorem faults_counts (up : Bool) (current last : Value) : Faults (counts up current last) :=
  (Value.faults_comparison _ current last).map _

end Machine

end BasicScript
