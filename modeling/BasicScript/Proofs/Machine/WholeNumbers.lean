/-
  Whole numbers of either kind, as they are shown.

  * `ShownAlike u w`: neither `PRINT` nor `+` next to a text nor `LEN` tells two values apart;
    `shownAlike_of_toText_eq`: so it is if they have the same text and are no arrays.
  * `whole_number_shown_as_integer`: an integer of at most 15 digits becomes a real of its exact value,
    and a real of this value is shown as the integer is.
-/
import BasicScript.Proofs.Arena.Unfolding
import BasicScript.Proofs.Machine.NumericKeys
import BasicScript.Proofs.Number.FixedNotation
import BasicScript.Proofs.Value.Arithmetic

namespace BasicScript

variable {u w : Value}

namespace Machine

/-- Neither `PRINT` nor `+` next to a text nor `LEN`, where the script has no callable of its own for
it, tells the two values apart. -/
structure ShownAlike (u w : Value) : Prop where
  print : ∀ e e', Twins e e' u w →
    ∀ (σ : Type) (fuel : Nat) (before after : List Expr) (line : Nat),
      exec (σ := σ) fuel (.print (before ++ e :: after) line) =
        exec fuel (.print (before ++ e' :: after) line)
  join : ∀ s, Value.binary .add u (.text s) = Value.binary .add w (.text s) ∧
    Value.binary .add (.text s) u = Value.binary .add (.text s) w
  length : ∀ (σ : Type) (fuel line : Nat) (c : Context σ),
    findSubroutine? c.subroutines ⟨"LEN", 1⟩ = none → c.native? ⟨"LEN", 1⟩ = none →
      call fuel "LEN" [u] line c = call fuel "LEN" [w] line c

/-- What twins are rendered to is the same, wherever they stand among the expressions. -/
theorem renderAll_of_twins {σ : Type} (hrender : ∀ c : Context σ, c.render u = c.render w)
    {e e' : Expr} (he : Twins e e' u w) (before after : List Expr) (fuel : Nat) :
    renderAll (σ := σ) fuel (before ++ e :: after) = renderAll fuel (before ++ e' :: after) := by
  induction before generalizing fuel with
  | nil =>
    cases fuel with
    | zero => rw [renderAll, renderAll]
    | succ fuel =>
      rw [List.nil_append, List.nil_append, renderAll, renderAll]
      refine he.bind ?_ fuel
      simp only [hrender]
  | cons b before ih =>
    cases fuel with
    | zero => rw [renderAll, renderAll]
    | succ fuel => rw [List.cons_append, List.cons_append, renderAll, renderAll, ih]

/-- The built-in `LEN` of a script without a callable of its own for it. -/
theorem call_len {σ : Type} {c : Context σ} (hsub : findSubroutine? c.subroutines ⟨"LEN", 1⟩ = none)
    (hnative : c.native? ⟨"LEN", 1⟩ = none) (fuel : Nat) (v : Value) (line : Nat) :
    call (fuel + 1) "LEN" [v] line c =
      onLine line ((ofCount (lengthOf c.arrays v)).map .integer) c := by
  rw [call]
  simp only [List.length_cons, List.length_nil, bind_of_ok (m := get) rfl, Nat.zero_add, hsub,
    hnative]
  rfl

section
variable (hu : u.handle? = none) (hw : w.handle? = none) (htext : u.toText = w.toText)
include hu hw htext

theorem render_of_toText_eq {σ : Type} (c : Context σ) : c.render u = c.render w := by
  rw [Context.render, Context.render, (Arena.Unfolds.plain hu).render_eq,
    (Arena.Unfolds.plain hw).render_eq, htext]

theorem lengthOf_of_toText_eq (arrays : Arena) : lengthOf arrays u = lengthOf arrays w := by
  have hlength : ∀ v : Value, v.handle? = none → lengthOf arrays v = v.toText.length := by
    intro v hv
    cases v with
    | array h => cases hv
    | _ => rfl
  rw [hlength u hu, hlength w hw, htext]

/-- Values other than arrays are shown alike if they have the same text. -/
theorem shownAlike_of_toText_eq : ShownAlike u w where
  print := by
    intro e e' he σ fuel before after line
    cases fuel with
    | zero => rw [exec, exec]
    | succ fuel =>
      rw [exec, exec, renderAll_of_twins (render_of_toText_eq hu hw htext) he]
  join := by
    intro s
    have hleft : ∀ v, Value.JoinsTexts .add v (.text s) := fun v => ⟨rfl, .inr rfl⟩
    have hright : ∀ v, Value.JoinsTexts .add (.text s) v := fun v => ⟨rfl, .inl rfl⟩
    simp only [Value.binary_of_joinsTexts (hleft _), Value.binary_of_joinsTexts (hright _), htext,
      and_self]
  length := by
    intro σ fuel line c hsub hnative
    cases fuel with
    | zero => rw [call, call]
    | succ fuel =>
      rw [call_len hsub hnative, call_len hsub hnative, lengthOf_of_toText_eq hu hw htext]

end

end Machine

/-- An integer of at most 15 digits is exact as a real. -/
theorem Number.units?_toReal {n : Int64} (hn : n.toInt.natAbs < 10 ^ 15) :
    (integer n).toReal.units? = some (n.toInt * Binary64.one) :=
  Binary64.units?_ofInt (hn.trans (by decide))

/-- **Whole numbers print the same as integers and as reals.**  An integer of at most 15 digits becomes
a real of exactly this value.  Any real of this value, a negative zero included, has the text of the
integer, whatever the estimate of its magnitude is, and is shown as the integer is. -/
theorem whole_number_shown_as_integer (n : Int64) (hn : n.toInt.natAbs < 10 ^ 15) :
    (Number.integer n).toReal.units? = some (n.toInt * Binary64.one) ∧
    ∀ x : Binary64, x.units? = some (n.toInt * Binary64.one) →
      (∀ magnitude, x.textAt magnitude = (Value.integer n).toText) ∧
      (Value.real x).toText = (Value.integer n).toText ∧
      Machine.ShownAlike (.integer n) (.real x) := by
  refine ⟨Number.units?_toReal hn, fun x hx => ?_⟩
  have htext : (Value.real x).toText = (Value.integer n).toText := Binary64.text_of_whole hx
  exact ⟨Binary64.textAt_of_whole hx, htext, Machine.shownAlike_of_toText_eq rfl rfl htext.symm⟩

/-- The zeros of a million are kept, and there is no negative zero. -/
theorem whole_number_shown_as_integer_million :
    ((1000000 : Int64).toInt.natAbs < 10 ^ 15 ∧
      (Value.real (Number.integer 1000000).toReal).toText = "1000000") ∧
    ((0 : Int64).toInt.natAbs < 10 ^ 15 ∧ (Value.real (.zero true)).toText = "0") := by
  have hmillion : (1000000 : Int64).toInt.natAbs < 10 ^ 15 := by decide
  have hzero : (0 : Int64).toInt.natAbs < 10 ^ 15 := by decide
  obtain ⟨hunits, hshown⟩ := whole_number_shown_as_integer 1000000 hmillion
  have hunits_zero : (Binary64.zero true).units? = some ((0 : Int64).toInt * Binary64.one) := by
    rw [show (0 : Int64).toInt = 0 from rfl, zero_mul]
    rfl
  have hnegative := (whole_number_shown_as_integer 0 hzero).2 _ hunits_zero
  exact ⟨⟨hmillion, (hshown _ hunits).2.1.trans (by decide +kernel)⟩, hzero,
    hnegative.2.1.trans (by decide +kernel)⟩

end BasicScript
