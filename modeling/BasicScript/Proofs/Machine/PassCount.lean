/-
  How many passes a counting loop over integers makes.

  * `passCount first last step`: the number of passes; `lt_passCount_iff`: a pass is made as long as
    the counter has not gone past the last value.
  * `progression first step n`: the values of the counter in `n` passes.
  * `BodyRuns counter body values c c'`: the body runs once for each of the values.
  * `passesAfter m`: the loop once it has made `m` passes; `sameOutcomes_pass`: one pass of it.
  * `Passed`: what there is behind `n` passes; `Passed.exists_pass`: one more pass; `exists_passed`, by
    induction on `n`: all the passes that a loop is allowed to make.
  * `integer_loop_pass_count`: what an integer loop does and how it ends.
-/
import BasicScript.Proofs.Machine.CountingLoops
import BasicScript.Proofs.Machine.Termination
import BasicScript.Proofs.Machine.Unseen
import BasicScript.Proofs.Machine.Writes
import BasicScript.Proofs.Value.Arithmetic

namespace BasicScript

namespace Machine

variable {σ : Type}

/-! ## The values of the counter -/

/-- The counter has not gone past the last value. -/
def NotPast (last step x : Int) : Prop := if step < 0 then last ≤ x else x ≤ last

instance (last step x : Int) : Decidable (NotPast last step x) :=
  inferInstanceAs (Decidable (if step < 0 then last ≤ x else x ≤ last))

/-- The number of passes from `first` on. -/
def passCount (first last step : Int) : Nat := ((last - first).fdiv step + 1).toNat

/-- The values of the counter in the first `n` passes. -/
def progression (first step : Int) (n : Nat) : List Int :=
  (List.range n).map fun i => first + i * step

theorem progression_succ (first step : Int) (n : Nat) :
    progression first step (n + 1) = progression first step n ++ [first + n * step] := by
  simp [progression, List.range_succ]

section
variable {first last step : Int}

theorem lt_passCount_iff (hstep : step ≠ 0) (n : Nat) :
    n < passCount first last step ↔ NotPast last step (first + n * step) := by
  have hle : n < passCount first last step ↔ (n : Int) ≤ (last - first).fdiv step := by
    rw [passCount, Int.lt_toNat]
    omega
  rw [hle, NotPast]
  rcases lt_or_gt_of_ne hstep with hneg | hpos
  · rw [if_pos hneg, ← Int.neg_fdiv_neg, Int.fdiv_eq_ediv_of_nonneg _ (by omega),
      Int.le_ediv_iff_mul_le (by omega), Int.mul_neg]
    omega
  · rw [if_neg (by omega), Int.fdiv_eq_ediv_of_nonneg _ hpos.le, Int.le_ediv_iff_mul_le hpos]
    omega

/-- As long as the counter has not gone past the last value, it is between the first and the last
one. -/
theorem NotPast.inRange {n : Nat} (h : NotPast last step (first + n * step)) (hfirst : InRange first)
    (hlast : InRange last) : InRange (first + n * step) := by
  unfold InRange at hfirst hlast ⊢
  unfold NotPast at h
  split at h
  · next hneg =>
    have hle : n * step ≤ 0 := Int.mul_nonpos_of_nonneg_of_nonpos (by omega) hneg.le
    omega
  · next hpos =>
    have hle : 0 ≤ n * step := Int.mul_nonneg (by omega) (by omega)
    omega

end

/-- The body runs once for each of the values, which the counter is set to before. -/
inductive BodyRuns (counter : String) (body : List Statement) :
    List Int → Context σ → Context σ → Prop
  | nil (c : Context σ) : BodyRuns counter body [] c c
  | snoc {ns : List Int} {c c₁ c₂ : Context σ} {i : Int64} :
    BodyRuns counter body ns c c₁ →
    Returns (block · body) (c₁.setVariable counter (.integer i)) .next c₂ →
    BodyRuns counter body (ns ++ [i.toInt]) c c₂

end Machine

/-! ## Behind the header -/

theorem Frame.set_set (f : Frame) (name : String) (v w : Value) :
    (f.set name v).set name w = f.set name w := by
  simp [set, erase]

namespace Machine

variable {σ α : Type}

theorem Keeps.of_ok {R : Context σ → Context σ → Prop} {m : Machine σ α} (h : Keeps R m)
    {c c' : Context σ} {a : α} (hm : m c = .ok a c') : R c c' :=
  after_of_ok hm ▸ h c

theorem Tracks.keeps_evalStep {E : Context σ → Context σ → Prop}
    {S : List String → Context σ → Context σ → Prop} (h : Tracks E S) (fuel : Nat)
    (step : Option Expr) (line : Nat) : Keeps E (evalStep fuel step line) := by
  cases step with
  | some e => exact (h.runs fuel).evalNumber e line
  | none => exact h.keeps_of_eq (step_pure _)

/-- The header of a loop keeps the limits, and leaves the counter at the first value. -/
theorem context_of_header {counter : String} {first last : Expr} {step : Option Expr} {line : Nat}
    {c c₀ : Context σ} {a b k : Number}
    (h : Returns (evalHeader · counter first last step line) c (a, b, k) c₀) :
    c₀.limits = c.limits ∧ c₀.setVariable counter a.toValue = c₀ := by
  obtain ⟨fuel, h⟩ := h
  obtain ⟨a', c₁, ha, h⟩ := bind_eq_ok_iff.1 h
  obtain ⟨-, c₁', ⟨⟩, h⟩ := bind_eq_ok_iff.1 h
  obtain ⟨b', c₂, hb, h⟩ := bind_eq_ok_iff.1 h
  obtain ⟨k', c₃, hk, ⟨⟩⟩ := bind_eq_ok_iff.1 h
  have bounds := tracks_bounds.runs (σ := σ) fuel
  have frames := tracks_frames.runs (σ := σ) fuel
  constructor
  · rw [((tracks_bounds.keeps_evalStep fuel step line).of_ok hk).limits,
      ((bounds.evalNumber last line).of_ok hb).limits]
    exact ((bounds.evalNumber first line).of_ok ha).limits
  · have hactive : c₀.active = c₁.active.set counter a.toValue :=
      ((tracks_frames.keeps_evalStep fuel step line).of_ok hk).active.trans
        ((frames.evalNumber last line).of_ok hb).active
    rw [Context.setVariable, hactive, Frame.set_set, ← hactive]

/-! ## One pass -/

section
variable (counter : String) (last step : Int64) (body : List Statement) (line : Nat)

/-- The loop behind its first `m` passes. -/
def passesAfter (m fuel : Nat) : Machine σ Flow :=
  forLoop fuel counter (Number.integer last).toValue (Number.integer step).toValue
    (!(Number.integer step).isNegative) body line (.ofNat m)

variable {counter last step body line} {c c₁ : Context σ} {i : Int64} {m : Nat}

theorem passesAfter_zero (c : Context σ) :
    passesAfter counter last step body line m 0 c = .error .outOfFuel c := by
  rw [passesAfter, forLoop.eq_def]
  rfl

theorem steady_passesAfter (m : Nat) :
    Steady (σ := σ) (passesAfter counter last step body line m) :=
  steady_forLoop counter _ _ _ body line _

theorem counts_integers (i last step : Int64) :
    counts (!(Number.integer step).isNegative) (.integer i) (Number.integer last).toValue =
      .ok (decide (NotPast last.toInt step.toInt i.toInt)) := by
  have horder : Value.order (.integer i) (.integer last) = .ok (compare i.toInt last.toInt) := rfl
  have hsign : step < 0 ↔ step.toInt < 0 := Int64.lt_iff_toInt_lt
  by_cases hneg : step < 0
  · have hpast : NotPast last.toInt step.toInt i.toInt ↔ compare i.toInt last.toInt ≠ .lt := by
      rw [NotPast, if_pos (hsign.1 hneg), ne_eq, compare_lt_iff_lt, not_lt]
    simp [counts, Number.isNegative, Number.toValue, Value.comparison, hneg, horder, hpast,
      Except.map, Value.truthy]
  · have hpast : NotPast last.toInt step.toInt i.toInt ↔ compare i.toInt last.toInt ≠ .gt := by
      rw [NotPast, if_neg (mt hsign.2 hneg), ne_eq, compare_gt_iff_gt, not_lt]
    simp [counts, Number.isNegative, Number.toValue, Value.comparison, hneg, horder, hpast,
      Except.map, Value.truthy]

theorem testCounter_eq (h : c.valueOf counter = .integer i) :
    testCounter counter (.integer last) (.integer step) line c =
      .ok (decide (NotPast last.toInt step.toInt i.toInt)) c := by
  rw [testCounter, bind_of_ok (readVariable_eq counter c), h, counts_integers]
  rfl

/-- The passes are over once the counter has gone past the last value. -/
theorem passesAfter_of_past (h : c.valueOf counter = .integer i)
    (hpast : ¬ NotPast last.toInt step.toInt i.toInt) :
    Returns (passesAfter counter last step body line m) c .next c := by
  refine ⟨1, ?_⟩
  rw [passesAfter, forLoop_succ, bind_of_ok (testCounter_eq h)]
  simp only [hpast, decide_false]
  rfl

/-- A pass that is one too many is refused. -/
theorem passesAfter_of_limit {limit : UInt64} (h : c.valueOf counter = .integer i)
    (hpast : NotPast last.toInt step.toInt i.toInt) (hlimit : c.limits.loopPasses = some limit)
    (hlt : limit.toNat < 2 ^ 64 - 1) :
    Fails (passesAfter counter last step body line limit.toNat) c ⟨.loopLimit limit, line⟩ c := by
  have hcount : limit < UInt64.ofNat limit.toNat + 1 := by
    rw [UInt64.ofNat_toNat, UInt64.lt_iff_toNat_lt, UInt64.toNat_add, UInt64.toNat_one]
    omega
  refine ⟨1, ?_⟩
  rw [passesAfter, forLoop_succ, bind_of_ok (testCounter_eq h)]
  simp only [hpast, decide_true, if_true]
  exact bind_of_error (countPass_of_lt hlimit hcount)

/-- What is left of an allowed pass behind its body. -/
theorem sameOutcomes_pass (h : c.valueOf counter = .integer i)
    (hpast : NotPast last.toInt step.toInt i.toInt)
    (hlimit : ∀ limit, c.limits.loopPasses = some limit → m + 1 ≤ limit.toNat)
    (hbody : Returns (block · body) c .next c₁) :
    SameOutcomes (passesAfter counter last step body line m) c
      (fun n => stepCounter counter (.integer step) line >>= fun _ =>
        passesAfter counter last step body line (m + 1) n) c₁ := by
  have hcount : countPass (.ofNat m) line c = .ok (.ofNat (m + 1)) c := by
    rw [UInt64.ofNat_add]
    refine countPass_of_le fun limit hl => ?_
    have hle := hlimit limit hl
    rw [← UInt64.ofNat_one, ← UInt64.ofNat_add, UInt64.le_iff_toNat_le, UInt64.toNat_ofNat']
    exact (Nat.mod_le _ _).trans hle
  have hpass : ∀ n, passesAfter counter last step body line m (n + 1) c =
      andThen (block n body) (stepCounter counter (.integer step) line >>= fun _ =>
        passesAfter counter last step body line (m + 1) n) c := by
    intro n
    rw [passesAfter, forLoop_succ, bind_of_ok (testCounter_eq h)]
    simp only [hpast, decide_true, if_true]
    exact bind_of_ok hcount
  refine (sameOutcomes_succ passesAfter_zero c).trans ((sameOutcomes_of_eq hpass).trans ?_)
  refine sameOutcomes_andThen (steady_block body) ?_ hbody
  exact (steady_const _).bind fun _ => steady_passesAfter (m + 1)

/-- The counter is stepped to the next value, if that is in range. -/
theorem stepCounter_of_inRange {j : Int64} (h : c.valueOf counter = .integer i)
    (hj : j.toInt = i.toInt + step.toInt) :
    stepCounter counter (.integer step) line c = .ok () (c.setVariable counter (.integer j)) := by
  have hsum : Value.arithmetic .add (.integer i) (Number.integer step).toValue = .ok (.integer j) :=
    Value.inRange_eq_ok_iff.2 ⟨j, rfl, hj⟩
  rw [stepCounter, bind_of_ok (readVariable_eq counter c), h, hsum]
  rfl

theorem stepCounter_of_not_inRange (h : c.valueOf counter = .integer i)
    (hrange : ¬ InRange (i.toInt + step.toInt)) :
    stepCounter counter (.integer step) line c = .error (.raised ⟨.overflow, line⟩) c := by
  have hsum : Value.arithmetic .add (.integer i) (Number.integer step).toValue = .error .overflow :=
    Value.inRange_eq_error_iff.2 ⟨rfl, hrange⟩
  rw [stepCounter, bind_of_ok (readVariable_eq counter c), h, hsum]
  rfl

end

/-! ## The passes -/

/-- From every context with these limits the body goes on, and leaves the counter as it is. -/
def GoesOn (σ : Type) (limits : Limits) (counter : String) (body : List Statement) : Prop :=
  ∀ c : Context σ, c.limits = limits →
    ∃ c', Returns (block · body) c .next c' ∧ c'.valueOf counter = c.valueOf counter

/-- From `c` the loop has made `n` passes that count from `first` on.  Behind the last of them there
is the context `c'`, and the next value of the counter is `i`. -/
structure Passed (counter : String) (first last step : Int64) (body : List Statement) (line : Nat)
    (c : Context σ) (n : Nat) (c' : Context σ) (i : Int64) : Prop where
  runs : BodyRuns counter body (progression first.toInt step.toInt n) c c'
  value : i.toInt = first.toInt + n * step.toInt
  limits : c'.limits = c.limits
  rest : SameOutcomes
    (passesAfter counter last step body line 0) (c.setVariable counter (.integer first))
    (passesAfter counter last step body line n) (c'.setVariable counter (.integer i))

section
variable {counter : String} {first last step : Int64} {body : List Statement} {line : Nat}
  {c c₁ : Context σ} {n : Nat} {i : Int64}

theorem valueOf_setVariable (c : Context σ) (name : String) (v : Value) :
    (c.setVariable name v).valueOf name = v := by
  rw [Context.valueOf, Context.findVariable?, Context.setVariable, Frame.find?_set_self]
  rfl

theorem limits_of_block {flow : Flow} (h : Returns (block · body) c flow c₁) :
    c₁.limits = c.limits := by
  obtain ⟨fuel, h⟩ := h
  exact (((tracks_bounds.runs fuel).block _ body (List.Subset.refl _)).of_ok h).limits

theorem passed_zero (c : Context σ) : Passed counter first last step body line c 0 c first where
  runs := .nil c
  value := by simp
  limits := rfl
  rest := .refl _ _

/-- One more pass: its body runs, and then the counter is to be stepped. -/
theorem Passed.exists_pass (h : Passed counter first last step body line c n c₁ i)
    (hstep : step ≠ 0) (hbody : GoesOn σ c.limits counter body)
    (hn : n < passCount first.toInt last.toInt step.toInt)
    (hlimit : ∀ limit, c.limits.loopPasses = some limit → n + 1 ≤ limit.toNat) :
    ∃ c₂, BodyRuns counter body (progression first.toInt step.toInt (n + 1)) c c₂ ∧
      c₂.limits = c.limits ∧ c₂.valueOf counter = .integer i ∧
      SameOutcomes
        (passesAfter counter last step body line 0) (c.setVariable counter (.integer first))
        (fun fuel => stepCounter counter (.integer step) line >>= fun _ =>
          passesAfter counter last step body line (n + 1) fuel) c₂ := by
  have hvalue := valueOf_setVariable c₁ counter (.integer i)
  have hlimits : (c₁.setVariable counter (.integer i)).limits = c.limits := h.limits
  have hpast : NotPast last.toInt step.toInt i.toInt := by
    rw [h.value]
    exact (lt_passCount_iff (mt toInt_eq_zero_iff.1 hstep) n).1 hn
  obtain ⟨c₂, hrun, hkept⟩ := hbody _ hlimits
  refine ⟨c₂, ?_, (limits_of_block hrun).trans hlimits, hkept.trans hvalue, ?_⟩
  · rw [progression_succ, ← h.value]
    exact h.runs.snoc hrun
  · exact h.rest.trans (sameOutcomes_pass hvalue hpast (hlimits ▸ hlimit) hrun)

/-- The loop makes as many passes as it is allowed to, as long as the counter stays in range. -/
theorem exists_passed (line : Nat) (hstep : step ≠ 0) (hbody : GoesOn σ c.limits counter body) (n : Nat)
    (hn : n ≤ passCount first.toInt last.toInt step.toInt)
    (hrange : InRange (first.toInt + n * step.toInt))
    (hlimit : ∀ limit, c.limits.loopPasses = some limit → n ≤ limit.toNat) :
    ∃ c₁ i, Passed counter first last step body line c n c₁ i := by
  induction n with
  | zero => exact ⟨c, first, passed_zero c⟩
  | succ n ih =>
    have hpast := (lt_passCount_iff (mt toInt_eq_zero_iff.1 hstep) n).1 hn
    have hrange' := hpast.inRange (inRange_toInt first) (inRange_toInt last)
    obtain ⟨c₁, i, h⟩ := ih (by omega) hrange' fun limit hl => Nat.le_of_succ_le (hlimit limit hl)
    obtain ⟨c₂, hruns, hlimits, hvalue, hrest⟩ := h.exists_pass hstep hbody hn hlimit
    obtain ⟨j, hj⟩ := inRange_iff_exists.1 hrange
    have hnext : j.toInt = i.toInt + step.toInt := by
      rw [hj, h.value, Int.natCast_succ, Int.add_mul, Int.one_mul, Int.add_assoc]
    refine ⟨c₂, j, hruns, hj, hlimits, hrest.trans ?_⟩
    refine sameOutcomes_of_eq fun fuel => ?_
    exact bind_of_ok (stepCounter_of_inRange hvalue hnext)

/-- A loop without a limit to stop it makes all of its passes, and ends as the counter has gone past
the last value, or as the next value of the counter is out of range. -/
theorem passes_to_end (line : Nat) (hstep : step ≠ 0) (hbody : GoesOn σ c.limits counter body)
    (hlimit : ∀ limit, c.limits.loopPasses = some limit →
      passCount first.toInt last.toInt step.toInt ≤ limit.toNat) :
    ∃ c₁, BodyRuns counter body
        (progression first.toInt step.toInt (passCount first.toInt last.toInt step.toInt)) c c₁ ∧
      (∀ i : Int64,
        i.toInt = first.toInt + passCount first.toInt last.toInt step.toInt * step.toInt →
        Returns (passesAfter counter last step body line 0)
          (c.setVariable counter (.integer first)) .next (c₁.setVariable counter (.integer i))) ∧
      (¬ InRange (first.toInt + passCount first.toInt last.toInt step.toInt * step.toInt) →
        Fails (passesAfter counter last step body line 0)
          (c.setVariable counter (.integer first)) ⟨.overflow, line⟩ c₁) := by
  have hcount : ∀ n : Nat, n < passCount first.toInt last.toInt step.toInt ↔
      NotPast last.toInt step.toInt (first.toInt + n * step.toInt) :=
    lt_passCount_iff (mt toInt_eq_zero_iff.1 hstep)
  generalize hN : passCount first.toInt last.toInt step.toInt = N at hlimit hcount
  by_cases hrange : InRange (first.toInt + N * step.toInt)
  · obtain ⟨c₁, i, h⟩ := exists_passed line hstep hbody N hN.ge hrange hlimit
    refine ⟨c₁, h.runs, fun j hj => ?_, fun hover => absurd hrange hover⟩
    obtain rfl : i = j := Int64.toInt_inj.1 (h.value.trans hj.symm)
    refine (h.rest.returns _ _).2 (passesAfter_of_past (valueOf_setVariable c₁ counter _) ?_)
    rw [h.value, ← hcount]
    exact lt_irrefl N
  · -- the counter begins in range, so there is a last pass
    obtain ⟨n, rfl⟩ : ∃ n, N = n + 1 := by
      refine Nat.exists_eq_succ_of_ne_zero ?_
      rintro rfl
      simp [inRange_toInt] at hrange
    have hpast := (hcount n).1 (Nat.lt_succ_self n)
    obtain ⟨c₁, i, h⟩ := exists_passed line hstep hbody n (Nat.le_of_succ_le hN.ge)
      (hpast.inRange (inRange_toInt first) (inRange_toInt last))
      fun limit hl => Nat.le_of_succ_le (hlimit limit hl)
    obtain ⟨c₂, hruns, -, hvalue, hrest⟩ := h.exists_pass hstep hbody (Nat.le_of_eq hN.symm) hlimit
    have hnext : i.toInt + step.toInt = first.toInt + (n + 1 : Nat) * step.toInt := by
      rw [h.value, Int.natCast_succ, Int.add_mul, Int.one_mul, Int.add_assoc]
    refine ⟨c₂, hruns, fun j hj => absurd (inRange_iff_exists.2 ⟨j, hj⟩) hrange, fun _ => ?_⟩
    refine (hrest.fails _ _).2 ⟨0, bind_of_error ?_⟩
    exact stepCounter_of_not_inRange hvalue (hnext ▸ hrange)

/-- A loop with more passes than its limit makes as many as are allowed, and fails. -/
theorem passes_to_limit {limit : UInt64} (line : Nat) (hstep : step ≠ 0)
    (hbody : GoesOn σ c.limits counter body) (hlimit : c.limits.loopPasses = some limit)
    (hlt : limit.toNat < passCount first.toInt last.toInt step.toInt)
    (hmax : limit.toNat < 2 ^ 64 - 1) :
    ∃ c₁ i, BodyRuns counter body (progression first.toInt step.toInt limit.toNat) c c₁ ∧
      i.toInt = first.toInt + limit.toNat * step.toInt ∧
      Fails (passesAfter counter last step body line 0)
        (c.setVariable counter (.integer first)) ⟨.loopLimit limit, line⟩
        (c₁.setVariable counter (.integer i)) := by
  have hpast := (lt_passCount_iff (mt toInt_eq_zero_iff.1 hstep) limit.toNat).1 hlt
  have hallowed : ∀ limit', c.limits.loopPasses = some limit' → limit.toNat ≤ limit'.toNat := by
    intro limit' hl
    rw [Option.some.inj (hlimit.symm.trans hl)]
  obtain ⟨c₁, i, h⟩ := exists_passed line hstep hbody limit.toNat hlt.le
    (hpast.inRange (inRange_toInt first) (inRange_toInt last)) hallowed
  refine ⟨c₁, i, h.runs, h.value, (h.rest.fails _ _).2 ?_⟩
  refine passesAfter_of_limit (valueOf_setVariable c₁ counter _) ?_ ?_ hmax
  · rwa [h.value]
  · exact (congrArg Limits.loopPasses h.limits).trans hlimit

/-- Behind its header an integer loop makes its passes. -/
theorem sameOutcomes_passesAfter (body : List Statement) {first' last' : Expr} {step' : Option Expr} {c₀ : Context σ}
    (hstep : step ≠ 0)
    (h : Returns (evalHeader · counter first' last' step' line) c
      (.integer first, .integer last, .integer step) c₀) :
    SameOutcomes (exec · (.for_ counter first' last' step' body line)) c
      (passesAfter counter last step body line 0) (c₀.setVariable counter (.integer first)) := by
  have hup : ascending (.integer step) = .ok !(Number.integer step).isNegative := by
    rw [ascending_eq]
    simp [Number.isNaN, Number.isZero, hstep]
  have hstart : c₀.setVariable counter (.integer first) = c₀ := (context_of_header h).2
  rw [hstart]
  refine (sameOutcomes_of_header h).trans (sameOutcomes_of_eq fun fuel => ?_)
  rw [hup]
  rfl

end

/-- **How many passes an integer loop makes.**  Once the header has come to the integers `a`, `b` and
`k`, let there be `N` passes from `a` to `b` in steps of `k`.  If the limit allows that many, the body
runs `N` times, with `a`, `a + k`, ... as the counter; then the loop is left with the counter at
`a + N * k`, or fails as this is out of range.  If the limit allows only `L` passes, the body runs `L`
times, and the loop fails.  The body has to go on from every context with the same limits, and to leave
the counter as it is. -/
theorem integer_loop_pass_count {counter : String} {first last : Expr} {step : Option Expr}
    {body : List Statement} {line : Nat} {c c₀ : Context σ} {a b k : Int64} (hk : k ≠ 0)
    (h : Returns (evalHeader · counter first last step line) c
      (.integer a, .integer b, .integer k) c₀)
    (hbody : GoesOn σ c.limits counter body) :
    let N := passCount a.toInt b.toInt k.toInt
    ((∀ L, c.limits.loopPasses = some L → N ≤ L.toNat) →
      ∃ c₁, BodyRuns counter body (progression a.toInt k.toInt N) c₀ c₁ ∧
        (∀ i : Int64, i.toInt = a.toInt + N * k.toInt →
          Returns (exec · (.for_ counter first last step body line)) c .next
            (c₁.setVariable counter (.integer i))) ∧
        (¬ InRange (a.toInt + N * k.toInt) →
          Fails (exec · (.for_ counter first last step body line)) c ⟨.overflow, line⟩ c₁)) ∧
    ∀ L, c.limits.loopPasses = some L → L.toNat < N → L.toNat < 2 ^ 64 - 1 →
      ∃ c₁ i, BodyRuns counter body (progression a.toInt k.toInt L.toNat) c₀ c₁ ∧
        i.toInt = a.toInt + L.toNat * k.toInt ∧
        Fails (exec · (.for_ counter first last step body line)) c ⟨.loopLimit L, line⟩
          (c₁.setVariable counter (.integer i)) := by
  intro N
  have hrest := sameOutcomes_passesAfter body hk h
  have hlimits := (context_of_header h).1
  rw [← hlimits] at hbody ⊢
  constructor
  · intro hlimit
    obtain ⟨c₁, hruns, hend, hover⟩ := passes_to_end line hk hbody hlimit
    exact ⟨c₁, hruns, fun i hi => (hrest.returns _ _).2 (hend i hi),
      fun hrange => (hrest.fails _ _).2 (hover hrange)⟩
  · intro L hlimit hlt hmax
    obtain ⟨c₁, i, hruns, hi, hfails⟩ := passes_to_limit line hk hbody hlimit hlt hmax
    exact ⟨c₁, i, hruns, hi, (hrest.fails _ _).2 hfails⟩

theorem goesOn_print (limits : Limits) (counter : String) (line : Nat) :
    GoesOn σ limits counter [.print [.name counter line] line] := by
  intro c _
  refine ⟨c.emit (.print (c.render (c.valueOf counter))), ⟨4, ?_⟩, rfl⟩
  simp only [block_cons, block_nil, andThen_pure_next, exec, renderAll, eval]
  rfl

/-- Two passes end next to the greatest integer, so the counter cannot be stepped once more. -/
theorem two_passes_then_overflow :
    let a : Int64 := 9223372036854775800
    let b : Int64 := 9223372036854775807
    let header fuel := evalHeader fuel "I" (.literal (.integer a) 1) (.literal (.integer b) 1)
      (some (.literal (.integer 5) 1)) 1
    let loop : Statement := .for_ "I" (.literal (.integer a) 1) (.literal (.integer b) 1)
      (some (.literal (.integer 5) 1)) [.print [.name "I" 1] 1] 1
    let c : Context Unit := .new { loopPasses := some 2 } ()
    let c₀ := c.setVariable "I" (.integer a)
    Returns header c (.integer a, .integer b, .integer 5) c₀ ∧
      passCount a.toInt b.toInt 5 = 2 ∧
      (∃ c₁, BodyRuns "I" [.print [.name "I" 1] 1] [9223372036854775800, 9223372036854775805] c₀ c₁ ∧
        Fails (exec · loop) c ⟨.overflow, 1⟩ c₁) ∧
      (after (exec 20 loop) c).trace =
        [.print "9223372036854775800", .print "9223372036854775805"] := by
  intro a b header loop c c₀
  have hheader : Returns header c (.integer a, .integer b, .integer 5) c₀ := by
    refine ⟨2, ?_⟩
    simp only [header, evalHeader, evalStep, evalNumber, eval]
    rfl
  have hcount : passCount a.toInt b.toInt (5 : Int64).toInt = 2 := by decide +kernel
  have h := integer_loop_pass_count (by decide) hheader (goesOn_print c.limits "I" 1)
  obtain ⟨c₁, hruns, -, hover⟩ := h.1 fun L hL => by
    cases hL
    exact hcount.le
  rw [hcount] at hruns hover
  exact ⟨hheader, hcount, ⟨c₁, hruns, hover (by decide +kernel)⟩, by unfold loop c; decide +kernel⟩

end Machine

end BasicScript
