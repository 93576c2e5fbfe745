/-
  A counting loop is a `WHILE` loop.

  * `SameOutcomes m c m' c'`: from `c` the one run comes to the same results and errors as the other
    from `c'`, in the same contexts.
  * `andThen`: one run after another; `block_append_refines`, `refines_block_append`: so do the two
    parts of a list of statements run.
  * `evalHeader`: the header of a counting loop; `sameOutcomes_of_header`: what is left to do once it
    has come to its numbers.
  * `countingWhile`: the `WHILE` loop that steps the counter at the end of its body;
    `forLoop_refines`, `refines_forLoop`: each of the two loops does what the other one does.
  * `counting_loop_is_while`: behind its header a counting loop is this `WHILE` loop; a step that is
    zero or not a number is refused.
-/
import BasicScript.Proofs.Machine.Fuel
import BasicScript.Proofs.Value.Numbers

namespace BasicScript

namespace Number

/-- The number as a constant of a source text. -/
def toLiteral : Number → Literal
  | integer n => .integer n
  | real x => .real x

theorem toValue_toLiteral (n : Number) : n.toLiteral.toValue = n.toValue := by
  cases n <;> rfl

end Number

namespace Machine

variable {σ α β : Type}

/-! ## Runs that come to the same -/

/-- With enough fuel the two runs give the same results and the same errors, and leave the same
contexts; so if one of them never ends, the other does not either. -/
structure SameOutcomes (m : Nat → Machine σ α) (c : Context σ) (m' : Nat → Machine σ α)
    (c' : Context σ) : Prop where
  returns : ∀ a d, Returns m c a d ↔ Returns m' c' a d
  fails : ∀ e d, Fails m c e d ↔ Fails m' c' e d

section
variable {m m' m'' : Nat → Machine σ α} {f : Nat → α → Machine σ β} {c c' c'' c₁ : Context σ} {a : α}

theorem SameOutcomes.refl (m : Nat → Machine σ α) (c : Context σ) : SameOutcomes m c m c :=
  ⟨fun _ _ => .rfl, fun _ _ => .rfl⟩

theorem SameOutcomes.symm (h : SameOutcomes m c m' c') : SameOutcomes m' c' m c :=
  ⟨fun a d => (h.returns a d).symm, fun e d => (h.fails e d).symm⟩

theorem SameOutcomes.trans (h : SameOutcomes m c m' c') (h' : SameOutcomes m' c' m'' c'') :
    SameOutcomes m c m'' c'' :=
  ⟨fun a d => (h.returns a d).trans (h'.returns a d),
    fun e d => (h.fails e d).trans (h'.fails e d)⟩

theorem sameOutcomes_of_eq (h : ∀ n, m n c = m' n c') : SameOutcomes m c m' c' := by
  constructor <;> intros <;> simp only [Returns, Fails, h]

theorem sameOutcomes_succ (h : ∀ c, m 0 c = .error .outOfFuel c) (c : Context σ) :
    SameOutcomes m c (fun n => m (n + 1)) c :=
  ⟨fun _ _ => returns_succ h, fun _ _ => fails_succ h⟩

/-- A run that gives a result does not fail. -/
theorem Returns.not_fails {e : RuntimeError} (hm : Steady m) (h : Returns m c a c')
    (h' : Fails m c e c'') : False := by
  obtain ⟨n, hn⟩ := h
  obtain ⟨n', hn'⟩ := h'
  have hmax := hm.ok_of_le (Nat.le_max_left n n') hn
  rw [hm.error_of_le (Nat.le_max_right n n') hn'] at hmax
  cases hmax

/-- Behind a run that gives a result, the rest decides. -/
theorem SameOutcomes.of_returns (hm : Steady m) (hf : ∀ a, Steady (f · a)) (h : Returns m c a c₁) :
    SameOutcomes (fun n => m n >>= f n) c (f · a) c₁ := by
  refine ⟨fun b d => ?_, fun e d => ?_⟩
  · rw [returns_bind hm hf]
    constructor
    · rintro ⟨a', c', ha', hb⟩
      obtain ⟨rfl, rfl⟩ := h.unique hm ha'
      exact hb
    · exact fun hb => ⟨a, c₁, h, hb⟩
  · rw [fails_bind hm hf]
    constructor
    · rintro (he | ⟨a', c', ha', he⟩)
      · exact (h.not_fails hm he).elim
      · obtain ⟨rfl, rfl⟩ := h.unique hm ha'
        exact he
    · exact fun he => .inr ⟨a, c₁, h, he⟩

/-- Two runs come to the same if each of them, with any fuel, does what the other one does with
some fuel. -/
theorem sameOutcomes_of_refines (h : ∀ n, ∃ n', Refines (m n) (m' n'))
    (h' : ∀ n, ∃ n', Refines (m' n) (m n')) (c : Context σ) : SameOutcomes m c m' c := by
  have transfer : ∀ {m m' : Nat → Machine σ α}, (∀ n, ∃ n', Refines (m n) (m' n')) →
      ∀ r, (∀ d, r ≠ .error .outOfFuel d) → (∃ n, m n c = r) → ∃ n, m' n c = r := by
    rintro m m' h r hr ⟨n, hn⟩
    obtain ⟨n', hn'⟩ := h n
    rcases hn' c with ⟨d, hout⟩ | heq
    · exact absurd (hn.symm.trans hout) (hr d)
    · exact ⟨n', heq.trans hn⟩
  exact ⟨fun a d => ⟨transfer h _ nofun, transfer h' _ nofun⟩,
    fun e d => ⟨transfer h _ nofun, transfer h' _ nofun⟩⟩

end

/-! ## One run after another -/

/-- Goes on to the second run if the first one goes on. -/
def andThen (m m' : Machine σ Flow) : Machine σ Flow := do
  match ← m with
  | .next => m'
  | flow => pure flow

theorem andThen_assoc (m m' m'' : Machine σ Flow) :
    andThen (andThen m m') m'' = andThen m (andThen m' m'') := by
  funext c
  simp only [andThen, bind, EStateM.bind]
  cases m c with
  | ok flow c₁ => cases flow <;> rfl
  | error e c₁ => rfl

theorem bind_next_andThen (m : Machine σ α) (m' : Machine σ Flow) :
    andThen (m >>= fun _ => pure .next) m' = m >>= fun _ => m' := by
  funext c
  simp only [andThen, bind, EStateM.bind]
  cases m c <;> rfl

theorem andThen_pure_next (m : Machine σ Flow) : andThen m (pure .next) = m := by
  funext c
  simp only [andThen, bind, EStateM.bind]
  cases m c with
  | ok flow c₁ => cases flow <;> rfl
  | error e c₁ => rfl

theorem Refines.andThen {m₁ m₁' m₂ m₂' : Machine σ Flow} (h₁ : Refines m₁ m₁')
    (h₂ : Refines m₂ m₂') : Refines (andThen m₁ m₂) (andThen m₁' m₂') := by
  refine h₁.bind fun flow => ?_
  cases flow with
  | next => exact h₂
  | _ => exact .refl _

/-- Behind a run that goes on, the second run decides. -/
theorem sameOutcomes_andThen {m m' : Nat → Machine σ Flow} {c c₁ : Context σ} (hm : Steady m)
    (hm' : Steady m') (h : Returns m c .next c₁) :
    SameOutcomes (fun n => andThen (m n) (m' n)) c m' c₁ := by
  refine SameOutcomes.of_returns hm (fun flow => ?_) h
  cases flow with
  | next => exact hm'
  | _ => exact steady_const _

theorem block_zero (ss : List Statement) : block (σ := σ) 0 ss = throw .outOfFuel := by
  rw [block]

theorem block_nil (fuel : Nat) : block (σ := σ) (fuel + 1) [] = pure .next := by
  rw [block]

theorem block_cons (fuel : Nat) (s : Statement) (ss : List Statement) :
    block (σ := σ) (fuel + 1) (s :: ss) = andThen (exec fuel s) (block fuel ss) := by
  rw [block]
  rfl

theorem steady_block (ss : List Statement) : Steady (σ := σ) (block · ss) :=
  fun fuel => (runs_refine fuel).block ss

theorem steady_exec (s : Statement) : Steady (σ := σ) (exec · s) :=
  fun fuel => (runs_refine fuel).exec s

/-- The two parts of a list of statements one after the other. -/
theorem block_append_refines (n k : Nat) (ss ss' : List Statement) :
    Refines (σ := σ) (andThen (block n ss) (block k ss')) (block (n + k) (ss ++ ss')) := by
  induction ss generalizing n with
  | nil =>
    cases n with
    | zero =>
      rw [block_zero]
      exact refines_outOfFuel _
    | succ n =>
      rw [block_nil]
      exact (steady_block ss').of_le (by omega)
  | cons s ss ih =>
    cases n with
    | zero =>
      rw [block_zero]
      exact refines_outOfFuel _
    | succ n =>
      rw [List.cons_append, Nat.succ_add, block_cons, block_cons, andThen_assoc]
      exact Refines.andThen ((steady_exec s).of_le (by omega)) (ih n)

theorem refines_block_append (n : Nat) (ss ss' : List Statement) :
    Refines (σ := σ) (block n (ss ++ ss')) (andThen (block n ss) (block n ss')) := by
  induction ss generalizing n with
  | nil =>
    cases n with
    | zero =>
      rw [block_zero]
      exact refines_outOfFuel _
    | succ n =>
      rw [block_nil]
      exact .refl _
  | cons s ss ih =>
    cases n with
    | zero =>
      rw [block_zero]
      exact refines_outOfFuel _
    | succ n =>
      rw [List.cons_append, block_cons, block_cons, andThen_assoc]
      refine Refines.andThen (.refl _) ((ih n).trans ?_)
      exact Refines.andThen (.refl _) (steady_block ss' n)

/-! ## The header of a counting loop -/

theorem steady_evalNumber (e : Expr) (line : Nat) : Steady (σ := σ) (evalNumber · e line) :=
  fun fuel => (runs_refine fuel).evalNumber e line

theorem steady_forLoop (counter : String) (last step : Value) (up : Bool) (body : List Statement)
    (line : Nat) (passes : UInt64) :
    Steady (σ := σ) (forLoop · counter last step up body line passes) :=
  fun fuel => (runs_refine fuel).forLoop counter last step up body line passes

/-- The step of a counting loop, one if none is given. -/
def evalStep (fuel : Nat) (step : Option Expr) (line : Nat) : Machine σ Number :=
  match step with
  | some e => evalNumber fuel e line
  | none => pure (.integer 1)

theorem steady_evalStep (step : Option Expr) (line : Nat) :
    Steady (σ := σ) (evalStep · step line) := by
  cases step with
  | some e => exact steady_evalNumber e line
  | none => exact steady_const _

/-- Evaluates the header of a counting loop to the first and the last value and the step.  The
counter is set to the first value before the other two are evaluated. -/
def evalHeader (fuel : Nat) (counter : String) (first last : Expr) (step : Option Expr)
    (line : Nat) : Machine σ (Number × Number × Number) := do
  let a ← evalNumber fuel first line
  modify (·.setVariable counter a.toValue)
  let b ← evalNumber fuel last line
  let k ← evalStep fuel step line
  pure (a, b, k)

section
variable {counter : String} {first last : Expr} {step : Option Expr} {body : List Statement}
  {line : Nat} {c c₀ : Context σ} {a b k : Number}

theorem steady_evalHeader (counter : String) (first last : Expr) (step : Option Expr) (line : Nat) :
    Steady (σ := σ) (evalHeader · counter first last step line) := by
  refine (steady_evalNumber first line).bind fun a => ?_
  refine (steady_const _).bind fun _ => ?_
  refine (steady_evalNumber last line).bind fun b => ?_
  exact (steady_evalStep step line).bind fun k => steady_const _

theorem exec_for (fuel : Nat) : exec (σ := σ) (fuel + 1) (.for_ counter first last step body line) =
    evalHeader fuel counter first last step line >>= fun numbers =>
      onLine line (ascending numbers.2.2) >>= fun up =>
        forLoop fuel counter numbers.2.1.toValue numbers.2.2.toValue up body line 0 := by
  simp only [evalHeader, bind_assoc, pure_bind]
  cases step <;> simp only [exec] <;> rfl

/-- Behind the header the step is checked, and the passes begin. -/
theorem sameOutcomes_of_header
    (h : Returns (evalHeader · counter first last step line) c (a, b, k) c₀) :
    SameOutcomes (exec · (.for_ counter first last step body line)) c
      (fun n => onLine line (ascending k) >>= fun up =>
        forLoop n counter b.toValue k.toValue up body line 0) c₀ := by
  have steady_passes : ∀ numbers : Number × Number × Number, Steady (σ := σ) fun n =>
      onLine line (ascending numbers.2.2) >>= fun up =>
        forLoop n counter numbers.2.1.toValue numbers.2.2.toValue up body line 0 := fun _ =>
    (steady_const _).bind fun up => steady_forLoop counter _ _ up body line 0
  refine (sameOutcomes_succ (exec_zero _) c).trans ?_
  simp only [exec_for]
  exact .of_returns (steady_evalHeader counter first last step line) steady_passes h

theorem ascending_eq (k : Number) :
    ascending k = if k.isNaN || k.isZero then .error .zeroStep else .ok !k.isNegative := by
  cases k with
  | integer n =>
    by_cases hn : n = 0
    · simp [ascending, Number.isZero, hn]
    · have hsign : decide (0 < n) = !decide (n < 0) := by
        have hn' : n.toInt ≠ (0 : Int64).toInt := mt Int64.toInt_inj.1 hn
        simp only [Int64.lt_iff_toInt_lt, ← decide_not, decide_eq_decide]
        omega
      simp only [ascending, Number.isZero, Number.isNaN, Number.isNegative, if_neg hn, hsign]
      simp [hn]
  | real x => rfl

end

/-! ## The passes of both loops -/

theorem onLine_map (line : Nat) (r : Except Fault α) (f : α → β) :
    onLine (σ := σ) line (r.map f) = onLine line r >>= fun a => pure (f a) := by
  cases r <;> rfl

section
variable (counter : String) (last step : Number) (body : List Statement) (line : Nat)

/-- The condition on which a counting loop makes another pass. -/
def inReach : Expr :=
  .binary (if step.isNegative then .greaterEqual else .lessEqual) (.name counter line)
    (.literal last.toLiteral line) line

/-- The statement that steps the counter. -/
def increment : Statement :=
  .assign counter [] (.binary .add (.name counter line) (.literal step.toLiteral line) line) line

/-- The `WHILE` loop that a counting loop is behind its header. -/
def countingWhile : Statement :=
  .while_ (inReach counter last step line) (body ++ [increment counter step line]) line

/-- Whether the counter is in reach of the last value. -/
def testCounter : Machine σ Bool := do
  onLine line (counts (!step.isNegative) (← readVariable counter) last.toValue)

/-- Steps the counter. -/
def stepCounter : Machine σ Unit := do
  let next ← onLine line (Value.arithmetic .add (← readVariable counter) step.toValue)
  modify (·.setVariable counter next)

theorem forLoop_succ (fuel : Nat) (passes : UInt64) :
    forLoop (σ := σ) (fuel + 1) counter last.toValue step.toValue (!step.isNegative) body line passes =
      testCounter counter last step line >>= fun go =>
        if go then countPass passes line >>= fun passes =>
          andThen (block fuel body) (stepCounter counter step line >>= fun _ =>
            forLoop fuel counter last.toValue step.toValue (!step.isNegative) body line passes)
        else pure .next := by
  rw [forLoop.eq_def]
  simp only [testCounter, stepCounter, bind_assoc]
  rfl

theorem whileLoop_succ (fuel : Nat) (condition : Expr) (passes : UInt64) :
    whileLoop (σ := σ) (fuel + 1) condition body line passes =
      (eval fuel condition >>= fun v => pure v.truthy) >>= fun go =>
        if go then countPass passes line >>= fun passes =>
          andThen (block fuel body) (whileLoop fuel condition body line passes)
        else pure .next := by
  rw [whileLoop.eq_def, bind_assoc]
  simp only [pure_bind]
  rfl

theorem eval_inReach (fuel : Nat) :
    (eval (σ := σ) (fuel + 2) (inReach counter last step line) >>= fun v => pure v.truthy) =
      testCounter counter last step line := by
  have hbinary : ∀ v : Value, Value.binary (if step.isNegative then .greaterEqual else .lessEqual) v
      last.toValue = Value.comparison (if !step.isNegative then .lessEqual else .greaterEqual) v
        last.toValue := by
    intro v
    cases step.isNegative <;> rfl
  simp only [inReach, eval, Number.toValue_toLiteral, pure_bind, bind_assoc, hbinary, testCounter,
    counts, onLine_map]

theorem block_increment (fuel : Nat) :
    block (σ := σ) (fuel + 4) [increment counter step line] =
      stepCounter counter step line >>= fun _ => pure .next := by
  simp only [increment, block_cons, block_nil, exec, evalKeys, eval, Number.toValue_toLiteral,
    pure_bind, bind_assoc, store, stepCounter, andThen_pure_next]
  rfl

/-- The counting loop does what the `WHILE` loop does.  That takes four more units of fuel: its
condition is an expression, and its body ends in another statement. -/
theorem forLoop_refines (fuel : Nat) (passes : UInt64) :
    Refines (σ := σ)
      (forLoop fuel counter last.toValue step.toValue (!step.isNegative) body line passes)
      (whileLoop (fuel + 4) (inReach counter last step line) (body ++ [increment counter step line])
        line passes) := by
  induction fuel generalizing passes with
  | zero =>
    rw [forLoop.eq_def]
    exact refines_outOfFuel _
  | succ fuel ih =>
    rw [forLoop_succ, Nat.succ_add, whileLoop_succ, eval_inReach]
    refine (Refines.refl _).bind fun go => ?_
    split
    · refine (Refines.refl _).bind fun passes => ?_
      rw [← bind_next_andThen, ← block_increment counter step line 0, ← andThen_assoc]
      exact Refines.andThen (block_append_refines fuel 4 body _) (ih passes)
    · exact .refl _

/-- The `WHILE` loop does what the counting loop does. -/
theorem refines_forLoop (fuel : Nat) (passes : UInt64) :
    Refines (σ := σ)
      (whileLoop fuel (inReach counter last step line) (body ++ [increment counter step line]) line
        passes)
      (forLoop fuel counter last.toValue step.toValue (!step.isNegative) body line passes) := by
  induction fuel generalizing passes with
  | zero =>
    rw [whileLoop.eq_def]
    exact refines_outOfFuel _
  | succ fuel ih =>
    rw [forLoop_succ, whileLoop_succ, ← eval_inReach counter last step line fuel]
    refine Refines.bind ?_ fun go => ?_
    · exact ((steady_eval _).of_le (by omega)).bind fun v => .refl _
    split
    · refine (Refines.refl _).bind fun passes => ?_
      rw [← bind_next_andThen, ← block_increment counter step line fuel, ← andThen_assoc]
      refine Refines.andThen ((refines_block_append fuel body _).trans ?_) (ih passes)
      exact Refines.andThen (.refl _) ((steady_block _).of_le (by omega))
    · exact .refl _

/-- The passes of both loops come to the same. -/
theorem sameOutcomes_while (c : Context σ) :
    SameOutcomes
      (forLoop · counter last.toValue step.toValue (!step.isNegative) body line 0) c
      (exec · (countingWhile counter last step body line)) c := by
  have hsucc : SameOutcomes (exec · (countingWhile counter last step body line)) c
      (fun n => exec (n + 1) (countingWhile counter last step body line)) c :=
    sameOutcomes_succ (exec_zero _) c
  refine SameOutcomes.trans ?_ hsucc.symm
  simp only [countingWhile, exec]
  exact sameOutcomes_of_refines (fun n => ⟨_, forLoop_refines counter last step body line n 0⟩)
    (fun n => ⟨_, refines_forLoop counter last step body line n 0⟩) c

end

/-- **A counting loop is a `WHILE` loop behind its header.**  Once the header has come to the numbers
`a`, `b` and `k`, all that is left to do is the `WHILE` loop that counts up to `b`, or down to it for
a negative step, and adds `k` to the counter at the end of its body.  A step that is zero or not a
number is an error instead. -/
theorem counting_loop_is_while {counter : String} {first last : Expr} {step : Option Expr}
    {line : Nat} {c c₀ : Context σ} {a b k : Number} (body : List Statement)
    (h : Returns (evalHeader · counter first last step line) c (a, b, k) c₀) :
    (k.isNaN = false → k.isZero = false →
      SameOutcomes (exec · (.for_ counter first last step body line)) c
        (exec · (countingWhile counter b k body line)) c₀) ∧
    (k.isNaN = true ∨ k.isZero = true →
      SameOutcomes (exec · (.for_ counter first last step body line)) c
        (fun _ => raise .zeroStep line) c₀) := by
  refine ⟨fun hnan hzero => (sameOutcomes_of_header h).trans ?_,
    fun hbad => (sameOutcomes_of_header h).trans ?_⟩
  · have hup : ascending k = .ok !k.isNegative := by rw [ascending_eq, hnan, hzero]; rfl
    rw [hup]
    exact sameOutcomes_while counter b k body line c₀
  · have hzero : ascending k = .error .zeroStep := by
      rw [ascending_eq, if_pos (by simpa using hbad)]
    rw [hzero]
    exact .refl _ _

/-- A loop that counts down and whose body sets the counter as well; with a step of zero it is
refused. -/
theorem counting_down_is_while :
    let body : List Statement := [.print [.name "I" 1] 1,
      .assign "I" [] (.binary .sub (.name "I" 1) (.literal (.integer 1) 1) 1) 1]
    let first : Expr := .literal (.integer 10) 1
    let last : Expr := .literal (.integer 1) 1
    let step (k : Int64) : Option Expr := some (.literal (.integer k) 1)
    let c : Context Unit := .new {} ()
    let c₀ := c.setVariable "I" (.integer 10)
    (∀ k, Returns (evalHeader · "I" first last (step k) 1) c
      (.integer 10, .integer 1, .integer k) c₀) ∧
    SameOutcomes (exec · (.for_ "I" first last (step (-4)) body 1)) c
      (exec · (countingWhile "I" (.integer 1) (.integer (-4)) body 1)) c₀ ∧
    (after (exec 20 (.for_ "I" first last (step (-4)) body 1)) c).trace = [.print "10", .print "5"] ∧
    SameOutcomes (exec · (.for_ "I" first last (step 0) body 1)) c
      (fun _ => raise .zeroStep 1) c₀ := by
  intro body first last step c c₀
  have hheader : ∀ k, Returns (evalHeader · "I" first last (step k) 1) c
      (.integer 10, .integer 1, .integer k) c₀ := by
    intro k
    refine ⟨2, ?_⟩
    simp only [evalHeader, evalStep, evalNumber, eval, first, last, step]
    rfl
  refine ⟨hheader, ?_, by unfold body first last step c; decide +kernel, ?_⟩
  · exact (counting_loop_is_while body (hheader (-4))).1 rfl rfl
  · exact (counting_loop_is_while body (hheader 0)).2 (.inr rfl)

end Machine

end BasicScript
