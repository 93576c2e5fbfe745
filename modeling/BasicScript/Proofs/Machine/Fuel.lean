/-
  What a run comes to does not depend on its fuel.

  * `Refines m m'`: wherever `m` does not run out of fuel, `m'` does the same.
  * `RunsRefine fuel`: one more unit of fuel refines every run (`runs_refine`, by induction on the
    fuel, one lemma a function).
  * `Returns m c a c'`, `Fails m c e c'`: with enough fuel the run gives a result, or an error, and
    leaves the context `c'`.
  * `Returns.unique`: there is one such result.
  * `returns_bind`, `fails_bind`: runs in sequence, for runs that are `Steady`: more fuel does not
    change what they come to.
-/
import BasicScript.Machine.Execute
import BasicScript.Proofs.Machine.Steps

namespace BasicScript

namespace Machine

variable {σ α β : Type}

/-- Wherever the first step does not run out of fuel, the second one does the same. -/
def Refines (m m' : Machine σ α) : Prop :=
  ∀ c, (∃ c', m c = .error .outOfFuel c') ∨ m' c = m c

theorem Refines.refl (m : Machine σ α) : Refines m m := fun _ => .inr rfl

theorem Refines.trans {m m' m'' : Machine σ α} (h : Refines m m') (h' : Refines m' m'') :
    Refines m m'' := by
  intro c
  rcases h c with hout | heq
  · exact .inl hout
  · rw [← heq]
    exact h' c

theorem refines_outOfFuel (m : Machine σ α) : Refines (throw .outOfFuel) m :=
  fun c => .inl ⟨c, rfl⟩

theorem Refines.bind {m m' : Machine σ α} {f f' : α → Machine σ β} (hm : Refines m m')
    (hf : ∀ a, Refines (f a) (f' a)) : Refines (m >>= f) (m' >>= f') := by
  intro c
  rcases hm c with ⟨c', hout⟩ | heq
  · exact .inl ⟨c', bind_of_error hout⟩
  · cases hctx : m c with
    | ok a c₁ =>
      rw [bind_of_ok hctx, bind_of_ok (heq.trans hctx)]
      exact hf a c₁
    | error e c₁ =>
      rw [bind_of_error hctx, bind_of_error (heq.trans hctx)]
      exact .inr rfl

theorem Refines.inCall {body body' : Machine σ Flow} (h : Refines body body') (frame : Frame)
    (line : Nat) : Refines (inCall frame line body) (inCall frame line body') := by
  intro c
  rcases Nat.lt_or_ge c.callDepth c.limits.callDepth with hd | hd
  · rw [inCall_of_lt hd, inCall_of_lt hd]
    rcases h (c.enter frame) with ⟨c', hout⟩ | heq
    · rw [hout]
      exact .inl ⟨c'.leave, rfl⟩
    · rw [heq]
      exact .inr rfl
  · rw [inCall_of_le hd, inCall_of_le hd]
    exact .inr rfl

/-! ## One more unit of fuel -/

/-- One more unit of fuel refines every run with this fuel. -/
structure RunsRefine (σ : Type) (fuel : Nat) : Prop where
  eval : ∀ e, Refines (eval (σ := σ) fuel e) (eval (fuel + 1) e)
  evalAll : ∀ es, Refines (evalAll (σ := σ) fuel es) (evalAll (fuel + 1) es)
  evalKeys : ∀ es line, Refines (evalKeys (σ := σ) fuel es line) (evalKeys (fuel + 1) es line)
  evalNumber : ∀ e line, Refines (evalNumber (σ := σ) fuel e line) (evalNumber (fuel + 1) e line)
  renderAll : ∀ es, Refines (renderAll (σ := σ) fuel es) (renderAll (fuel + 1) es)
  call : ∀ name vs line, Refines (call (σ := σ) fuel name vs line) (call (fuel + 1) name vs line)
  exec : ∀ s, Refines (exec (σ := σ) fuel s) (exec (fuel + 1) s)
  block : ∀ ss, Refines (block (σ := σ) fuel ss) (block (fuel + 1) ss)
  whileLoop : ∀ condition body line passes,
    Refines (whileLoop (σ := σ) fuel condition body line passes)
      (whileLoop (fuel + 1) condition body line passes)
  forLoop : ∀ counter last step up body line passes,
    Refines (forLoop (σ := σ) fuel counter last step up body line passes)
      (forLoop (fuel + 1) counter last step up body line passes)

section
variable {fuel : Nat} (ih : RunsRefine σ fuel)
include ih

theorem RunsRefine.refines_eval (e : Expr) :
    Refines (Machine.eval (σ := σ) (fuel + 1) e) (Machine.eval (fuel + 1 + 1) e) := by
  cases e with simp only [Machine.eval]
  | literal => exact .refl _
  | name name => exact .refl _
  | index target key line =>
    refine (ih.eval target).bind fun t => ?_
    exact (ih.eval key).bind fun k => .refl _
  | unary op operand line => exact (ih.eval operand).bind fun v => .refl _
  | binary op left right line =>
    refine (ih.eval left).bind fun a => ?_
    exact (ih.eval right).bind fun b => .refl _
  | call name arguments line =>
    exact (ih.evalAll arguments).bind fun vs => ih.call name vs line

theorem RunsRefine.refines_evalAll (es : List Expr) :
    Refines (Machine.evalAll (σ := σ) (fuel + 1) es) (Machine.evalAll (fuel + 1 + 1) es) := by
  cases es with simp only [Machine.evalAll]
  | nil => exact .refl _
  | cons e es =>
    refine (ih.eval e).bind fun v => ?_
    exact (ih.evalAll es).bind fun vs => .refl _

theorem RunsRefine.refines_evalKeys (es : List Expr) (line : Nat) :
    Refines (Machine.evalKeys (σ := σ) (fuel + 1) es line)
      (Machine.evalKeys (fuel + 1 + 1) es line) := by
  cases es with simp only [Machine.evalKeys]
  | nil => exact .refl _
  | cons e es =>
    refine (ih.eval e).bind fun v => ?_
    refine (Refines.refl _).bind fun k => ?_
    exact (ih.evalKeys es line).bind fun ks => .refl _

theorem RunsRefine.refines_evalNumber (e : Expr) (line : Nat) :
    Refines (Machine.evalNumber (σ := σ) (fuel + 1) e line)
      (Machine.evalNumber (fuel + 1 + 1) e line) := by
  simp only [Machine.evalNumber]
  exact (ih.eval e).bind fun v => .refl _

theorem RunsRefine.refines_renderAll (es : List Expr) :
    Refines (Machine.renderAll (σ := σ) (fuel + 1) es) (Machine.renderAll (fuel + 1 + 1) es) := by
  cases es with simp only [Machine.renderAll]
  | nil => exact .refl _
  | cons e es =>
    refine (ih.eval e).bind fun v => ?_
    refine (Refines.refl _).bind fun c => ?_
    exact (ih.renderAll es).bind fun texts => .refl _

theorem RunsRefine.refines_call (name : String) (vs : List Value) (line : Nat) :
    Refines (Machine.call (σ := σ) (fuel + 1) name vs line)
      (Machine.call (fuel + 1 + 1) name vs line) := by
  simp only [Machine.call]
  refine (Refines.refl _).bind fun c => ?_
  split
  · exact (ih.block _).inCall _ line
  · exact .refl _

theorem RunsRefine.refines_block (ss : List Statement) :
    Refines (Machine.block (σ := σ) (fuel + 1) ss) (Machine.block (fuel + 1 + 1) ss) := by
  cases ss with simp only [Machine.block]
  | nil => exact .refl _
  | cons s ss =>
    refine (ih.exec s).bind fun flow => ?_
    cases flow with
    | next => exact ih.block ss
    | _ => exact .refl _

theorem RunsRefine.refines_whileLoop (condition : Expr) (body : List Statement) (line : Nat)
    (passes : UInt64) :
    Refines (Machine.whileLoop (σ := σ) (fuel + 1) condition body line passes)
      (Machine.whileLoop (fuel + 1 + 1) condition body line passes) := by
  rw [Machine.whileLoop.eq_def (fuel + 1), Machine.whileLoop.eq_def (fuel + 1 + 1)]
  refine (ih.eval condition).bind fun v => ?_
  split
  · refine (Refines.refl _).bind fun n => ?_
    refine (ih.block body).bind fun flow => ?_
    cases flow with
    | next => exact ih.whileLoop condition body line n
    | _ => exact .refl _
  · exact .refl _

theorem RunsRefine.refines_forLoop (counter : String) (last step : Value) (up : Bool)
    (body : List Statement) (line : Nat) (passes : UInt64) :
    Refines (Machine.forLoop (σ := σ) (fuel + 1) counter last step up body line passes)
      (Machine.forLoop (fuel + 1 + 1) counter last step up body line passes) := by
  rw [Machine.forLoop.eq_def (fuel + 1), Machine.forLoop.eq_def (fuel + 1 + 1)]
  refine (Refines.refl _).bind fun current => ?_
  refine (Refines.refl _).bind fun go => ?_
  split
  · refine (Refines.refl _).bind fun n => ?_
    refine (ih.block body).bind fun flow => ?_
    cases flow with
    | next =>
      refine (Refines.refl _).bind fun current => ?_
      refine (Refines.refl _).bind fun next => ?_
      refine (Refines.refl _).bind fun _ => ?_
      exact ih.forLoop counter last step up body line n
    | _ => exact .refl _
  · exact .refl _

theorem RunsRefine.refines_exec (s : Statement) :
    Refines (Machine.exec (σ := σ) (fuel + 1) s) (Machine.exec (fuel + 1 + 1) s) := by
  cases s with
  | assign name indices value line =>
    simp only [Machine.exec]
    refine (ih.evalKeys indices line).bind fun keys => ?_
    exact (ih.eval value).bind fun v => .refl _
  | dim name key line =>
    cases key with simp only [Machine.exec]
    | none => exact .refl _
    | some key => exact (ih.eval key).bind fun v => .refl _
  | if_ condition thenBody elseBody line =>
    simp only [Machine.exec]
    refine (ih.eval condition).bind fun v => ?_
    split
    · exact ih.block thenBody
    · exact ih.block _
  | while_ condition body line =>
    simp only [Machine.exec]
    exact ih.whileLoop condition body line 0
  | for_ counter first last step body line =>
    simp only [Machine.exec]
    refine (ih.evalNumber first line).bind fun a => ?_
    refine (Refines.refl _).bind fun _ => ?_
    refine (ih.evalNumber last line).bind fun b => ?_
    have rest : ∀ k : Number,
        Refines (onLine (σ := σ) line (ascending k) >>= fun up =>
            Machine.forLoop fuel counter b.toValue k.toValue up body line 0)
          (onLine line (ascending k) >>= fun up =>
            Machine.forLoop (fuel + 1) counter b.toValue k.toValue up body line 0) := fun k =>
      (Refines.refl _).bind fun up => ih.forLoop counter _ _ up body line 0
    cases step with
    | none => exact (Refines.refl _).bind rest
    | some step => exact (ih.evalNumber step line).bind rest
  | return_ value line =>
    cases value with simp only [Machine.exec]
    | none => exact .refl _
    | some value => exact (ih.eval value).bind fun v => .refl _
  | call name arguments line =>
    simp only [Machine.exec]
    refine (ih.evalAll arguments).bind fun vs => ?_
    exact (ih.call name vs line).bind fun _ => .refl _
  | print arguments line =>
    simp only [Machine.exec]
    exact (ih.renderAll arguments).bind fun texts => .refl _
  | command name arguments line =>
    simp only [Machine.exec]
    exact (ih.evalAll arguments).bind fun vs => .refl _
  | abort line =>
    simp only [Machine.exec]
    exact .refl _
  | remark content line =>
    simp only [Machine.exec]
    exact .refl _

end

/-- **One more unit of fuel changes only runs that run out of fuel.** -/
theorem runs_refine (fuel : Nat) : RunsRefine σ fuel := by
  induction fuel with
  | zero =>
    constructor <;> intros <;>
      simp only [eval, evalAll, evalKeys, evalNumber, renderAll, call, exec, block, whileLoop,
        forLoop] <;>
      exact refines_outOfFuel _
  | succ fuel ih =>
    exact
      { eval := ih.refines_eval
        evalAll := ih.refines_evalAll
        evalKeys := ih.refines_evalKeys
        evalNumber := ih.refines_evalNumber
        renderAll := ih.refines_renderAll
        call := ih.refines_call
        exec := ih.refines_exec
        block := ih.refines_block
        whileLoop := ih.refines_whileLoop
        forLoop := ih.refines_forLoop }

/-! ## No fuel -/

theorem eval_zero (e : Expr) (c : Context σ) : eval 0 e c = .error .outOfFuel c := by
  rw [eval]
  rfl

theorem evalKeys_zero (es : List Expr) (line : Nat) (c : Context σ) :
    evalKeys 0 es line c = .error .outOfFuel c := by
  rw [evalKeys]
  rfl

theorem exec_zero (s : Statement) (c : Context σ) : exec 0 s c = .error .outOfFuel c := by
  rw [exec]
  rfl

/-! ## Outcomes with enough fuel -/

/-- More fuel does not change what the run comes to. -/
def Steady (m : Nat → Machine σ α) : Prop := ∀ fuel, Refines (m fuel) (m (fuel + 1))

theorem steady_const (m : Machine σ α) : Steady fun _ => m := fun _ => .refl m

theorem steady_eval (e : Expr) : Steady (σ := σ) (eval · e) := fun fuel => (runs_refine fuel).eval e

theorem steady_evalKeys (es : List Expr) (line : Nat) : Steady (σ := σ) (evalKeys · es line) :=
  fun fuel => (runs_refine fuel).evalKeys es line

/-- With enough fuel the run gives a result and leaves the context `c'`. -/
def Returns (m : Nat → Machine σ α) (c : Context σ) (a : α) (c' : Context σ) : Prop :=
  ∃ fuel, m fuel c = .ok a c'

/-- With enough fuel the run fails and leaves the context `c'`. -/
def Fails (m : Nat → Machine σ α) (c : Context σ) (e : RuntimeError) (c' : Context σ) : Prop :=
  ∃ fuel, m fuel c = .error (.raised e) c'

section
variable {m : Nat → Machine σ α} {f : Nat → α → Machine σ β} {c c' : Context σ} {a : α} {b : β}
  {e : RuntimeError}

theorem Steady.of_le {n n' : Nat} (hm : Steady m) (hle : n ≤ n') : Refines (m n) (m n') := by
  induction hle with
  | refl => exact .refl _
  | step _ ih => exact ih.trans (hm _)

theorem Steady.bind (hm : Steady m) (hf : ∀ a, Steady (f · a)) : Steady fun n => m n >>= f n :=
  fun fuel => (hm fuel).bind fun a => hf a fuel

/-- With more fuel there is the same result. -/
theorem Steady.ok_of_le {n n' : Nat} (hm : Steady m) (hle : n ≤ n') (h : m n c = .ok a c') :
    m n' c = .ok a c' := by
  rcases hm.of_le hle c with ⟨c₁, hout⟩ | heq
  · rw [h] at hout
    cases hout
  · rw [heq, h]

/-- With more fuel there is the same error. -/
theorem Steady.error_of_le {n n' : Nat} (hm : Steady m) (hle : n ≤ n')
    (h : m n c = .error (.raised e) c') : m n' c = .error (.raised e) c' := by
  rcases hm.of_le hle c with ⟨c₁, hout⟩ | heq
  · rw [h] at hout
    cases hout
  · rw [heq, h]

/-- A run gives one result, whatever the fuel. -/
theorem Returns.unique {a' : α} {c'' : Context σ} (hm : Steady m) (h : Returns m c a c')
    (h' : Returns m c a' c'') : a = a' ∧ c' = c'' := by
  obtain ⟨n, hn⟩ := h
  obtain ⟨n', hn'⟩ := h'
  have hmax := hm.ok_of_le (Nat.le_max_left n n') hn
  rw [hm.ok_of_le (Nat.le_max_right n n') hn'] at hmax
  cases hmax
  exact ⟨rfl, rfl⟩

theorem returns_const {m : Machine σ α} : Returns (fun _ => m) c a c' ↔ m c = .ok a c' :=
  exists_const Nat

theorem fails_const {m : Machine σ α} :
    Fails (fun _ => m) c e c' ↔ m c = .error (.raised e) c' :=
  exists_const Nat

/-- A run that takes a unit of fuel before it begins. -/
theorem returns_succ (h : ∀ c, m 0 c = .error .outOfFuel c) :
    Returns m c a c' ↔ Returns (fun n => m (n + 1)) c a c' := by
  constructor
  · rintro ⟨n, hn⟩
    cases n with
    | zero =>
      rw [h] at hn
      cases hn
    | succ n => exact ⟨n, hn⟩
  · rintro ⟨n, hn⟩
    exact ⟨n + 1, hn⟩

theorem fails_succ (h : ∀ c, m 0 c = .error .outOfFuel c) :
    Fails m c e c' ↔ Fails (fun n => m (n + 1)) c e c' := by
  constructor
  · rintro ⟨n, hn⟩
    cases n with
    | zero =>
      rw [h] at hn
      cases hn
    | succ n => exact ⟨n, hn⟩
  · rintro ⟨n, hn⟩
    exact ⟨n + 1, hn⟩

variable (hm : Steady m) (hf : ∀ a, Steady (f · a))
include hm hf

/-- The result of runs in sequence. -/
theorem returns_bind :
    Returns (fun n => m n >>= f n) c b c' ↔
      ∃ a c₁, Returns m c a c₁ ∧ Returns (f · a) c₁ b c' := by
  constructor
  · rintro ⟨n, hn⟩
    obtain ⟨a, c₁, ha, hb⟩ := bind_eq_ok_iff.1 hn
    exact ⟨a, c₁, ⟨n, ha⟩, n, hb⟩
  · rintro ⟨a, c₁, ⟨n, ha⟩, n', hb⟩
    have hm' := hm.ok_of_le (Nat.le_max_left n n') ha
    exact ⟨max n n', (bind_of_ok hm').trans ((hf a).ok_of_le (Nat.le_max_right n n') hb)⟩

/-- The error of runs in sequence: that of the first, or of the second from where the first came
to. -/
theorem fails_bind :
    Fails (fun n => m n >>= f n) c e c' ↔
      Fails m c e c' ∨ ∃ a c₁, Returns m c a c₁ ∧ Fails (f · a) c₁ e c' := by
  constructor
  · rintro ⟨n, hn⟩
    cases hctx : m n c with
    | ok a c₁ => exact .inr ⟨a, c₁, ⟨n, hctx⟩, n, (bind_of_ok hctx).symm.trans hn⟩
    | error s c₁ =>
      cases (bind_of_error hctx).symm.trans hn
      exact .inl ⟨n, hctx⟩
  · rintro (⟨n, hn⟩ | ⟨a, c₁, ⟨n, ha⟩, n', hb⟩)
    · exact ⟨n, bind_of_error hn⟩
    · have hm' := hm.ok_of_le (Nat.le_max_left n n') ha
      exact ⟨max n n', (bind_of_ok hm').trans ((hf a).error_of_le (Nat.le_max_right n n') hb)⟩

end

/-! ## Sequences with a step that takes no fuel -/

section
variable {r : Except Fault α} {f : Nat → α → Machine σ β} {m : Nat → Machine σ α} {g : α → β}
  {c c' : Context σ} {b : β} {e : RuntimeError} {line : Nat}

theorem returns_onLine_bind : Returns (fun n => onLine line r >>= f n) c b c' ↔
    ∃ a, r = .ok a ∧ Returns (f · a) c b c' := by
  cases r with
  | ok a =>
    constructor
    · exact fun h => ⟨a, rfl, h⟩
    · rintro ⟨_, ⟨⟩, h⟩
      exact h
  | error fault =>
    constructor
    · rintro ⟨n, h⟩
      cases h
    · rintro ⟨_, ⟨⟩, -⟩

theorem fails_onLine_bind : Fails (fun n => onLine line r >>= f n) c e c' ↔
    (∃ fault, r = .error fault ∧ e = ⟨fault, line⟩ ∧ c' = c) ∨
      ∃ a, r = .ok a ∧ Fails (f · a) c e c' := by
  cases r with
  | ok a =>
    constructor
    · exact fun h => .inr ⟨a, rfl, h⟩
    · rintro (⟨_, ⟨⟩, -⟩ | ⟨_, ⟨⟩, h⟩)
      exact h
  | error fault =>
    constructor
    · rintro ⟨n, h⟩
      cases h
      exact .inl ⟨fault, rfl, rfl, rfl⟩
    · rintro (⟨_, ⟨⟩, rfl, rfl⟩ | ⟨_, ⟨⟩, -⟩)
      exact ⟨0, rfl⟩

theorem returns_bind_pure : Returns (fun n => m n >>= fun a => pure (g a)) c b c' ↔
    ∃ a, Returns m c a c' ∧ b = g a := by
  constructor
  · rintro ⟨n, h⟩
    obtain ⟨a, c₁, ha, hb⟩ := bind_eq_ok_iff.1 h
    cases hb
    exact ⟨a, ⟨n, ha⟩, rfl⟩
  · rintro ⟨a, ⟨n, ha⟩, rfl⟩
    exact ⟨n, bind_of_ok ha⟩

theorem fails_bind_pure :
    Fails (fun n => m n >>= fun a => pure (g a)) c e c' ↔ Fails m c e c' := by
  constructor
  · rintro ⟨n, h⟩
    cases hm : m n c with
    | ok a c₁ => cases (bind_of_ok hm).symm.trans h
    | error s c₁ =>
      cases (bind_of_error hm).symm.trans h
      exact ⟨n, hm⟩
  · rintro ⟨n, h⟩
    exact ⟨n, bind_of_error h⟩

end

end Machine

end BasicScript
