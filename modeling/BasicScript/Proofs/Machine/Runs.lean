/-
  What whole runs may do to their context.

  * `Statement.assigned` are the variables that a statement sets: targets of assignments, names in
    `DIM`, counters of loops.
  * `RunsKeep E S fuel`: with this fuel every evaluation moves the context along `E`, and every
    execution of statements along `S names` as soon as `names` covers their variables.
  * `Tracks.runs`: relations that track the elementary steps track all runs.
  * `execute_eq`: a program runs its statements from `ctx.load p`, and `conclude` turns what they
    come to into the outcome of the run.
-/
import BasicScript.Proofs.Machine.Steps

namespace BasicScript

/-! ## Variables that statements set -/

mutual

/-- The variables that a statement sets in its own frame. -/
def Statement.assigned : Statement → List String
  | .assign name _ _ _ => [name]
  | .dim name _ _ => [name]
  | .if_ _ thenBody none _ => Statement.assignedAll thenBody
  | .if_ _ thenBody (some elseBody) _ =>
    Statement.assignedAll thenBody ++ Statement.assignedAll elseBody
  | .while_ _ body _ => Statement.assignedAll body
  | .for_ counter _ _ _ body _ => counter :: Statement.assignedAll body
  | .return_ _ _ | .call _ _ _ | .print _ _ | .command _ _ _ | .abort _ | .remark _ _ => []

/-- The variables that statements set in their own frame. -/
def Statement.assignedAll : List Statement → List String
  | [] => []
  | s :: ss => s.assigned ++ Statement.assignedAll ss

end

namespace Machine

variable {σ α : Type}

/-! ## Runs -/

/-- With this fuel evaluations move the context along `E`, and statements that set variables among
`names` along `S names`. -/
structure RunsKeep (E : Context σ → Context σ → Prop)
    (S : List String → Context σ → Context σ → Prop) (fuel : Nat) : Prop where
  eval : ∀ e, Keeps E (eval fuel e)
  evalAll : ∀ es, Keeps E (evalAll fuel es)
  evalKeys : ∀ es line, Keeps E (evalKeys fuel es line)
  evalNumber : ∀ e line, Keeps E (evalNumber fuel e line)
  renderAll : ∀ es, Keeps E (renderAll fuel es)
  call : ∀ name arguments line, Keeps E (call fuel name arguments line)
  exec : ∀ names s, s.assigned ⊆ names → Keeps (S names) (exec fuel s)
  block : ∀ names ss, Statement.assignedAll ss ⊆ names → Keeps (S names) (block fuel ss)
  whileLoop : ∀ names condition body line passes, Statement.assignedAll body ⊆ names →
    Keeps (S names) (whileLoop fuel condition body line passes)
  forLoop : ∀ names counter last step up body line passes,
    counter :: Statement.assignedAll body ⊆ names →
      Keeps (S names) (forLoop fuel counter last step up body line passes)

section
variable {E : Context σ → Context σ → Prop} {S : List String → Context σ → Context σ → Prop}
  (h : Tracks E S) {fuel : Nat}
include h

theorem Tracks.keeps_of_eq {m : Machine σ α} (hm : Step Eq m) : Keeps E m := (h.of_eq hm).1

theorem Tracks.keeps_eval (ih : RunsKeep E S fuel) (e : Expr) : Keeps E (eval (fuel + 1) e) := by
  cases e with simp only [eval]
  | literal => exact h.keeps_of_eq (step_pure _)
  | name name => exact h.keeps_of_eq (step_readVariable name)
  | index target key line =>
    refine (ih.eval target).bind h.trans fun t => ?_
    refine (ih.eval key).bind h.trans fun k => ?_
    exact h.keeps_of_eq (step_readEntry t k line)
  | unary op operand line =>
    refine (ih.eval operand).bind h.trans fun v => ?_
    exact h.keeps_of_eq (step_onLine line _)
  | binary op left right line =>
    refine (ih.eval left).bind h.trans fun a => ?_
    refine (ih.eval right).bind h.trans fun b => ?_
    exact h.keeps_of_eq (step_onLine line _)
  | call name arguments line =>
    exact (ih.evalAll arguments).bind h.trans fun vs => ih.call name vs line

theorem Tracks.keeps_evalAll (ih : RunsKeep E S fuel) (es : List Expr) :
    Keeps E (evalAll (fuel + 1) es) := by
  cases es with simp only [evalAll]
  | nil => exact h.keeps_of_eq (step_pure _)
  | cons e es =>
    refine (ih.eval e).bind h.trans fun v => ?_
    refine (ih.evalAll es).bind h.trans fun vs => ?_
    exact h.keeps_of_eq (step_pure _)

theorem Tracks.keeps_evalKeys (ih : RunsKeep E S fuel) (es : List Expr) (line : Nat) :
    Keeps E (evalKeys (fuel + 1) es line) := by
  cases es with simp only [evalKeys]
  | nil => exact h.keeps_of_eq (step_pure _)
  | cons e es =>
    refine (ih.eval e).bind h.trans fun v => ?_
    refine (h.keeps_of_eq (step_onLine line _)).bind h.trans fun k => ?_
    refine (ih.evalKeys es line).bind h.trans fun ks => ?_
    exact h.keeps_of_eq (step_pure _)

theorem Tracks.keeps_evalNumber (ih : RunsKeep E S fuel) (e : Expr) (line : Nat) :
    Keeps E (evalNumber (fuel + 1) e line) := by
  rw [evalNumber]
  exact (ih.eval e).bind h.trans fun v => h.keeps_of_eq (step_onLine line _)

theorem Tracks.keeps_renderAll (ih : RunsKeep E S fuel) (es : List Expr) :
    Keeps E (renderAll (fuel + 1) es) := by
  cases es with simp only [renderAll]
  | nil => exact h.keeps_of_eq (step_pure _)
  | cons e es =>
    refine (ih.eval e).bind h.trans fun v => ?_
    refine (h.keeps_of_eq step_get).bind h.trans fun ctx => ?_
    refine (ih.renderAll es).bind h.trans fun texts => ?_
    exact h.keeps_of_eq (step_pure _)

theorem Tracks.keeps_call (ih : RunsKeep E S fuel) (name : String) (arguments : List Value)
    (line : Nat) : Keeps E (call (fuel + 1) name arguments line) := by
  simp only [call]
  refine (h.keeps_of_eq step_get).bind h.trans fun ctx => ?_
  split
  · exact h.inCall _ line (ih.block _ _ (List.Subset.refl _))
  · split
    · exact (h.callNative _ _ arguments line).1
    · split
      · exact h.keeps_of_eq (step_onLine line _)
      · exact h.keeps_of_eq (step_raise _ line)

variable {names : List String}

theorem Tracks.exec_of_eval {m : Machine σ α} (hm : Keeps E m) : Keeps (S names) m :=
  hm.imp (h.statement names)

theorem Tracks.exec_of_eq {m : Machine σ α} (hm : Step Eq m) : Keeps (S names) m :=
  h.exec_of_eval (h.keeps_of_eq hm)

theorem Tracks.keeps_block (ih : RunsKeep E S fuel) (ss : List Statement)
    (hs : Statement.assignedAll ss ⊆ names) : Keeps (S names) (block (fuel + 1) ss) := by
  cases ss with simp only [block]
  | nil => exact h.exec_of_eq (step_pure _)
  | cons s ss =>
    rw [Statement.assignedAll, List.append_subset] at hs
    refine (ih.exec names s hs.1).bind (h.sequence names) fun flow => ?_
    split
    · exact ih.block names ss hs.2
    · exact h.exec_of_eq (step_pure _)

theorem Tracks.keeps_whileLoop (ih : RunsKeep E S fuel) (condition : Expr) (body : List Statement)
    (line : Nat) (passes : UInt64) (hs : Statement.assignedAll body ⊆ names) :
    Keeps (S names) (whileLoop (fuel + 1) condition body line passes) := by
  simp only [whileLoop]
  refine (h.exec_of_eval (ih.eval condition)).bind (h.sequence names) fun v => ?_
  split
  · refine (h.exec_of_eq (step_countPass passes line)).bind (h.sequence names) fun n => ?_
    refine (ih.block names body hs).bind (h.sequence names) fun flow => ?_
    split
    · exact ih.whileLoop names condition body line n hs
    · exact h.exec_of_eq (step_pure _)
  · exact h.exec_of_eq (step_pure _)

theorem Tracks.keeps_forLoop (ih : RunsKeep E S fuel) (counter : String) (last step : Value)
    (up : Bool) (body : List Statement) (line : Nat) (passes : UInt64)
    (hs : counter :: Statement.assignedAll body ⊆ names) :
    Keeps (S names) (forLoop (fuel + 1) counter last step up body line passes) := by
  have hcounter : counter ∈ names := hs List.mem_cons_self
  have hbody : Statement.assignedAll body ⊆ names := fun n hn => hs (List.mem_cons_of_mem _ hn)
  have hread : Keeps (S names) (readVariable counter) := h.exec_of_eq (step_readVariable counter)
  simp only [forLoop]
  refine hread.bind (h.sequence names) fun current => ?_
  refine (h.exec_of_eq (step_onLine line _)).bind (h.sequence names) fun go => ?_
  split
  · refine (h.exec_of_eq (step_countPass passes line)).bind (h.sequence names) fun n => ?_
    refine (ih.block names body hbody).bind (h.sequence names) fun flow => ?_
    split
    · refine hread.bind (h.sequence names) fun current => ?_
      refine (h.exec_of_eq (step_onLine line _)).bind (h.sequence names) fun next => ?_
      refine (h.setVariable hcounter next).1.bind (h.sequence names) fun _ => ?_
      exact ih.forLoop names counter last step up body line n hs
    · exact h.exec_of_eq (step_pure _)
  · exact h.exec_of_eq (step_pure _)

theorem Tracks.keeps_exec (ih : RunsKeep E S fuel) (s : Statement) (hs : s.assigned ⊆ names) :
    Keeps (S names) (exec (fuel + 1) s) := by
  have next : Keeps (S names) (pure (f := Machine σ) Flow.next) := h.exec_of_eq (step_pure _)
  cases s with
  | assign name indices value line =>
    simp only [exec]
    have hn : name ∈ names := hs List.mem_cons_self
    refine (h.exec_of_eval (ih.evalKeys indices line)).bind (h.sequence names) fun keys => ?_
    refine (h.exec_of_eval (ih.eval value)).bind (h.sequence names) fun v => ?_
    exact (h.store hn keys v line).1.bind (h.sequence names) fun _ => next
  | dim name key line =>
    have hn : name ∈ names := hs List.mem_cons_self
    cases key with simp only [exec]
    | none => exact (h.clear hn none line).1.bind (h.sequence names) fun _ => next
    | some key =>
      refine (h.exec_of_eval (ih.eval key)).bind (h.sequence names) fun v => ?_
      refine (h.exec_of_eq (step_onLine line _)).bind (h.sequence names) fun k => ?_
      exact (h.clear hn (some k) line).1.bind (h.sequence names) fun _ => next
  | if_ condition thenBody elseBody line =>
    simp only [exec]
    refine (h.exec_of_eval (ih.eval condition)).bind (h.sequence names) fun v => ?_
    cases elseBody with
    | none =>
      split
      · exact ih.block names thenBody hs
      · exact ih.block names [] (List.nil_subset names)
    | some elseBody =>
      rw [Statement.assigned, List.append_subset] at hs
      split
      · exact ih.block names thenBody hs.1
      · exact ih.block names elseBody hs.2
  | while_ condition body line =>
    simp only [exec]
    exact ih.whileLoop names condition body line 0 hs
  | for_ counter first last step body line =>
    have hn : counter ∈ names := hs List.mem_cons_self
    simp only [exec]
    refine (h.exec_of_eval (ih.evalNumber first line)).bind (h.sequence names) fun a => ?_
    refine (h.setVariable hn a.toValue).1.bind (h.sequence names) fun _ => ?_
    refine (h.exec_of_eval (ih.evalNumber last line)).bind (h.sequence names) fun b => ?_
    have rest : ∀ k : Number, Keeps (S names) (onLine line (ascending k) >>= fun up =>
        forLoop fuel counter b.toValue k.toValue up body line 0) := fun k =>
      (h.exec_of_eq (step_onLine line _)).bind (h.sequence names) fun up =>
        ih.forLoop names counter _ _ up body line 0 hs
    cases step with
    | none => exact (h.exec_of_eq (step_pure _)).bind (h.sequence names) rest
    | some step =>
      exact (h.exec_of_eval (ih.evalNumber step line)).bind (h.sequence names) rest
  | return_ value line =>
    cases value with simp only [exec]
    | none => exact h.exec_of_eq (step_pure _)
    | some value =>
      refine (h.exec_of_eval (ih.eval value)).bind (h.sequence names) fun v => ?_
      exact h.exec_of_eq (step_pure _)
  | call name arguments line =>
    simp only [exec]
    refine (h.exec_of_eval (ih.evalAll arguments)).bind (h.sequence names) fun vs => ?_
    exact (h.exec_of_eval (ih.call name vs line)).bind (h.sequence names) fun _ => next
  | print arguments line =>
    simp only [exec]
    refine (h.exec_of_eval (ih.renderAll arguments)).bind (h.sequence names) fun texts => ?_
    exact (h.of_step (h.emit (.print _) (by simp))).1.bind (h.sequence names) fun _ => next
  | command name arguments line =>
    simp only [exec]
    refine (h.exec_of_eval (ih.evalAll arguments)).bind (h.sequence names) fun vs => ?_
    exact (h.of_step (h.emit (.command _ _) (by simp))).1.bind (h.sequence names) fun _ => next
  | abort line =>
    simp only [exec]
    exact h.exec_of_eq (step_pure _)
  | remark content line =>
    simp only [exec]
    exact (h.of_step (h.emit (.log _) (by simp))).1.bind (h.sequence names) fun _ => next

/-- Without fuel every run stops at once. -/
theorem Tracks.runs_zero : RunsKeep E S 0 := by
  have hE : ∀ α, Keeps E (throw .outOfFuel : Machine σ α) := fun α ctx => h.refl ctx
  have hS : ∀ names, Keeps (S names) (throw .outOfFuel : Machine σ Flow) := fun names ctx =>
    h.statement names ctx ctx (h.refl ctx)
  constructor <;> intros <;>
    simp only [eval, evalAll, evalKeys, evalNumber, renderAll, call, exec, block, whileLoop,
      forLoop, hE, hS]

/-- **Relations that track the elementary steps track all runs.** -/
theorem Tracks.runs (fuel : Nat) : RunsKeep E S fuel := by
  induction fuel with
  | zero => exact h.runs_zero
  | succ fuel ih =>
    exact
      { eval := h.keeps_eval ih
        evalAll := h.keeps_evalAll ih
        evalKeys := h.keeps_evalKeys ih
        evalNumber := h.keeps_evalNumber ih
        renderAll := h.keeps_renderAll ih
        call := h.keeps_call ih
        exec := fun _ s hs => h.keeps_exec ih s hs
        block := fun _ ss hs => h.keeps_block ih ss hs
        whileLoop := fun _ condition body line passes hs =>
          h.keeps_whileLoop ih condition body line passes hs
        forLoop := fun _ counter last step up body line passes hs =>
          h.keeps_forLoop ih counter last step up body line passes hs }

end

end Machine

/-! ## Programs -/

/-- The context in which the statements of a program begin. -/
def Context.load (ctx : Context σ) (p : Program) : Context σ :=
  { ctx.resetFrames with subroutines := install p.subroutines ctx.subroutines }

namespace Machine

/-- The outcome of a run whose statements came to this. -/
def conclude : EStateM.Result Stop (Context σ) Flow → EStateM.Result Stop (Context σ) Completion
  | .ok (.abort line) ctx => .ok (.aborted line) ctx.resetFrames
  | .ok _ ctx => .ok .finished ctx.resetFrames
  | .error .outOfFuel ctx => .error .outOfFuel ctx
  | .error (.raised e) ctx =>
    match e.fault with
    | .aborted => .ok (.aborted e.line) ctx.resetFrames
    | _ => .error (.raised e) (ctx.resetFrames.emit (.error e.message))

theorem execute_eq (fuel : Nat) (p : Program) (ctx : Context σ) :
    execute fuel p ctx = conclude (block fuel p.statements (ctx.load p)) :=
  rfl

theorem conclude_of_aborted {e : RuntimeError} (he : e.fault = .aborted) (ctx : Context σ) :
    conclude (.error (.raised e) ctx) = .ok (.aborted e.line) ctx.resetFrames := by
  simp only [conclude, he]

theorem conclude_of_ne_aborted {e : RuntimeError} (he : e.fault ≠ .aborted) (ctx : Context σ) :
    conclude (.error (.raised e) ctx) =
      .error (.raised e) (ctx.resetFrames.emit (.error e.message)) := by
  rw [conclude]
  split
  · contradiction
  · rfl

end Machine

end BasicScript
