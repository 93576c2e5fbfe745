/-
  Termination under a limit on the passes of loops.

  The measure is lexicographic: the calls that may still be entered, then the size of the syntax,
  then the passes that a loop has left.

  * `Context.Bounded limit d`: loops make at most `limit` passes, and at most `d` more calls may be
    entered.
  * `Terminates limit d m`: from every such context some fuel is enough for `m`, and any more fuel
    gives the same outcome.
  * `block_terminates`: bodies terminate, by induction on `d`; within one `d` by induction on the
    syntax (`eval_terminates`, `exec_terminates`), and for loops on the passes left
    (`whileLoop_terminates`, `forLoop_terminates`).
  * `execute_terminates`: so does the run of a program.
-/
import BasicScript.Proofs.Machine.Runs

namespace BasicScript

namespace Context

variable {σ : Type}

/-- Loops make at most `limit` passes, and at most `d` more calls may be entered. -/
structure Bounded (limit : UInt64) (d : Nat) (ctx : Context σ) : Prop where
  passes : ctx.limits.loopPasses = some limit
  calls : ctx.limits.callDepth ≤ ctx.callDepth + d

/-- Two contexts with the same limits and the same number of active calls. -/
structure SameBounds (c c' : Context σ) : Prop where
  limits : c'.limits = c.limits
  callDepth : c'.callDepth = c.callDepth

theorem SameBounds.bounded {limit : UInt64} {d : Nat} {c c' : Context σ} (h : c.SameBounds c')
    (hc : c.Bounded limit d) : c'.Bounded limit d := by
  refine ⟨by rw [h.limits, hc.passes], ?_⟩
  rw [h.limits, h.callDepth]
  exact hc.calls

theorem limits_leave (c : Context σ) : c.leave.limits = c.limits := by
  rw [leave]
  split <;> rfl

theorem callDepth_leave (c : Context σ) : c.leave.callDepth = c.callDepth - 1 := by
  rw [leave]
  split
  · rename_i hback
    have hempty : c.callers = #[] := by simpa using hback
    simp [callDepth, hempty]
  · simp [callDepth]

theorem callDepth_enter (c : Context σ) (frame : Frame) :
    (c.enter frame).callDepth = c.callDepth + 1 :=
  Array.size_push _

theorem Bounded.enter {limit : UInt64} {d : Nat} {c : Context σ} (h : c.Bounded limit (d + 1))
    (frame : Frame) : (c.enter frame).Bounded limit d := by
  refine ⟨h.passes, ?_⟩
  have hcalls : c.limits.callDepth ≤ c.callDepth + (d + 1) := h.calls
  have henter := c.callDepth_enter frame
  show c.limits.callDepth ≤ _
  omega

theorem Bounded.leave {limit : UInt64} {d : Nat} {c : Context σ} (h : c.Bounded limit d) :
    c.leave.Bounded limit (d + 1) := by
  refine ⟨by rw [c.limits_leave, h.passes], ?_⟩
  have hcalls := h.calls
  rw [c.limits_leave, c.callDepth_leave]
  omega

end Context

namespace Machine

variable {σ α β : Type} {limit : UInt64} {d : Nat}

theorem tracks_bounds : Tracks (σ := σ) Context.SameBounds fun _ => Context.SameBounds where
  refl _ := ⟨rfl, rfl⟩
  trans _ _ _ h h' := ⟨h'.limits.trans h.limits, h'.callDepth.trans h.callDepth⟩
  event _ _ _ := ⟨rfl, rfl⟩
  host _ _ := ⟨rfl, rfl⟩
  allocation _ := ⟨rfl, rfl⟩
  change _ _ _ _ := ⟨rfl, rfl⟩
  statement _ _ _ h := h
  sequence _ _ _ _ h h' := ⟨h'.limits.trans h.limits, h'.callDepth.trans h.callDepth⟩
  assignment _ _ _ _ _ := ⟨rfl, rfl⟩
  leave _ c frame c' h := by
    refine ⟨by rw [c'.limits_leave, h.limits]; rfl, ?_⟩
    rw [c'.callDepth_leave, h.callDepth, c.callDepth_enter]
    exact Nat.add_sub_cancel _ _

/-! ## Steps that terminate -/

/-- An outcome other than running out of fuel; a result leaves a context within the bounds. -/
def Ends (limit : UInt64) (d : Nat) : EStateM.Result Stop (Context σ) α → Prop
  | .ok _ ctx => ctx.Bounded limit d
  | .error e _ => e ≠ .outOfFuel

/-- From every context within the bounds, enough fuel brings the step to an end, and more fuel to
the same one. -/
def Terminates (limit : UInt64) (d : Nat) (m : Nat → Machine σ α) : Prop :=
  ∀ ctx, ctx.Bounded limit d →
    ∃ fuel result, (∀ more, fuel ≤ more → m more ctx = result) ∧ Ends limit d result

theorem Terminates.succ {m : Nat → Machine σ α} (h : Terminates limit d fun n => m (n + 1)) :
    Terminates limit d m := by
  intro ctx hctx
  obtain ⟨fuel, result, hr, hend⟩ := h ctx hctx
  refine ⟨fuel + 1, result, fun more hmore => ?_, hend⟩
  obtain ⟨k, rfl⟩ : ∃ k, more = k + 1 := ⟨more - 1, by omega⟩
  exact hr k (by omega)

theorem Terminates.bind {m : Nat → Machine σ α} {f : Nat → α → Machine σ β}
    (hm : Terminates limit d m) (hf : ∀ a, Terminates limit d fun n => f n a) :
    Terminates limit d fun n => m n >>= f n := by
  intro ctx hctx
  obtain ⟨fuel, result, hr, hend⟩ := hm ctx hctx
  cases result with
  | ok a c =>
    obtain ⟨fuel', result', hr', hend'⟩ := hf a c hend
    refine ⟨max fuel fuel', result', fun more hmore => ?_, hend'⟩
    exact (bind_of_ok (hr more (by omega))).trans (hr' more (by omega))
  | error e c => exact ⟨fuel, .error e c, fun more hmore => bind_of_error (hr more hmore), hend⟩

theorem Terminates.of_step {m : Machine σ α} (h : Step Context.SameBounds m) :
    Terminates limit d fun _ => m := by
  intro ctx hctx
  have hkeeps := h.1 ctx
  refine ⟨0, m ctx, fun _ _ => rfl, ?_⟩
  cases hm : m ctx with
  | ok a c =>
    rw [after_of_ok hm] at hkeeps
    exact hkeeps.bounded hctx
  | error e c => exact fun he => h.2 ctx c (he ▸ hm)

theorem Terminates.of_eq {m : Machine σ α} (h : Step Eq m) : Terminates limit d fun _ => m :=
  .of_step (tracks_bounds.of_eq h)

theorem terminates_setVariable (name : String) (v : Value) :
    Terminates (σ := σ) limit d fun _ => modify (·.setVariable name v) := by
  have h : Step Context.SameBounds (modify (·.setVariable name v) : Machine σ Unit) :=
    tracks_bounds.setVariable (List.mem_singleton_self name) v
  exact .of_step h

/-! ## Calls -/

theorem terminates_inCall_zero (frame : Frame) (line : Nat) (body : Nat → Machine σ Flow) :
    Terminates limit 0 fun n => inCall frame line (body n) := by
  intro ctx hctx
  exact ⟨0, _, fun _ _ => inCall_of_le hctx.calls, nofun⟩

/-- A call terminates if its body does with one call less to enter. -/
theorem Terminates.inCall {body : Nat → Machine σ Flow} (h : Terminates limit d body)
    (frame : Frame) (line : Nat) :
    Terminates limit (d + 1) fun n => inCall frame line (body n) := by
  intro ctx hctx
  rcases Nat.lt_or_ge ctx.callDepth ctx.limits.callDepth with hd | hd
  · obtain ⟨fuel, result, hr, hend⟩ := h (ctx.enter frame) (hctx.enter frame)
    refine ⟨fuel, leaveCall result, fun more hmore => ?_, ?_⟩
    · exact (inCall_of_lt hd).trans (congrArg leaveCall (hr more hmore))
    · cases result with
      | ok flow c =>
        cases flow with
        | next | return_ => exact Context.Bounded.leave hend
        | abort => exact nofun
      | error e c => exact hend
  · exact ⟨0, _, fun _ _ => inCall_of_le hd, nofun⟩

/-- Calls terminate while at most `d` more may be entered. -/
def CallsTerminate (σ : Type) (limit : UInt64) (d : Nat) : Prop :=
  ∀ name arguments line, Terminates (σ := σ) limit d fun n => call n name arguments line

theorem callsTerminate_of_inCall (h : ∀ frame line ss,
      Terminates (σ := σ) limit d fun n => Machine.inCall frame line (block n ss)) :
    CallsTerminate σ limit d := by
  intro name arguments line
  refine .succ ?_
  simp only [call]
  refine .bind (.of_eq step_get) fun ctx => ?_
  cases findSubroutine? ctx.subroutines ⟨name, arguments.length⟩ with
  | some s => exact h _ line s.body
  | none =>
    cases ctx.native? ⟨name, arguments.length⟩ with
    | some f => exact .of_step (tracks_bounds.callNative f _ arguments line)
    | none =>
      cases builtin? ctx.arrays name arguments with
      | some result => exact .of_eq (step_onLine line result)
      | none => exact .of_eq (step_raise _ line)

/-! ## Expressions -/

mutual

theorem eval_terminates (hcall : CallsTerminate σ limit d) :
    ∀ e, Terminates (σ := σ) limit d fun n => eval n e
  | .literal value line => by
    refine .succ ?_
    simp only [eval]
    exact .of_eq (step_pure _)
  | .name name line => by
    refine .succ ?_
    simp only [eval]
    exact .of_eq (step_readVariable name)
  | .index target key line => by
    refine .succ ?_
    simp only [eval]
    refine .bind (eval_terminates hcall target) fun t => ?_
    exact .bind (eval_terminates hcall key) fun k => .of_eq (step_readEntry t k line)
  | .unary op operand line => by
    refine .succ ?_
    simp only [eval]
    exact .bind (eval_terminates hcall operand) fun v => .of_eq (step_onLine line _)
  | .binary op left right line => by
    refine .succ ?_
    simp only [eval]
    refine .bind (eval_terminates hcall left) fun a => ?_
    exact .bind (eval_terminates hcall right) fun b => .of_eq (step_onLine line _)
  | .call name arguments line => by
    refine .succ ?_
    simp only [eval]
    exact .bind (evalAll_terminates hcall arguments) fun vs => hcall name vs line

theorem evalAll_terminates (hcall : CallsTerminate σ limit d) :
    ∀ es, Terminates (σ := σ) limit d fun n => evalAll n es
  | [] => by
    refine .succ ?_
    simp only [evalAll]
    exact .of_eq (step_pure _)
  | e :: es => by
    refine .succ ?_
    simp only [evalAll]
    refine .bind (eval_terminates hcall e) fun v => ?_
    exact .bind (evalAll_terminates hcall es) fun vs => .of_eq (step_pure _)

end

theorem evalKeys_terminates (hcall : CallsTerminate σ limit d) (es : List Expr) (line : Nat) :
    Terminates (σ := σ) limit d fun n => evalKeys n es line := by
  induction es with
  | nil =>
    refine .succ ?_
    simp only [evalKeys]
    exact .of_eq (step_pure _)
  | cons e es ih =>
    refine .succ ?_
    simp only [evalKeys]
    refine .bind (eval_terminates hcall e) fun v => ?_
    refine .bind (.of_eq (step_onLine line _)) fun k => ?_
    exact .bind ih fun ks => .of_eq (step_pure _)

theorem evalNumber_terminates (hcall : CallsTerminate σ limit d) (e : Expr) (line : Nat) :
    Terminates (σ := σ) limit d fun n => evalNumber n e line := by
  refine .succ ?_
  simp only [evalNumber]
  exact .bind (eval_terminates hcall e) fun v => .of_eq (step_onLine line _)

theorem renderAll_terminates (hcall : CallsTerminate σ limit d) (es : List Expr) :
    Terminates (σ := σ) limit d fun n => renderAll n es := by
  induction es with
  | nil =>
    refine .succ ?_
    simp only [renderAll]
    exact .of_eq (step_pure _)
  | cons e es ih =>
    refine .succ ?_
    simp only [renderAll]
    refine .bind (eval_terminates hcall e) fun v => ?_
    refine .bind (.of_eq step_get) fun ctx => ?_
    exact .bind ih fun texts => .of_eq (step_pure _)

/-! ## Loops -/

theorem countPass_eq {ctx : Context σ} (hctx : ctx.Bounded limit d) (passes : UInt64)
    (line : Nat) : countPass passes line ctx =
      if limit < passes + 1 then .error (.raised ⟨.loopLimit limit, line⟩) ctx
      else .ok (passes + 1) ctx := by
  rw [countPass, bind_of_ok (m := get) rfl]
  simp only [hctx.passes]
  split <;> rfl

/-- What follows the count of a pass has to terminate only if the loop had a pass left. -/
theorem Terminates.countPass {f : Nat → UInt64 → Machine σ α} {passes : UInt64}
    (hmax : limit.toNat < UInt64.size - 1) (hle : passes.toNat ≤ limit.toNat)
    (hf : passes.toNat < limit.toNat → (passes + 1).toNat = passes.toNat + 1 →
      Terminates limit d fun n => f n (passes + 1)) (line : Nat) :
    Terminates limit d fun n => countPass passes line >>= f n := by
  intro ctx hctx
  have hsucc : (passes + 1).toNat = passes.toNat + 1 := by
    have hsize : passes.toNat + 1 < UInt64.size := by omega
    rw [UInt64.toNat_add, UInt64.toNat_one]
    exact Nat.mod_eq_of_lt hsize
  have hcount := countPass_eq hctx passes line
  by_cases hlt : passes.toNat < limit.toNat
  · have hnot : ¬ limit < passes + 1 := by
      rw [UInt64.lt_iff_toNat_lt, hsucc]
      omega
    rw [if_neg hnot] at hcount
    obtain ⟨fuel, result, hr, hend⟩ := hf hlt hsucc ctx hctx
    exact ⟨fuel, result, fun more hmore => (bind_of_ok hcount).trans (hr more hmore), hend⟩
  · have hover : limit < passes + 1 := by
      rw [UInt64.lt_iff_toNat_lt, hsucc]
      omega
    rw [if_pos hover] at hcount
    exact ⟨0, _, fun _ _ => bind_of_error hcount, nofun⟩

section
variable {body : List Statement} (hmax : limit.toNat < UInt64.size - 1)
  (hbody : Terminates (σ := σ) limit d fun n => block n body)
include hmax hbody

/-- By induction on the passes that are left. -/
theorem whileLoop_terminates (hcall : CallsTerminate σ limit d) (condition : Expr) (line : Nat)
    (passes : UInt64) (hpasses : passes.toNat ≤ limit.toNat) :
    Terminates (σ := σ) limit d fun n => whileLoop n condition body line passes := by
  induction hleft : limit.toNat - passes.toNat using Nat.strongRecOn generalizing passes with
  | ind left ih =>
    refine .succ ?_
    simp only [whileLoop]
    refine .bind (eval_terminates hcall condition) fun v => ?_
    split
    · refine .countPass hmax hpasses (fun hlt hsucc => ?_) line
      refine .bind hbody fun flow => ?_
      cases flow with
      | next => exact ih _ (by omega) (passes + 1) (by omega) rfl
      | return_ | abort => exact .of_eq (step_pure _)
    · exact .of_eq (step_pure _)

/-- By induction on the passes that are left. -/
theorem forLoop_terminates (counter : String) (last step : Value) (up : Bool) (line : Nat)
    (passes : UInt64) (hpasses : passes.toNat ≤ limit.toNat) :
    Terminates (σ := σ) limit d fun n => forLoop n counter last step up body line passes := by
  induction hleft : limit.toNat - passes.toNat using Nat.strongRecOn generalizing passes with
  | ind left ih =>
    refine .succ ?_
    simp only [forLoop]
    refine .bind (.of_eq (step_readVariable counter)) fun current => ?_
    refine .bind (.of_eq (step_onLine line _)) fun go => ?_
    split
    · refine .countPass hmax hpasses (fun hlt hsucc => ?_) line
      refine .bind hbody fun flow => ?_
      cases flow with
      | next =>
        refine .bind (.of_eq (step_readVariable counter)) fun current => ?_
        refine .bind (.of_eq (step_onLine line _)) fun next => ?_
        refine .bind (terminates_setVariable counter next) fun _ => ?_
        exact ih _ (by omega) (passes + 1) (by omega) rfl
      | return_ | abort => exact .of_eq (step_pure _)
    · exact .of_eq (step_pure _)

end

/-! ## Statements -/

mutual

theorem exec_terminates (hmax : limit.toNat < UInt64.size - 1) (hcall : CallsTerminate σ limit d) :
    ∀ s, Terminates (σ := σ) limit d fun n => exec n s
  | .assign name indices value line => by
    refine .succ ?_
    simp only [exec]
    have hstore : ∀ keys v, Step (σ := σ) Context.SameBounds (store name keys v line) :=
      fun keys v => tracks_bounds.store (List.mem_singleton_self name) keys v line
    refine .bind (evalKeys_terminates hcall indices line) fun keys => ?_
    refine .bind (eval_terminates hcall value) fun v => ?_
    exact .bind (.of_step (hstore keys v)) fun _ => .of_eq (step_pure _)
  | .dim name none line => by
    refine .succ ?_
    simp only [exec]
    have hclear : Step (σ := σ) Context.SameBounds (clear name none line) :=
      tracks_bounds.clear (List.mem_singleton_self name) none line
    exact .bind (.of_step hclear) fun _ => .of_eq (step_pure _)
  | .dim name (some key) line => by
    refine .succ ?_
    simp only [exec]
    have hclear : ∀ k, Step (σ := σ) Context.SameBounds (clear name (some k) line) :=
      fun k => tracks_bounds.clear (List.mem_singleton_self name) (some k) line
    refine .bind (eval_terminates hcall key) fun v => ?_
    refine .bind (.of_eq (step_onLine line _)) fun k => ?_
    exact .bind (.of_step (hclear k)) fun _ => .of_eq (step_pure _)
  | .if_ condition thenBody none line => by
    refine .succ ?_
    simp only [exec]
    refine .bind (eval_terminates hcall condition) fun v => ?_
    split
    · exact block_terminates hmax hcall thenBody
    · exact block_terminates hmax hcall []
  | .if_ condition thenBody (some elseBody) line => by
    refine .succ ?_
    simp only [exec]
    refine .bind (eval_terminates hcall condition) fun v => ?_
    split
    · exact block_terminates hmax hcall thenBody
    · exact block_terminates hmax hcall elseBody
  | .while_ condition body line => by
    refine .succ ?_
    simp only [exec]
    exact whileLoop_terminates hmax (block_terminates hmax hcall body) hcall condition line 0
      (Nat.zero_le _)
  | .for_ counter first last step body line => by
    refine .succ ?_
    simp only [exec]
    refine .bind (evalNumber_terminates hcall first line) fun a => ?_
    refine .bind (terminates_setVariable counter a.toValue) fun _ => ?_
    refine .bind (evalNumber_terminates hcall last line) fun b => ?_
    have rest : ∀ k : Number, Terminates (σ := σ) limit d fun n =>
        onLine line (ascending k) >>= fun up =>
          forLoop n counter b.toValue k.toValue up body line 0 := fun k =>
      .bind (.of_eq (step_onLine line _)) fun up =>
        forLoop_terminates hmax (block_terminates hmax hcall body) counter _ _ up line 0
          (Nat.zero_le _)
    cases step with
    | none => exact .bind (.of_eq (step_pure _)) rest
    | some step => exact .bind (evalNumber_terminates hcall step line) rest
  | .return_ none line => by
    refine .succ ?_
    simp only [exec]
    exact .of_eq (step_pure _)
  | .return_ (some value) line => by
    refine .succ ?_
    simp only [exec]
    exact .bind (eval_terminates hcall value) fun v => .of_eq (step_pure _)
  | .call name arguments line => by
    refine .succ ?_
    simp only [exec]
    refine .bind (evalAll_terminates hcall arguments) fun vs => ?_
    exact .bind (hcall name vs line) fun _ => .of_eq (step_pure _)
  | .print arguments line => by
    refine .succ ?_
    simp only [exec]
    refine .bind (renderAll_terminates hcall arguments) fun texts => ?_
    exact .bind (.of_step (tracks_bounds.emit (.print _) (by simp))) fun _ => .of_eq (step_pure _)
  | .command name arguments line => by
    refine .succ ?_
    simp only [exec]
    refine .bind (evalAll_terminates hcall arguments) fun vs => ?_
    exact .bind (.of_step (tracks_bounds.emit (.command _ _) (by simp))) fun _ => .of_eq (step_pure _)
  | .abort line => by
    refine .succ ?_
    simp only [exec]
    exact .of_eq (step_pure _)
  | .remark content line => by
    refine .succ ?_
    simp only [exec]
    exact .bind (.of_step (tracks_bounds.emit (.log _) (by simp))) fun _ => .of_eq (step_pure _)

theorem block_terminates (hmax : limit.toNat < UInt64.size - 1) (hcall : CallsTerminate σ limit d) :
    ∀ ss, Terminates (σ := σ) limit d fun n => block n ss
  | [] => by
    refine .succ ?_
    simp only [block]
    exact .of_eq (step_pure _)
  | s :: ss => by
    refine .succ ?_
    simp only [block]
    refine .bind (exec_terminates hmax hcall s) fun flow => ?_
    cases flow with
    | next => exact block_terminates hmax hcall ss
    | return_ | abort => exact .of_eq (step_pure _)

end

/-- Calls terminate, however many more of them may be entered. -/
theorem callsTerminate (hmax : limit.toNat < UInt64.size - 1) (d : Nat) :
    CallsTerminate σ limit d := by
  induction d with
  | zero =>
    exact callsTerminate_of_inCall fun frame line ss => terminates_inCall_zero frame line _
  | succ d ih =>
    refine callsTerminate_of_inCall fun frame line ss => ?_
    exact Terminates.inCall (block_terminates hmax ih ss) frame line

/-! ## Programs -/

theorem bounded_load (ctx : Context σ) (p : Program) (hl : ctx.limits.loopPasses = some limit) :
    (ctx.load p).Bounded limit ctx.limits.callDepth :=
  ⟨hl, Nat.le_add_left _ _⟩

theorem conclude_ne_outOfFuel {result : EStateM.Result Stop (Context σ) Flow}
    (hend : Ends limit d result) (ctx : Context σ) : conclude result ≠ .error .outOfFuel ctx := by
  intro h
  cases result with
  | ok flow c => cases flow <;> cases h
  | error e c =>
    cases e with
    | outOfFuel => exact hend rfl
    | raised e =>
      simp only [conclude] at h
      split at h <;> cases h

/-- **A run under a limit on the passes of loops comes to an end.** -/
theorem execute_terminates (p : Program) (ctx : Context σ)
    (hl : ctx.limits.loopPasses = some limit) (hmax : limit.toNat < UInt64.size - 1) :
    ∃ fuel, (∃ c ctx', ∀ more, fuel ≤ more → execute more p ctx = .ok c ctx') ∨
      (∃ e ctx', ∀ more, fuel ≤ more → execute more p ctx = .error (.raised e) ctx') := by
  have hblock := block_terminates hmax (callsTerminate (σ := σ) hmax ctx.limits.callDepth)
    p.statements
  obtain ⟨fuel, result, hr, hend⟩ := hblock (ctx.load p) (bounded_load ctx p hl)
  have hexec : ∀ more, fuel ≤ more → execute more p ctx = conclude result := fun more hmore =>
    (execute_eq more p ctx).trans (congrArg conclude (hr more hmore))
  refine ⟨fuel, ?_⟩
  cases hc : conclude result with
  | ok c ctx' => exact .inl ⟨c, ctx', fun more hmore => (hexec more hmore).trans hc⟩
  | error e ctx' =>
    cases e with
    | outOfFuel => exact absurd hc (conclude_ne_outOfFuel hend ctx')
    | raised e => exact .inr ⟨e, ctx', fun more hmore => (hexec more hmore).trans hc⟩

/-- A loop whose condition always holds is stopped. -/
theorem endless_loop_terminates :
    let p : Program := ⟨[.while_ (.literal (.bool true) 1) [] 1], []⟩
    let ctx : Context Unit := .new { loopPasses := some 3 } ()
    ctx.limits.loopPasses = some 3 ∧ (3 : UInt64).toNat < UInt64.size - 1 ∧
      ∃ fuel, (∃ c ctx', ∀ more, fuel ≤ more → execute more p ctx = .ok c ctx') ∨
        (∃ e ctx', ∀ more, fuel ≤ more → execute more p ctx = .error (.raised e) ctx') :=
  ⟨rfl, by decide, execute_terminates _ _ rfl (by decide)⟩

end Machine

end BasicScript
