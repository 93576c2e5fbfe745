/-
  The frames of a context over a run.

  * `Context.SameFrames`: two contexts have the same frames.
  * `Context.AgreeExcept names`: they have the same frames, but for the variables `names` of the
    active one.
  * `tracks_frames`: the first relation tracks evaluations and the second one statements.
  * `run_keeps_frames`: evaluations leave all frames as they are, statements change variables that
    they set and nothing else, and the depth of calls is what it was, whatever comes out.
-/
import BasicScript.Proofs.Machine.Runs

namespace BasicScript

variable {σ : Type}

theorem Frame.find?_set_self (f : Frame) (name : String) (v : Value) :
    (f.set name v).find? name = some v := by
  simp [find?, set]

theorem Frame.find?_set_of_ne (f : Frame) {name other : String} (v : Value) (hne : other ≠ name) :
    (f.set name v).find? other = f.find? other := by
  have hhead : ¬ name = other := fun h => hne h.symm
  simp only [find?, set, erase, List.find?_cons, List.find?_filter, hhead, decide_false]
  congr 2
  funext b
  by_cases hb : b.1 = other <;> simp [hb, hne]

namespace Context

/-- The frames of two contexts are the same. -/
structure SameFrames (c c' : Context σ) : Prop where
  active : c'.active = c.active
  callers : c'.callers = c.callers

/-- The frames of two contexts are the same, but for the variables `names` of the active frame. -/
structure AgreeExcept (names : List String) (c c' : Context σ) : Prop where
  others : ∀ name, name ∉ names → c'.findVariable? name = c.findVariable? name
  callers : c'.callers = c.callers

theorem SameFrames.refl (c : Context σ) : c.SameFrames c := ⟨rfl, rfl⟩

theorem SameFrames.trans {c c' c'' : Context σ} (h : c.SameFrames c') (h' : c'.SameFrames c'') :
    c.SameFrames c'' :=
  ⟨h'.active.trans h.active, h'.callers.trans h.callers⟩

theorem SameFrames.callDepth {c c' : Context σ} (h : c.SameFrames c') :
    c'.callDepth = c.callDepth :=
  congrArg Array.size h.callers

theorem SameFrames.agreeExcept {c c' : Context σ} (h : c.SameFrames c') (names : List String) :
    c.AgreeExcept names c' :=
  ⟨fun name _ => congrArg (·.find? name) h.active, h.callers⟩

theorem AgreeExcept.trans {names : List String} {c c' c'' : Context σ}
    (h : c.AgreeExcept names c') (h' : c'.AgreeExcept names c'') : c.AgreeExcept names c'' :=
  ⟨fun name hn => (h'.others name hn).trans (h.others name hn), h'.callers.trans h.callers⟩

theorem AgreeExcept.callDepth {names : List String} {c c' : Context σ}
    (h : c.AgreeExcept names c') : c'.callDepth = c.callDepth :=
  congrArg Array.size h.callers

theorem agreeExcept_setVariable {names : List String} (c : Context σ) {name : String} (v : Value)
    (hn : name ∈ names) : c.AgreeExcept names (c.setVariable name v) := by
  refine ⟨fun other ho => ?_, rfl⟩
  exact Frame.find?_set_of_ne _ v fun h => ho (h ▸ hn)

/-- A call is left with the frames it was entered from, once its body kept those below its own. -/
theorem AgreeExcept.leave {names : List String} {c c' : Context σ} {frame : Frame}
    (h : (c.enter frame).AgreeExcept names c') : c.SameFrames c'.leave := by
  have hc : c'.callers = c.callers.push c.active := h.callers
  constructor <;> simp [Context.leave, hc]

end Context

namespace Machine

/-- Evaluating keeps the frames, and statements keep all variables but those they set. -/
theorem tracks_frames : Tracks (σ := σ) Context.SameFrames Context.AgreeExcept where
  refl := .refl
  trans _ _ _ h h' := h.trans h'
  event _ _ _ := ⟨rfl, rfl⟩
  host _ _ := ⟨rfl, rfl⟩
  allocation _ := ⟨rfl, rfl⟩
  change _ _ _ _ := ⟨rfl, rfl⟩
  statement names _ _ h := h.agreeExcept names
  sequence _ _ _ _ h h' := h.trans h'
  assignment _ c _ v hn := Context.agreeExcept_setVariable c v hn
  leave _ _ _ _ h := h.leave

/-- A run of a program leaves no frame but that of the globals. -/
theorem callDepth_after_execute (fuel : Nat) (p : Program) (ctx : Context σ) :
    (after (execute fuel p) ctx).callDepth = 0 := by
  have runs : RunsKeep (σ := σ) Context.SameFrames Context.AgreeExcept fuel :=
    tracks_frames.runs fuel
  have hblock : (after (block fuel p.statements) (ctx.load p)).callDepth = 0 :=
    (runs.block _ p.statements (List.Subset.refl _) (ctx.load p)).callDepth
  rw [after, execute_eq]
  cases hctx : block fuel p.statements (ctx.load p) with
  | ok flow c => cases flow <;> rfl
  | error e c =>
    cases e with
    | outOfFuel => rwa [after_of_error hctx] at hblock
    | raised e =>
      simp only [conclude]
      split <;> rename_i hc <;> split at hc <;> cases hc <;> rfl

/-- **Runs keep the frames.** -/
theorem run_keeps_frames (fuel : Nat) (ctx : Context σ) :
    (∀ e, ctx.SameFrames (after (eval fuel e) ctx)) ∧
    (∀ name arguments line, ctx.SameFrames (after (call fuel name arguments line) ctx)) ∧
    (∀ s : Statement, ctx.AgreeExcept s.assigned (after (exec fuel s) ctx)) ∧
    (∀ ss, ctx.AgreeExcept (Statement.assignedAll ss) (after (block fuel ss) ctx)) ∧
    (∀ e, (after (eval fuel e) ctx).callDepth = ctx.callDepth) ∧
    (∀ name arguments,
      (after (callFromHost fuel name arguments) ctx).callDepth = ctx.callDepth) ∧
    (∀ s, (after (exec fuel s) ctx).callDepth = ctx.callDepth) ∧
    (∀ p, (after (execute fuel p) ctx).callDepth = 0) := by
  have runs : RunsKeep (σ := σ) Context.SameFrames Context.AgreeExcept fuel :=
    tracks_frames.runs fuel
  have hexec : ∀ s : Statement, ctx.AgreeExcept s.assigned (after (exec fuel s) ctx) :=
    fun s => runs.exec _ s (List.Subset.refl _) ctx
  refine ⟨fun e => runs.eval e ctx, fun name arguments line => runs.call name arguments line ctx,
    hexec, fun ss => runs.block _ ss (List.Subset.refl _) ctx, fun e => (runs.eval e ctx).callDepth,
    fun name arguments => (runs.call _ arguments 0 ctx).callDepth, fun s => (hexec s).callDepth,
    fun p => callDepth_after_execute fuel p ctx⟩

end Machine

end BasicScript
