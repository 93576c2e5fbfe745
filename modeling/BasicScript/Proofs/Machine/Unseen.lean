/-
  What a run does not see: the variables of its callers, and limits that it stays within.

  * `Limits.AtMost l l'`: the second limits allow all that the first ones do.
  * `Fault.IsLimit`: the faults of runs that go beyond their limits.
  * `Context.Veiled`, `veil`: two contexts that differ below the active frame and in their limits
    only, and this as a simulation.  The right limits are the left ones, or allow more; in the
    latter case the comparison ends where the left run goes beyond its limits.
  * `calls_see_no_caller`: so a call comes to the same whatever the variables of its callers are.
  * `raised_limits_unseen`: and a run that stays within its limits comes to the same under limits
    that allow more.
-/
import BasicScript.Proofs.Machine.Frames
import BasicScript.Proofs.Machine.Invariants

namespace BasicScript

variable {σ α : Type}

/-! ## Limits -/

/-- The second limits allow as many calls and as many passes of a loop as the first ones. -/
structure Limits.AtMost (l l' : Limits) : Prop where
  callDepth : l.callDepth ≤ l'.callDepth
  loopPasses : ∀ n', l'.loopPasses = some n' → ∃ n, l.loopPasses = some n ∧ n ≤ n'

/-- The faults of runs that go beyond their limits. -/
def Fault.IsLimit : Fault → Prop
  | .recursionLimit _ | .loopLimit _ => True
  | _ => False

/-- The same limits, or limits that allow more, if going beyond the first ones is exempt. -/
def Limits.Within (exempt : Stop → Prop) (l l' : Limits) : Prop :=
  l = l' ∨ l.AtMost l' ∧ ∀ e : RuntimeError, e.fault.IsLimit → exempt (.raised e)

section
variable {exempt : Stop → Prop} {l l' : Limits}

theorem Limits.Within.callDepth_le (h : l.Within exempt l') : l.callDepth ≤ l'.callDepth := by
  rcases h with rfl | ⟨h, -⟩
  · exact Nat.le_refl _
  · exact h.callDepth

/-- A count of passes that the first limits allow is allowed by the second ones. -/
theorem Limits.Within.le_loopPasses (h : l.Within exempt l') {count : UInt64}
    (hcount : ∀ n, l.loopPasses = some n → count ≤ n) :
    ∀ n, l'.loopPasses = some n → count ≤ n := by
  rcases h with rfl | ⟨h, -⟩
  · exact hcount
  · intro n' hn'
    obtain ⟨n, hn, hle⟩ := h.loopPasses n' hn'
    exact UInt64.le_trans (hcount n hn) hle

end

namespace Machine

section
variable {passes : UInt64} {line : Nat} {ctx : Context σ}

theorem countPass_of_le (h : ∀ n, ctx.limits.loopPasses = some n → passes + 1 ≤ n) :
    countPass passes line ctx = .ok (passes + 1) ctx := by
  rw [countPass, bind_of_ok (m := get) rfl]
  cases hl : ctx.limits.loopPasses with
  | none => rfl
  | some n =>
    have hn : ¬ n < passes + 1 := UInt64.not_lt.2 (h n hl)
    simp only [hn, if_false]
    rfl

theorem countPass_of_lt {n : UInt64} (hl : ctx.limits.loopPasses = some n) (hn : n < passes + 1) :
    countPass passes line ctx = .error (.raised ⟨.loopLimit n, line⟩) ctx := by
  rw [countPass, bind_of_ok (m := get) rfl, hl]
  simp only [hn, if_true]
  rfl

end

/-- The outcome of a step with another context in place of the one that it leaves. -/
def mapContext (f : Context σ → Context σ) :
    EStateM.Result Stop (Context σ) α → EStateM.Result Stop (Context σ) α
  | .ok a ctx => .ok a (f ctx)
  | .error e ctx => .error e (f ctx)

end Machine

/-! ## Contexts -/

/-- What is different in two runs: the frames below the active one, and the limits. -/
structure Veil where
  callers : Array Frame
  callers' : Array Frame
  limits' : Limits

namespace Context

/-- The context with other variables. -/
def withFrames (ctx : Context σ) (active : Frame) (callers : Array Frame) : Context σ :=
  { ctx with active, callers }

/-- The context with other limits. -/
def withLimits (ctx : Context σ) (limits : Limits) : Context σ := { ctx with limits }

/-- The contexts differ as the veil says and in nothing else. -/
structure Veiled (exempt : Stop → Prop) (w : Veil) (c c' : Context σ) : Prop where
  callers : c.callers = w.callers
  size_eq : w.callers.size = w.callers'.size
  limits : c.limits.Within exempt w.limits'
  eq : c' = (c.withFrames c.active w.callers').withLimits w.limits'

theorem leave_of_callers {c : Context σ} {fs : Array Frame} {f : Frame}
    (h : c.callers = fs.push f) : c.leave = c.withFrames f fs := by
  simp [leave, h, withFrames]

namespace Veiled

variable {exempt : Stop → Prop} {w : Veil} {c c' : Context σ} (hc : Veiled exempt w c c')
include hc

theorem enter (frame : Frame) :
    Veiled exempt ⟨w.callers.push c.active, w.callers'.push c.active, w.limits'⟩ (c.enter frame)
      (c'.enter frame) where
  callers := congrArg (·.push c.active) hc.callers
  size_eq := by simp [hc.size_eq]
  limits := hc.limits
  eq := by rw [hc.eq]; rfl

/-- What does not touch the frames below the active one nor the limits keeps the veil. -/
theorem map {f : Context σ → Context σ} (hcallers : (f c).callers = c.callers)
    (hlimits : (f c).limits = c.limits)
    (hf : ∀ fs l, f ((c.withFrames c.active fs).withLimits l) =
      ((f c).withFrames (f c).active fs).withLimits l) : Veiled exempt w (f c) (f c') where
  callers := hcallers.trans hc.callers
  size_eq := hc.size_eq
  limits := by rw [hlimits]; exact hc.limits
  eq := by rw [hc.eq, hf]

theorem arrays_eq : c'.arrays = c.arrays := by rw [hc.eq]; rfl

theorem limits_eq : c'.limits = w.limits' := by rw [hc.eq]; rfl

theorem callDepth_eq : c'.callDepth = c.callDepth := by
  rw [hc.eq]
  exact hc.size_eq.symm.trans (congrArg Array.size hc.callers.symm)

theorem alike (h : Handle) :
    c.arrays.Alike (diagonal fun _ => True) c'.arrays h h := by
  rw [hc.arrays_eq]
  cases hes : c.arrays.entries? h with
  | none => exact .none hes hes
  | some es => exact .entries hes hes (tableRelated_diagonal.2 ⟨fun _ _ _ _ => trivial, rfl⟩)

end Veiled

/-- A call that was entered from contexts with other frames is left in these. -/
theorem Veiled.leave {exempt : Stop → Prop} {fs fs' : Array Frame} {f f' : Frame} {limits : Limits}
    {c c' : Context σ} (hc : Veiled exempt ⟨fs.push f, fs'.push f', limits⟩ c c') :
    c.leave = c.withFrames f fs ∧ c'.leave = (c.withFrames f' fs').withLimits limits := by
  have hc' : c'.callers = fs'.push f' := by rw [hc.eq]; rfl
  rw [leave_of_callers hc.callers, leave_of_callers hc', hc.eq]
  exact ⟨rfl, rfl⟩

end Context

/-! ## Runs -/

/-- Two runs that differ in what a run does not see, as a simulation. -/
def veil (exempt : Stop → Prop) : Simulation σ where
  World := Veil
  le := Eq
  handle _ := diagonal fun _ => True
  context := Context.Veiled exempt
  exempt := exempt

theorem veil_exact (exempt : Stop → Prop) : (veil (σ := σ) exempt).Exact := fun _ _ _ h => h.2

theorem veil_lawful (exempt : Stop → Prop) : (veil (σ := σ) exempt).Lawful where
  refl _ := rfl
  trans := Eq.trans
  handle_mono _ hk := hk
  oneToOne _ := diagonal_oneToOne _
  arrays := by
    rintro w c c' h _ hc ⟨-, rfl⟩
    exact hc.alike h
  render := by
    intro w c c' v v' hc hv
    rw [(Value.related_diagonal.1 hv).2, Context.render, Context.render, hc.arrays_eq]
  reading := by
    intro w c c' hc name
    refine Value.related_diagonal.2 ⟨fun _ _ => trivial, ?_⟩
    rw [hc.eq]
    rfl
  subroutines := by
    intro w c c' hc
    rw [hc.eq]
    rfl
  assignment := by
    intro w c c' v v' hc name hv
    obtain rfl := (Value.related_diagonal.1 hv).2
    exact hc.map (f := (·.setVariable name v)) rfl rfl fun _ _ => rfl
  allocation := by
    intro w c c' hc
    refine ⟨w, rfl, ⟨trivial, by rw [hc.arrays_eq]⟩, ?_⟩
    exact hc.map (f := fun c => { c with arrays := c.arrays.allocate.2 }) rfl rfl fun _ _ => rfl
  change := by
    rintro w c c' h _ f f' hc ⟨-, rfl⟩ - hf
    have heq : f = f' := funext fun es =>
      (tableRelated_diagonal.1 (hf es es (tableRelated_diagonal.2 ⟨fun _ _ _ _ => trivial, rfl⟩))).2
    subst heq
    exact hc.map (f := fun c => { c with arrays := c.arrays.modify h f }) rfl rfl fun _ _ => rfl
  event := by
    intro w c c' e e' hc he
    obtain rfl := he.eq_of_diagonal
    exact hc.map (f := (·.emit e)) rfl rfl fun _ _ => rfl
  native := by
    intro w c c' hc key
    have hnative : c'.native? key = c.native? key := by rw [hc.eq]; rfl
    rw [hnative]
    cases hf : c.native? key with
    | none => exact .inl ⟨rfl, rfl⟩
    | some f =>
      refine .inr ⟨f, f, rfl, rfl, fun vs vs' line hvs => ?_⟩
      obtain rfl := (values_related_diagonal.1 hvs).2
      have hhost : c'.host = c.host := by rw [hc.eq]; rfl
      rw [Machine.callNative, Machine.callNative, hhost]
      have hc' : Context.Veiled exempt w
          { c.emit (.native key vs) with host := (f vs c.host).2 }
          { c'.emit (.native key vs) with host := (f vs c.host).2 } :=
        hc.map (f := fun c' => { c'.emit (.native key vs) with host := (f vs c.host).2 }) rfl rfl
          fun _ _ => rfl
      cases hr : (f vs c.host).1 with
      | ok v =>
        simp only [hr]
        exact .ok rfl hc' (Value.related_diagonal.2 ⟨fun _ _ => trivial, rfl⟩)
      | error e =>
        simp only [hr]
        exact .error rfl hc'
  pass := by
    intro w c c' hc count line
    by_cases hle : ∀ n, c.limits.loopPasses = some n → count + 1 ≤ n
    · rw [Machine.countPass_of_le hle,
        Machine.countPass_of_le (hc.limits_eq ▸ hc.limits.le_loopPasses hle)]
      exact .ok rfl hc rfl
    · obtain ⟨n, hn⟩ := Classical.not_forall.1 hle
      obtain ⟨hl, hn⟩ := Classical.not_imp.1 hn
      have hlt := UInt64.not_le.1 hn
      rw [Machine.countPass_of_lt hl hlt]
      rcases hc.limits with heq | ⟨-, hexempt⟩
      · rw [Machine.countPass_of_lt (by rw [hc.limits_eq, ← heq, hl]) hlt]
        exact .error rfl hc
      · exact .exempt (hexempt _ trivial)
  refused := by
    intro w c c' hc hd line
    rcases hc.limits with heq | ⟨-, hexempt⟩
    · rw [hc.limits_eq, hc.callDepth_eq, ← heq]
      exact .inr ⟨rfl, hd⟩
    · exact .inl (hexempt _ trivial)
  allowed := by
    intro w c c' hc hd
    rw [hc.callDepth_eq, hc.limits_eq]
    exact Nat.lt_of_lt_of_le hd hc.limits.callDepth_le
  enter := by
    intro w c c' vs vs' hc params hvs
    obtain rfl := (values_related_diagonal.1 hvs).2
    refine ⟨_, hc.enter (.ofArguments params vs), ?_⟩
    rintro _ c₂ c₂' rfl hc₂
    obtain ⟨hleave, hleave'⟩ := hc₂.leave
    refine ⟨w, rfl, ?_, fun _ _ hv => hv⟩
    rw [hleave, hleave']
    exact ⟨rfl, hc.size_eq, hc₂.limits, rfl⟩

namespace Machine

/-! ### Calls -/

theorem callNative_withFrames {active : Frame} {callers : Array Frame} (f : Native σ)
    (key : CallKey) (arguments : List Value) (line : Nat) (c : Context σ) :
    callNative f key arguments line (c.withFrames active callers) =
      mapContext (·.withFrames active callers) (callNative f key arguments line c) := by
  have hhost : (c.withFrames active callers).host = c.host := rfl
  rw [callNative, callNative, hhost]
  obtain ⟨result, host⟩ := f arguments c.host
  cases result <;> rfl

section
variable {active : Frame} {callers : Array Frame} {c : Context σ}
  (hsize : callers.size = c.callers.size)
include hsize

/-- A body comes to the same whatever is below its frame. -/
theorem inCall_withFrames (frame : Frame) (line fuel : Nat) (ss : List Statement) :
    inCall frame line (block fuel ss) (c.withFrames active callers) =
      mapContext (·.withFrames active callers) (inCall frame line (block fuel ss) c) := by
  have hdepth : (c.withFrames active callers).callDepth = c.callDepth := hsize
  rcases Nat.lt_or_ge c.callDepth c.limits.callDepth with hd | hd
  · rw [inCall_of_lt hd, inCall_of_lt (hdepth ▸ hd)]
    have hveil : Context.Veiled (fun _ => False)
        ⟨c.callers.push c.active, callers.push active, c.limits⟩ (c.enter frame)
        ((c.withFrames active callers).enter frame) :=
      ⟨rfl, by simp [hsize], .inl rfl, rfl⟩
    have hagree := ((veil_lawful _).runs fuel).block ss hveil (.inl (veil_exact _))
    -- what the body leaves differs in the frames below it only, and leaving it brings these back
    have hleave : ∀ c₁ c₁' : Context σ, Context.Veiled (fun _ => False)
        ⟨c.callers.push c.active, callers.push active, c.limits⟩ c₁ c₁' →
        c₁'.leave = c₁.leave.withFrames active callers := by
      intro c₁ c₁' hc
      have hlimits : c₁.limits = c.limits := hc.limits.resolve_right fun h =>
        h.2 ⟨.loopLimit 0, 0⟩ trivial
      rw [hc.leave.1, hc.leave.2, ← hlimits]
      rfl
    generalize block fuel ss (c.enter frame) = r at hagree
    generalize block fuel ss ((c.withFrames active callers).enter frame) = r' at hagree
    cases hagree with
    | ok hw hc hflow =>
      cases hw
      obtain ⟨rfl, -⟩ := Flow.related_diagonal hflow
      rename_i flow _ _
      cases flow <;> simp only [leaveCall, mapContext, hleave _ _ hc]
    | error hw hc =>
      cases hw
      simp only [leaveCall, mapContext, hleave _ _ hc]
    | exempt he => cases he
  · rw [inCall_of_le hd, inCall_of_le (hdepth ▸ hd)]
    rfl

theorem call_withFrames (fuel : Nat) (name : String) (arguments : List Value) (line : Nat) :
    call fuel name arguments line (c.withFrames active callers) =
      mapContext (·.withFrames active callers) (call fuel name arguments line c) := by
  cases fuel with
  | zero => simp only [call]; rfl
  | succ fuel =>
    simp only [call]
    rw [bind_of_ok (m := get) rfl, bind_of_ok (m := get) rfl]
    have hnative : (c.withFrames active callers).native? = c.native? := rfl
    have hsubroutines : (c.withFrames active callers).subroutines = c.subroutines := rfl
    have harrays : (c.withFrames active callers).arrays = c.arrays := rfl
    rw [hsubroutines, hnative, harrays]
    cases findSubroutine? c.subroutines ⟨name, arguments.length⟩ with
    | some s => exact inCall_withFrames hsize _ line fuel s.body
    | none =>
      cases c.native? ⟨name, arguments.length⟩ with
      | some f => exact callNative_withFrames f _ arguments line c
      | none =>
        cases builtin? c.arrays name arguments with
        | some result => cases result <;> rfl
        | none => rfl

/-- **A call sees no variables but its own.**  It comes to the same, whatever the variables of its
callers are, and leaves these as they are. -/
theorem calls_see_no_caller (fuel : Nat) (name : String) (arguments : List Value) :
    (∀ line,
      call fuel name arguments line (c.withFrames active callers) =
        mapContext (·.withFrames active callers) (call fuel name arguments line c) ∧
      c.SameFrames (after (call fuel name arguments line) c) ∧
      (c.withFrames active callers).SameFrames
        (after (call fuel name arguments line) (c.withFrames active callers))) ∧
    callFromHost fuel name arguments (c.withFrames active callers) =
      mapContext (·.withFrames active callers) (callFromHost fuel name arguments c) ∧
    c.SameFrames (after (callFromHost fuel name arguments) c) ∧
    (c.withFrames active callers).SameFrames
      (after (callFromHost fuel name arguments) (c.withFrames active callers)) := by
  have runs : RunsKeep (σ := σ) Context.SameFrames Context.AgreeExcept fuel :=
    tracks_frames.runs fuel
  have hcall : ∀ name line, call fuel name arguments line (c.withFrames active callers) =
        mapContext (·.withFrames active callers) (call fuel name arguments line c) ∧
      c.SameFrames (after (call fuel name arguments line) c) ∧
      (c.withFrames active callers).SameFrames
        (after (call fuel name arguments line) (c.withFrames active callers)) := fun name line =>
    ⟨call_withFrames hsize fuel name arguments line, runs.call name arguments line c,
      runs.call name arguments line _⟩
  exact ⟨hcall name, hcall name.toUpper 0⟩

end

/-- A subroutine that doubles its argument does not see a variable of the same name. -/
theorem parameter_unseen :
    let c : Context Unit :=
      { Context.new {} () with
        active := ⟨[("X", .bool true)]⟩
        callers := #[.empty]
        subroutines := [⟨"DOUBLE", ["X"],
          [.return_ (some (.binary .add (.name "X" 1) (.name "X" 1) 1)) 1], 1⟩] }
    let callers : Array Frame := #[⟨[("Y", .integer 7)]⟩]
    callers.size = c.callers.size ∧
      passes (callFromHost 9 "double" [.integer 4]) c (fun v _ => v ≠ .integer 8) = false ∧
      callFromHost 9 "double" [.integer 4] (c.withFrames .empty callers) =
        mapContext (·.withFrames .empty callers) (callFromHost 9 "double" [.integer 4] c) := by
  intro c callers
  have hsize : callers.size = c.callers.size := rfl
  exact ⟨hsize, by unfold c; decide +kernel, (calls_see_no_caller hsize 9 "double" _).2.1⟩

/-! ### Limits -/

/-- **Limits that a run stays within are unseen.**  If it does not end beyond its limits, it comes
to the same under limits that allow more. -/
theorem raised_limits_unseen (fuel : Nat) (p : Program) {c : Context σ} {limits : Limits}
    (hl : c.limits.AtMost limits)
    (hwithin : ∀ e c₁, execute fuel p c = .error (.raised e) c₁ → ¬ e.fault.IsLimit) :
    execute fuel p (c.withLimits limits) =
      mapContext (·.withLimits limits) (execute fuel p c) := by
  let exempt : Stop → Prop := fun stop => ∃ e : RuntimeError, stop = .raised e ∧ e.fault.IsLimit
  let w : Veil := ⟨#[], #[], limits⟩
  have hload : Context.Veiled exempt w (c.load p) ((c.withLimits limits).load p) :=
    ⟨rfl, rfl, .inr ⟨hl, fun e he => ⟨e, rfl, he⟩⟩, rfl⟩
  have hblock := ((veil_lawful exempt).runs fuel).block p.statements hload (.inl (veil_exact _))
  have hagree := (veil_lawful exempt).conclude hblock ?reset ?aborted
  case reset =>
    rintro _ c₁ c₁' rfl hc
    have hcallers : c₁.callers = #[] := hc.callers
    rw [hc.eq]
    exact ⟨rfl, rfl, hc.limits, by simp [Context.resetFrames, Context.globals, hcallers]; rfl⟩
  case aborted =>
    rintro e ⟨_, ⟨⟩, he⟩ hf
    rw [hf] at he
    exact he
  -- without frames below, the veil hides the limits only
  have hunveil : ∀ c₁ c₁' : Context σ, Context.Veiled exempt w c₁ c₁' →
      c₁' = c₁.withLimits limits := by
    intro c₁ c₁' hc
    have hcallers : c₁.callers = #[] := hc.callers
    rw [hc.eq]
    simp [Context.withFrames, w, ← hcallers]
  rw [← execute_eq, ← execute_eq] at hagree
  generalize execute fuel p c = r at hagree hwithin
  generalize execute fuel p (c.withLimits limits) = r' at hagree
  cases hagree with
  | ok hw hc heq =>
    cases hw
    rw [hunveil _ _ hc, heq]
    rfl
  | error hw hc =>
    cases hw
    rw [hunveil _ _ hc]
    rfl
  | exempt he =>
    obtain ⟨e, rfl, he⟩ := he
    exact absurd he (hwithin e _ rfl)

/-- A loop of two passes, each with a call, stays within limits of two passes and one call. -/
theorem two_passes_within_limits :
    let p : Program :=
      ⟨[.for_ "I" (.literal (.integer 1) 1) (.literal (.integer 2) 1) none
          [.print [.call "ID" [.name "I" 1] 1] 1] 1],
        [⟨"ID", ["X"], [.return_ (some (.name "X" 2)) 2], 2⟩]⟩
    let c : Context Unit := .new { callDepth := 1, loopPasses := some 2 } ()
    let limits : Limits := { callDepth := 5 }
    c.limits.AtMost limits ∧
      (∀ e c₁, execute 20 p c = .error (.raised e) c₁ → ¬ e.fault.IsLimit) ∧
      execute 20 p (c.withLimits limits) = mapContext (·.withLimits limits) (execute 20 p c) ∧
      (after (execute 20 p) c).trace = [.print "1", .print "2"] := by
  intro p c limits
  have hl : c.limits.AtMost limits := ⟨by decide, nofun⟩
  have hfinished : passes (execute 20 p) c (fun completion _ => completion ≠ .finished) = false := by
    unfold p c
    decide +kernel
  have hwithin : ∀ e c₁, execute 20 p c = .error (.raised e) c₁ → ¬ e.fault.IsLimit := by
    intro e c₁ he
    simp [passes, he] at hfinished
  exact ⟨hl, hwithin, raised_limits_unseen 20 p hl hwithin, by unfold p c; decide +kernel⟩

end Machine

end BasicScript
