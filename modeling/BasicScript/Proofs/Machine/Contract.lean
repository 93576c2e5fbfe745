/-
  Contracts of runs: an invariant of the context, and what holds of the errors.

  * `Contract σ`: the contexts that a run may be in, the errors that it may end with, and the lines
    on which errors and `ABORT`s may arise.
  * `C.Meets Q m`: in a good context the step gives a result with `Q` or an error of the contract, and
    leaves a good context.
  * `Contract.Lawful C` lists what is asked of a contract.
  * `RunsMeet C fuel`: with this fuel every run meets the contract as soon as the lines of its
    statements and expressions are allowed; `Lawful.runs` proves it by induction on the fuel, one
    lemma a function.
  * `Lawful.context_execute`, `error_of_execute`, `abort_of_execute`: what follows for programs.
-/
import BasicScript.Proofs.Machine.Runs
import BasicScript.Proofs.Machine.Writes
import BasicScript.Proofs.Program.Lines
import BasicScript.Proofs.Value.Faults

namespace BasicScript

open Machine

variable {σ α β : Type}

/-- The contexts that a run may be in, the errors that it may end with and the contexts that these
leave, and the lines on which faults and `ABORT`s may arise. -/
structure Contract (σ : Type) where
  context : Context σ → Prop
  error : RuntimeError → Context σ → Prop
  line : Nat → Prop
  abort : Nat → Prop

namespace Contract

/-- A result with `Q`, or an error of the contract; the context is a good one in any case. -/
inductive Outcome (C : Contract σ) (Q : α → Prop) : EStateM.Result Stop (Context σ) α → Prop
  | ok {a : α} {c : Context σ} : Q a → C.context c → Outcome C Q (.ok a c)
  | raised {e : RuntimeError} {c : Context σ} : C.error e c → C.context c →
      Outcome C Q (.error (.raised e) c)
  | outOfFuel {c : Context σ} : C.context c → Outcome C Q (.error .outOfFuel c)

/-- In a good context the step has an outcome of the contract. -/
def Meets (C : Contract σ) (Q : α → Prop) (m : Machine σ α) : Prop :=
  ∀ c, C.context c → C.Outcome Q (m c)

/-- What is asked of a contract: contexts stay good under all changes that runs make, and ordinary
faults on the lines of the contract are errors of the contract. -/
structure Lawful (C : Contract σ) : Prop where
  tidy : ∀ {c}, C.context c → c.arrays.Tidy
  same : ∀ {c c'}, C.context c → c'.arrays = c.arrays → c'.subroutines = c.subroutines →
    c'.natives = c.natives → C.context c'
  allocation : ∀ {c}, C.context c → C.context { c with arrays := c.arrays.allocate.2 }
  change : ∀ {c}, C.context c → ∀ h f, C.context { c with arrays := c.arrays.modify h f }
  body : ∀ {c key s}, C.context c → findSubroutine? c.subroutines key = some s →
    (∀ l ∈ Statement.linesAll s.body, C.line l) ∧ ∀ l ∈ Statement.abortsAll s.body, C.abort l
  fault : ∀ {c f l}, C.context c → f.Ordinary → C.line l → C.error ⟨f, l⟩ c
  aborted : ∀ {c l}, C.context c → C.abort l → C.error ⟨.aborted, l⟩ c
  native : ∀ {c key f vs e host line}, C.context c → c.native? key = some f →
    f vs c.host = (.error e, host) → C.line line →
    C.error (nativeError key line e) { c.emit (.native key vs) with host }
  leave : ∀ {e c}, C.error e c → C.error e c.leave

variable {C : Contract σ} {Q : α → Prop} {R : β → Prop} {c : Context σ}

/-- The context that a step leaves is a good one. -/
theorem Outcome.after {m : Machine σ α} (h : C.Outcome Q (m c)) : C.context (after m c) := by
  rw [Machine.after]
  generalize m c = r at h
  cases h with
  | ok _ hc => exact hc
  | raised _ hc => exact hc
  | outOfFuel hc => exact hc

theorem Meets.bind {m : Machine σ α} {f : α → Machine σ β} (hm : C.Meets Q m)
    (hf : ∀ a, Q a → C.Meets R (f a)) : C.Meets R (m >>= f) := by
  intro c hc
  have h := hm c hc
  cases hctx : m c with
  | ok a c' =>
    rw [hctx] at h
    rw [bind_of_ok hctx]
    cases h with
    | ok ha hc' => exact hf a ha c' hc'
  | error e c' =>
    rw [hctx] at h
    rw [bind_of_error hctx]
    cases h with
    | raised he hc' => exact .raised he hc'
    | outOfFuel hc' => exact .outOfFuel hc'

/-- A step of which only the errors and the context matter. -/
abbrev Keeps (C : Contract σ) (m : Machine σ α) : Prop := C.Meets (fun _ => True) m

theorem meets_pure {a : α} (ha : Q a) : C.Meets Q (pure a) := fun _ hc => .ok ha hc

theorem keeps_pure (a : α) : C.Keeps (pure a) := meets_pure trivial

theorem keeps_get : C.Keeps get := fun _ hc => .ok trivial hc

theorem keeps_readVariable (name : String) : C.Keeps (readVariable name) := fun _ hc =>
  .ok trivial hc

/-- The flow stops the run on a line of the contract only. -/
def Passes (C : Contract σ) (flow : Flow) : Prop := ∀ l, flow = .abort l → C.abort l

theorem passes_next : C.Passes .next := nofun

theorem passes_return (v : Value) : C.Passes (.return_ v) := nofun

namespace Lawful

variable (hC : C.Lawful)
include hC

/-! ## Steps -/

theorem raise {f : Fault} {l : Nat} (hf : f.Ordinary) (hl : C.line l) :
    C.Meets Q (Machine.raise f l) := fun _ hc => .raised (hC.fault hc hf hl) hc

theorem onLine {r : Except Fault α} {l : Nat} (hr : Faults r) (hl : C.line l) :
    C.Keeps (Machine.onLine l r) := by
  cases r with
  | ok a => exact keeps_pure a
  | error f => exact hC.raise (hr f rfl) hl

theorem emit (e : Event) : C.Keeps (Machine.emit e) := fun _ hc =>
  .ok trivial (hC.same hc rfl rfl rfl)

theorem setVariable (name : String) (v : Value) :
    C.Keeps (σ := σ) (modify (·.setVariable name v)) := fun _ hc =>
  .ok trivial (hC.same hc rfl rfl rfl)

theorem readEntry (target key : Value) {l : Nat} (hl : C.line l) :
    C.Keeps (Machine.readEntry target key l) := by
  cases target with
  | array h =>
    refine (hC.onLine (Key.faults_ofValue key) hl).bind fun k _ => ?_
    exact keeps_get.bind fun c _ => keeps_pure _
  | empty => exact keeps_pure _
  | _ => exact hC.raise ⟨nofun, nofun⟩ hl

theorem countPass (passes : UInt64) {l : Nat} (hl : C.line l) :
    C.Keeps (Machine.countPass passes l) := by
  refine keeps_get.bind fun c _ => ?_
  split
  · split
    · exact hC.raise ⟨nofun, nofun⟩ hl
    · exact keeps_pure _
  · exact keeps_pure _

theorem context_arrayOf (hc : C.context c) (name : String) : C.context (c.arrayOf name).2 := by
  cases hx : c.arrays.array? (c.valueOf name) with
  | some h =>
    rw [Context.arrayOf_of_some hx]
    exact hc
  | none =>
    rw [Context.arrayOf_of_none hx]
    exact hC.same (hC.allocation hc) rfl rfl rfl

/-- Writing through a path of keys, by induction on the path. -/
theorem context_stores {a b : Arena} {v : Value} {h : Handle} {key : Key} {keys : List Key}
    {slots : List (Handle × Key)} (hs : a.Stores v h key keys slots b) (hc : C.context c)
    (ha : c.arrays = a) : C.context { c with arrays := b } := by
  induction hs generalizing c with
  | last =>
    subst ha
    exact hC.change hc _ _
  | through _ _ ih => exact ih hc ha
  | @create a b h key k keys slots _ _ ih =>
    subst ha
    have hnew := hC.change (hC.allocation hc) h (·.insert key (.array c.arrays.allocate.1))
    have hrest := ih hnew rfl
    exact hrest

theorem store (name : String) (keys : List Key) (v : Value) (line : Nat) :
    C.Keeps (Machine.store name keys v line) := by
  intro c hc
  obtain ⟨c', hok, hstored⟩ := store_ok (hC.tidy hc) name keys v line
  rw [hok]
  cases hstored with
  | plain => exact .ok trivial (hC.same hc rfl rfl rfl)
  | entry hs => exact .ok trivial (hC.context_stores hs (hC.context_arrayOf hc name) rfl)

theorem clear (name : String) (key : Option Key) (line : Nat) :
    C.Keeps (Machine.clear name key line) := by
  intro c hc
  rw [clear_ok (hC.tidy hc) name key line]
  cases key with
  | none => exact .ok trivial (hC.same (hC.allocation hc) rfl rfl rfl)
  | some k => exact .ok trivial (hC.change (hC.context_arrayOf hc name) _ _)

theorem callNative {key : CallKey} {f : Native σ} (vs : List Value) {l : Nat} (hl : C.line l)
    (hc : C.context c) (hf : c.native? key = some f) :
    C.Outcome (fun _ => True) (Machine.callNative f key vs l c) := by
  rw [Machine.callNative]
  rcases hresult : f vs c.host with ⟨v | e, host⟩
  · exact .raised (hC.native hc hf hresult hl) (hC.same hc rfl rfl rfl)
  · exact .ok trivial (hC.same hc rfl rfl rfl)

theorem context_leave (hc : C.context c) : C.context c.leave := by
  refine hC.same hc c.arrays_leave ?_ c.natives_leave
  rw [Context.leave]
  split <;> rfl

/-- A call passes on what its body comes to; its frames are left in any case. -/
theorem inCall {body : Machine σ Flow} (hbody : C.Meets C.Passes body) (frame : Frame) {l : Nat}
    (hl : C.line l) : C.Keeps (Machine.inCall frame l body) := by
  intro c hc
  rcases Nat.lt_or_ge c.callDepth c.limits.callDepth with hd | hd
  · rw [inCall_of_lt hd]
    have h := hbody (c.enter frame) (hC.same hc rfl rfl rfl)
    cases hctx : body (c.enter frame) with
    | ok flow c' =>
      rw [hctx] at h
      cases h with
      | ok hflow hc' =>
        have hleave := hC.context_leave hc'
        cases flow with
        | next => exact .ok trivial hleave
        | return_ v => exact .ok trivial hleave
        | abort l => exact .raised (hC.aborted hleave (hflow l rfl)) hleave
    | error e c' =>
      rw [hctx] at h
      cases h with
      | raised he hc' => exact .raised (hC.leave he) (hC.context_leave hc')
      | outOfFuel hc' => exact .outOfFuel (hC.context_leave hc')
  · rw [inCall_of_le hd]
    exact .raised (hC.fault hc ⟨nofun, nofun⟩ hl) hc

end Lawful

/-! ## Runs -/

/-- With this fuel every run meets the contract, if the lines in it are lines of the contract. -/
structure RunsMeet (C : Contract σ) (fuel : Nat) : Prop where
  eval : ∀ e : Expr, (∀ l ∈ e.lines, C.line l) → C.Keeps (eval fuel e)
  evalAll : ∀ es, (∀ l ∈ Expr.linesAll es, C.line l) → C.Keeps (evalAll fuel es)
  evalKeys : ∀ es line, (∀ l ∈ Expr.linesAll es, C.line l) → C.line line →
    C.Keeps (evalKeys fuel es line)
  evalNumber : ∀ (e : Expr) line, (∀ l ∈ e.lines, C.line l) → C.line line →
    C.Keeps (evalNumber fuel e line)
  renderAll : ∀ es, (∀ l ∈ Expr.linesAll es, C.line l) → C.Keeps (renderAll fuel es)
  call : ∀ name vs line, C.line line → C.Keeps (call fuel name vs line)
  exec : ∀ s : Statement, (∀ l ∈ s.lines, C.line l) → (∀ l ∈ s.aborts, C.abort l) →
    C.Meets C.Passes (exec fuel s)
  block : ∀ ss, (∀ l ∈ Statement.linesAll ss, C.line l) →
    (∀ l ∈ Statement.abortsAll ss, C.abort l) → C.Meets C.Passes (block fuel ss)
  whileLoop : ∀ (condition : Expr) body line passes, (∀ l ∈ condition.lines, C.line l) →
    (∀ l ∈ Statement.linesAll body, C.line l) → (∀ l ∈ Statement.abortsAll body, C.abort l) →
    C.line line → C.Meets C.Passes (whileLoop fuel condition body line passes)
  forLoop : ∀ counter last step up body line passes, (∀ l ∈ Statement.linesAll body, C.line l) →
    (∀ l ∈ Statement.abortsAll body, C.abort l) → C.line line →
    C.Meets C.Passes (forLoop fuel counter last step up body line passes)

namespace Lawful

variable (hC : C.Lawful) {fuel : Nat} (ih : C.RunsMeet fuel)
include hC ih

theorem keeps_eval (e : Expr) (he : ∀ l ∈ e.lines, C.line l) : C.Keeps (eval (fuel + 1) e) := by
  cases e with
    (simp only [Expr.lines, List.forall_mem_cons, List.forall_mem_append] at he; simp only [eval])
  | literal => exact keeps_pure _
  | name name => exact keeps_readVariable name
  | index target key line =>
    refine (ih.eval target he.2.1).bind fun t _ => ?_
    refine (ih.eval key he.2.2).bind fun k _ => ?_
    exact hC.readEntry t k he.1
  | unary op operand line =>
    refine (ih.eval operand he.2).bind fun v _ => ?_
    exact hC.onLine (Value.faults_unary op v) he.1
  | binary op left right line =>
    refine (ih.eval left he.2.1).bind fun a _ => ?_
    refine (ih.eval right he.2.2).bind fun b _ => ?_
    exact hC.onLine (Value.faults_binary op a b) he.1
  | call name arguments line =>
    exact (ih.evalAll arguments he.2).bind fun vs _ => ih.call name vs line he.1

omit hC in
theorem keeps_evalAll (es : List Expr) (hes : ∀ l ∈ Expr.linesAll es, C.line l) :
    C.Keeps (evalAll (fuel + 1) es) := by
  cases es with simp only [evalAll]
  | nil => exact keeps_pure _
  | cons e es =>
    simp only [Expr.linesAll, List.forall_mem_append] at hes
    refine (ih.eval e hes.1).bind fun v _ => ?_
    exact (ih.evalAll es hes.2).bind fun vs _ => keeps_pure _

theorem keeps_evalKeys (es : List Expr) (line : Nat) (hes : ∀ l ∈ Expr.linesAll es, C.line l)
    (hline : C.line line) : C.Keeps (evalKeys (fuel + 1) es line) := by
  cases es with simp only [evalKeys]
  | nil => exact keeps_pure _
  | cons e es =>
    simp only [Expr.linesAll, List.forall_mem_append] at hes
    refine (ih.eval e hes.1).bind fun v _ => ?_
    refine (hC.onLine (Key.faults_ofValue v) hline).bind fun k _ => ?_
    exact (ih.evalKeys es line hes.2 hline).bind fun ks _ => keeps_pure _

theorem keeps_evalNumber (e : Expr) (line : Nat) (he : ∀ l ∈ e.lines, C.line l)
    (hline : C.line line) : C.Keeps (evalNumber (fuel + 1) e line) := by
  rw [evalNumber]
  exact (ih.eval e he).bind fun v _ => hC.onLine v.faults_toNumber hline

omit hC in
theorem keeps_renderAll (es : List Expr) (hes : ∀ l ∈ Expr.linesAll es, C.line l) :
    C.Keeps (renderAll (fuel + 1) es) := by
  cases es with simp only [renderAll]
  | nil => exact keeps_pure _
  | cons e es =>
    simp only [Expr.linesAll, List.forall_mem_append] at hes
    refine (ih.eval e hes.1).bind fun v _ => ?_
    refine keeps_get.bind fun c _ => ?_
    exact (ih.renderAll es hes.2).bind fun texts _ => keeps_pure _

theorem keeps_call (name : String) (vs : List Value) (line : Nat) (hline : C.line line) :
    C.Keeps (call (fuel + 1) name vs line) := by
  intro c hc
  simp only [call]
  rw [bind_of_ok (m := get) rfl]
  cases hs : findSubroutine? c.subroutines ⟨name, vs.length⟩ with
  | some s =>
    obtain ⟨hlines, haborts⟩ := hC.body hc hs
    exact hC.inCall (ih.block s.body hlines haborts) _ hline c hc
  | none =>
    cases hf : c.native? ⟨name, vs.length⟩ with
    | some f => exact hC.callNative vs hline hc hf
    | none =>
      cases hr : builtin? c.arrays name vs with
      | some r => exact hC.onLine (faults_builtin? hr) hline c hc
      | none =>
        have hf := Fault.ordinary_unknownCallable ⟨name, vs.length⟩
        exact hC.raise hf hline c hc

omit hC in
theorem meets_block (ss : List Statement) (hlines : ∀ l ∈ Statement.linesAll ss, C.line l)
    (haborts : ∀ l ∈ Statement.abortsAll ss, C.abort l) :
    C.Meets C.Passes (block (fuel + 1) ss) := by
  cases ss with simp only [block]
  | nil => exact meets_pure passes_next
  | cons s ss =>
    simp only [Statement.linesAll, Statement.abortsAll, List.forall_mem_append] at hlines haborts
    refine (ih.exec s hlines.1 haborts.1).bind fun flow hflow => ?_
    split
    · exact ih.block ss hlines.2 haborts.2
    · exact meets_pure hflow

section
variable (body : List Statement) (line : Nat) (passes : UInt64)
  (hlines : ∀ l ∈ Statement.linesAll body, C.line l)
  (haborts : ∀ l ∈ Statement.abortsAll body, C.abort l) (hline : C.line line)
include hlines haborts hline

theorem meets_whileLoop (condition : Expr) (hcondition : ∀ l ∈ condition.lines, C.line l) :
    C.Meets C.Passes (whileLoop (fuel + 1) condition body line passes) := by
  simp only [whileLoop]
  refine (ih.eval condition hcondition).bind fun v _ => ?_
  split
  · refine (hC.countPass passes hline).bind fun n _ => ?_
    refine (ih.block body hlines haborts).bind fun flow hflow => ?_
    split
    · exact ih.whileLoop condition body line n hcondition hlines haborts hline
    · exact meets_pure hflow
  · exact meets_pure passes_next

theorem meets_forLoop (counter : String) (last step : Value) (up : Bool) :
    C.Meets C.Passes (forLoop (fuel + 1) counter last step up body line passes) := by
  simp only [forLoop]
  refine (keeps_readVariable counter).bind fun current _ => ?_
  refine (hC.onLine (faults_counts up current last) hline).bind fun go _ => ?_
  split
  · refine (hC.countPass passes hline).bind fun n _ => ?_
    refine (ih.block body hlines haborts).bind fun flow hflow => ?_
    split
    · refine (keeps_readVariable counter).bind fun current _ => ?_
      refine (hC.onLine (Value.faults_arithmetic .add current step) hline).bind fun v _ => ?_
      refine (hC.setVariable counter v).bind fun _ _ => ?_
      exact ih.forLoop counter last step up body line n hlines haborts hline
    · exact meets_pure hflow
  · exact meets_pure passes_next

end

theorem meets_exec (s : Statement) (hlines : ∀ l ∈ s.lines, C.line l)
    (haborts : ∀ l ∈ s.aborts, C.abort l) : C.Meets C.Passes (exec (fuel + 1) s) := by
  have next : C.Meets C.Passes (pure (f := Machine σ) Flow.next) := meets_pure passes_next
  cases s with
  | assign name indices value line =>
    simp only [Statement.lines, List.forall_mem_cons, List.forall_mem_append] at hlines
    obtain ⟨hline, hindices, hvalue⟩ := hlines
    simp only [exec]
    refine (ih.evalKeys indices line hindices hline).bind fun keys _ => ?_
    refine (ih.eval value hvalue).bind fun v _ => ?_
    exact (hC.store name keys v line).bind fun _ _ => next
  | dim name key line =>
    cases key with
      (simp only [Statement.lines, Expr.linesOption, List.forall_mem_cons] at hlines
       simp only [exec])
    | none => exact (hC.clear name none line).bind fun _ _ => next
    | some key =>
      refine (ih.eval key hlines.2).bind fun v _ => ?_
      refine (hC.onLine (Key.faults_ofValue v) hlines.1).bind fun k _ => ?_
      exact (hC.clear name (some k) line).bind fun _ _ => next
  | if_ condition thenBody elseBody line =>
    simp only [exec]
    cases elseBody with
    | none =>
      simp only [Statement.lines, List.forall_mem_cons, List.forall_mem_append] at hlines
      refine (ih.eval condition hlines.2.1).bind fun v _ => ?_
      split
      · exact ih.block thenBody hlines.2.2 haborts
      · exact ih.block [] (List.forall_mem_nil _) (List.forall_mem_nil _)
    | some elseBody =>
      simp only [Statement.lines, Statement.aborts, List.forall_mem_cons,
        List.forall_mem_append] at hlines haborts
      refine (ih.eval condition hlines.2.1.1).bind fun v _ => ?_
      split
      · exact ih.block thenBody hlines.2.1.2 haborts.1
      · exact ih.block elseBody hlines.2.2 haborts.2
  | while_ condition body line =>
    simp only [Statement.lines, List.forall_mem_cons, List.forall_mem_append] at hlines
    obtain ⟨hline, hcondition, hbody⟩ := hlines
    simp only [exec]
    exact ih.whileLoop condition body line 0 hcondition hbody haborts hline
  | for_ counter first last step body line =>
    simp only [Statement.lines, List.forall_mem_cons, List.forall_mem_append] at hlines
    obtain ⟨hline, ⟨⟨hfirst, hlast⟩, hstep⟩, hbody⟩ := hlines
    simp only [exec]
    refine (ih.evalNumber first line hfirst hline).bind fun a _ => ?_
    refine (hC.setVariable counter _).bind fun _ _ => ?_
    refine (ih.evalNumber last line hlast hline).bind fun b _ => ?_
    have rest : ∀ k : Number, C.Meets C.Passes (Machine.onLine line (ascending k) >>= fun up =>
        forLoop fuel counter b.toValue k.toValue up body line 0) := fun k =>
      (hC.onLine (faults_ascending k) hline).bind fun up _ =>
        ih.forLoop counter _ _ up body line 0 hbody haborts hline
    cases step with
    | none => exact (keeps_pure _).bind fun k _ => rest k
    | some step => exact (ih.evalNumber step line hstep hline).bind fun k _ => rest k
  | return_ value line =>
    cases value with
      (simp only [Statement.lines, Expr.linesOption, List.forall_mem_cons] at hlines
       simp only [exec])
    | none => exact meets_pure (passes_return _)
    | some value => exact (ih.eval value hlines.2).bind fun v _ => meets_pure (passes_return v)
  | call name arguments line =>
    simp only [Statement.lines, List.forall_mem_cons] at hlines
    simp only [exec]
    refine (ih.evalAll arguments hlines.2).bind fun vs _ => ?_
    exact (ih.call name vs line hlines.1).bind fun _ _ => next
  | print arguments line =>
    simp only [Statement.lines, List.forall_mem_cons] at hlines
    simp only [exec]
    refine (ih.renderAll arguments hlines.2).bind fun texts _ => ?_
    exact (hC.emit _).bind fun _ _ => next
  | command name arguments line =>
    simp only [Statement.lines, List.forall_mem_cons] at hlines
    simp only [exec]
    refine (ih.evalAll arguments hlines.2).bind fun vs _ => ?_
    exact (hC.emit _).bind fun _ _ => next
  | abort line =>
    simp only [exec]
    refine meets_pure ?_
    rintro _ ⟨⟩
    exact haborts line (List.mem_singleton.2 rfl)
  | remark content line =>
    simp only [exec]
    exact (hC.emit _).bind fun _ _ => next

omit ih in
/-- **Every run meets a lawful contract**, if the lines in it are lines of the contract. -/
theorem runs (fuel : Nat) : C.RunsMeet fuel := by
  induction fuel with
  | zero =>
    have hout : ∀ {α} (Q : α → Prop), C.Meets Q (throw .outOfFuel) := fun _ _ hc => .outOfFuel hc
    constructor <;> intros <;>
      simp only [eval, evalAll, evalKeys, evalNumber, renderAll, call, exec, block, whileLoop,
        forLoop, hout]
  | succ fuel ih =>
    exact
      { eval := hC.keeps_eval ih
        evalAll := keeps_evalAll ih
        evalKeys := hC.keeps_evalKeys ih
        evalNumber := hC.keeps_evalNumber ih
        renderAll := keeps_renderAll ih
        call := hC.keeps_call ih
        exec := hC.meets_exec ih
        block := meets_block ih
        whileLoop := fun condition body line passes hcondition hlines haborts hline =>
          hC.meets_whileLoop ih body line passes hlines haborts hline condition hcondition
        forLoop := fun counter last step up body line passes hlines haborts hline =>
          hC.meets_forLoop ih body line passes hlines haborts hline counter last step up }

/-! ## Programs -/

section
variable {p : Program} {c' : Context σ} (hload : C.context (c.load p))
  (hlines : ∀ l ∈ Statement.linesAll p.statements, C.line l)
  (haborts : ∀ l ∈ Statement.abortsAll p.statements, C.abort l)
include hload hlines haborts

omit ih in
/-- A program leaves a good context. -/
theorem context_execute (fuel : Nat) : C.context (after (execute fuel p) c) := by
  have h := (hC.runs fuel).block p.statements hlines haborts _ hload
  rw [after, execute_eq]
  cases hrun : block fuel p.statements (c.load p) with
  | ok flow c₁ =>
    rw [hrun] at h
    cases h with
    | ok _ hc => cases flow <;> exact hC.same hc rfl rfl rfl
  | error e c₁ =>
    rw [hrun] at h
    cases h with
    | outOfFuel hc => exact hc
    | @raised e c₁ _ hc =>
      obtain ⟨fault, line⟩ := e
      cases fault <;> exact hC.same hc rfl rfl rfl

omit ih in
/-- An error that ends a program is one of the contract and no `ABORT`; it is shown to the host. -/
theorem error_of_execute {e : RuntimeError} (h : execute fuel p c = .error (.raised e) c') :
    e.fault ≠ .aborted ∧ ∃ c₁, C.error e c₁ ∧ c' = c₁.resetFrames.emit (.error e.message) := by
  have hblock := (hC.runs fuel).block p.statements hlines haborts _ hload
  rw [execute_eq] at h
  cases hrun : block fuel p.statements (c.load p) with
  | ok flow c₁ =>
    rw [hrun] at h
    cases flow <;> cases h
  | error e₁ c₁ =>
    rw [hrun] at h hblock
    cases hblock with
    | outOfFuel hc => cases h
    | @raised e₁ c₁ he hc =>
      obtain ⟨fault, line⟩ := e₁
      cases fault <;> cases h <;> exact ⟨nofun, c₁, he, rfl⟩

omit ih in
/-- A program stops at an `ABORT` of the contract: one outside of calls, or one that a call passed
on. -/
theorem abort_of_execute {l : Nat} (h : execute fuel p c = .ok (.aborted l) c') :
    C.abort l ∨ ∃ c₁, C.error ⟨.aborted, l⟩ c₁ := by
  have hblock := (hC.runs fuel).block p.statements hlines haborts _ hload
  rw [execute_eq] at h
  cases hrun : block fuel p.statements (c.load p) with
  | ok flow c₁ =>
    rw [hrun] at h hblock
    cases hblock with
    | ok hflow hc =>
      cases flow with
      | abort l => cases h; exact .inl (hflow l rfl)
      | _ => cases h
  | error e₁ c₁ =>
    rw [hrun] at h hblock
    cases hblock with
    | outOfFuel hc => cases h
    | @raised e₁ c₁ he hc =>
      obtain ⟨fault, line⟩ := e₁
      cases fault <;> cases h
      exact .inr ⟨c₁, he⟩

end

end Lawful

end Contract

end BasicScript
