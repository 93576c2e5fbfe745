/-
  Whole runs side by side.

  * `S.Admits free`: the left run is free of joins, or references are related to themselves only, so
    that joining tells nothing apart.
  * `RunsAgree S fuel`: with this fuel every two runs of one expression, statement or call agree.
  * `Lawful.runs`: so it is, for every lawful simulation and whatever the fuel.
  * `Lawful.execute`: so do two runs of one program.
-/
import BasicScript.Proofs.Machine.Simulation

namespace BasicScript

variable {σ α : Type}

namespace Simulation

/-- Joins are told apart by the simulation, or there are none. -/
def Admits (S : Simulation σ) (free : Bool) : Prop := S.Exact ∨ free = true

section
variable {S : Simulation σ} {free free' : Bool} {m : Machine σ α} {c c₁ : Context σ} {a : α}
  {test : α → Context σ → Bool}

theorem Admits.left (h : S.Admits (free && free')) : S.Admits free :=
  h.imp_right fun h => (Bool.and_eq_true_iff.1 h).1

theorem Admits.right (h : S.Admits (free && free')) : S.Admits free' :=
  h.imp_right fun h => (Bool.and_eq_true_iff.1 h).2

theorem Admits.next (h : S.Admits (Machine.passes m c test)) (hm : m c = .ok a c₁) :
    S.Admits (test a c₁) := by
  rwa [Machine.passes_of_ok hm] at h

end

/-- With this fuel two runs of the same agree. -/
structure RunsAgree (S : Simulation σ) (fuel : Nat) : Prop where
  eval : ∀ {w c c'} e, S.context w c c' → S.Admits (JoinFree.eval fuel e c) →
    S.Agree w S.value (Machine.eval fuel e c) (Machine.eval fuel e c')
  evalAll : ∀ {w c c'} es, S.context w c c' → S.Admits (JoinFree.evalAll fuel es c) →
    S.Agree w S.values (Machine.evalAll fuel es c) (Machine.evalAll fuel es c')
  evalKeys : ∀ {w c c'} es line, S.context w c c' → S.Admits (JoinFree.evalKeys fuel es line c) →
    S.Agree w (fun _ => Eq) (Machine.evalKeys fuel es line c) (Machine.evalKeys fuel es line c')
  evalNumber : ∀ {w c c'} e line, S.context w c c' → S.Admits (JoinFree.evalNumber fuel e c) →
    S.Agree w (fun _ => Eq) (Machine.evalNumber fuel e line c) (Machine.evalNumber fuel e line c')
  renderAll : ∀ {w c c'} es, S.context w c c' → S.Admits (JoinFree.renderAll fuel es c) →
    S.Agree w (fun _ => Eq) (Machine.renderAll fuel es c) (Machine.renderAll fuel es c')
  call : ∀ {w c c' vs vs'} name line, S.context w c c' → S.values w vs vs' →
    S.Admits (JoinFree.call fuel name vs c) →
    S.Agree w S.value (Machine.call fuel name vs line c) (Machine.call fuel name vs' line c')
  exec : ∀ {w c c'} s, S.context w c c' → S.Admits (JoinFree.exec fuel s c) →
    S.Agree w (fun w => Flow.Related (S.handle w)) (Machine.exec fuel s c) (Machine.exec fuel s c')
  block : ∀ {w c c'} ss, S.context w c c' → S.Admits (JoinFree.block fuel ss c) →
    S.Agree w (fun w => Flow.Related (S.handle w)) (Machine.block fuel ss c)
      (Machine.block fuel ss c')
  whileLoop : ∀ {w c c'} condition body line count, S.context w c c' →
    S.Admits (JoinFree.whileLoop fuel condition body line count c) →
    S.Agree w (fun w => Flow.Related (S.handle w))
      (Machine.whileLoop fuel condition body line count c)
      (Machine.whileLoop fuel condition body line count c')
  forLoop : ∀ {w c c'} counter (last step : Number) up body line count, S.context w c c' →
    S.Admits (JoinFree.forLoop fuel counter last.toValue step.toValue up body line count c) →
    S.Agree w (fun w => Flow.Related (S.handle w))
      (Machine.forLoop fuel counter last.toValue step.toValue up body line count c)
      (Machine.forLoop fuel counter last.toValue step.toValue up body line count c')

section
variable {S : Simulation σ} (hS : S.Lawful) {fuel : Nat} (ih : S.RunsAgree fuel) {w : S.World}
  {c c' : Context σ} (hc : S.context w c c')
include hS

/-- The result of an operator is the same in both runs and no array. -/
theorem Lawful.onLine_plain (hc : S.context w c c') {r r' : Except Fault Value} (hr : r = r')
    (hplain : Value.Plain r) (line : Nat) :
    S.Agree w S.value (Machine.onLine line r c) (Machine.onLine line r' c') :=
  hS.onLine hc hr line fun v hv => .same (hplain v hv)

include ih hc

theorem Lawful.agree_eval (e : Expr) (hj : S.Admits (JoinFree.eval (fuel + 1) e c)) :
    S.Agree w S.value (Machine.eval (fuel + 1) e c) (Machine.eval (fuel + 1) e c') := by
  cases e with simp only [Machine.eval, JoinFree.eval] at hj ⊢
  | literal value line =>
    refine hS.pure hc (.same ?_)
    cases value <;> rfl
  | name name line => exact hS.readVariable hc name
  | index target key line =>
    refine hS.bind (ih.eval target hc hj.left) fun w₁ t t' c₁ c₁' hrun _ hc ht => ?_
    refine hS.bind (ih.eval key hc (hj.right.next hrun)) fun w₂ k k' c₂ c₂' _ hw hc hk => ?_
    exact hS.readEntry hc (hS.value_mono hw ht) hk line
  | unary op operand line =>
    refine hS.bind (ih.eval operand hc hj) fun w₁ v v' c₁ c₁' _ _ hc hv => ?_
    exact hS.onLine_plain hc (hv.unary_eq op) (Value.plain_unary op v) line
  | binary op left right line =>
    refine hS.bind (ih.eval left hc hj.left) fun w₁ a a' c₁ c₁' hrun _ hc ha => ?_
    have hj := hj.right.next hrun
    refine hS.bind (ih.eval right hc hj.left) fun w₂ b b' c₂ c₂' hrun hw hc hb => ?_
    have ha := hS.value_mono hw ha
    refine hS.onLine_plain hc ?_ (Value.plain_binary op a b) line
    rcases hj.right.next hrun with hexact | hfree
    · rw [ha.eq (hexact w₂), hb.eq (hexact w₂)]
    · refine ha.binary_eq (hS.oneToOne hc) hb ?_
      rintro ⟨rfl, hjoins⟩
      simp [hjoins] at hfree
  | call name arguments line =>
    refine hS.bind (ih.evalAll arguments hc hj.left) fun w₁ vs vs' c₁ c₁' hrun _ hc hvs => ?_
    exact ih.call name line hc hvs (hj.right.next hrun)

theorem Lawful.agree_evalAll (es : List Expr) (hj : S.Admits (JoinFree.evalAll (fuel + 1) es c)) :
    S.Agree w S.values (Machine.evalAll (fuel + 1) es c) (Machine.evalAll (fuel + 1) es c') := by
  cases es with simp only [Machine.evalAll, JoinFree.evalAll] at hj ⊢
  | nil => exact hS.pure hc .nil
  | cons e es =>
    refine hS.bind (ih.eval e hc hj.left) fun w₁ v v' c₁ c₁' hrun _ hc hv => ?_
    refine hS.bind (ih.evalAll es hc (hj.right.next hrun)) fun w₂ vs vs' c₂ c₂' _ hw hc hvs => ?_
    exact hS.pure hc (.cons (hS.value_mono hw hv) hvs)

theorem Lawful.agree_evalKeys (es : List Expr) (line : Nat)
    (hj : S.Admits (JoinFree.evalKeys (fuel + 1) es line c)) :
    S.Agree w (fun _ => Eq) (Machine.evalKeys (fuel + 1) es line c)
      (Machine.evalKeys (fuel + 1) es line c') := by
  cases es with simp only [Machine.evalKeys, JoinFree.evalKeys] at hj ⊢
  | nil => exact hS.pure hc rfl
  | cons e es =>
    refine hS.bind (ih.eval e hc hj.left) fun w₁ v v' c₁ c₁' hrun _ hc hv => ?_
    have hkey := hS.onLine (P := fun _ => Eq) hc hv.key_eq line fun _ _ => rfl
    refine hS.bind hkey ?_
    rintro w₂ key _ c₂ c₂' hkey - hc rfl
    have hj := (hj.right.next hrun).next hkey
    refine hS.bind (ih.evalKeys es line hc hj) ?_
    rintro w₃ keys _ c₃ c₃' - - hc rfl
    exact hS.pure hc rfl

theorem Lawful.agree_evalNumber (e : Expr) (line : Nat)
    (hj : S.Admits (JoinFree.evalNumber (fuel + 1) e c)) :
    S.Agree w (fun _ => Eq) (Machine.evalNumber (fuel + 1) e line c)
      (Machine.evalNumber (fuel + 1) e line c') := by
  simp only [Machine.evalNumber, JoinFree.evalNumber] at hj ⊢
  refine hS.bind (ih.eval e hc hj) fun w₁ v v' c₁ c₁' _ _ hc hv => ?_
  exact hS.onLine hc hv.toNumber_eq line fun _ _ => rfl

theorem Lawful.agree_renderAll (es : List Expr)
    (hj : S.Admits (JoinFree.renderAll (fuel + 1) es c)) :
    S.Agree w (fun _ => Eq) (Machine.renderAll (fuel + 1) es c)
      (Machine.renderAll (fuel + 1) es c') := by
  cases es with simp only [Machine.renderAll, JoinFree.renderAll] at hj ⊢
  | nil => exact hS.pure hc rfl
  | cons e es =>
    refine hS.bind (ih.eval e hc hj.left) fun w₁ v v' c₁ c₁' hrun _ hc hv => ?_
    rw [bind_of_ok (m := get) rfl, bind_of_ok (m := get) rfl, hS.render hc hv]
    refine hS.bind (ih.renderAll es hc (hj.right.next hrun)) ?_
    rintro w₂ texts _ c₂ c₂' - - hc rfl
    exact hS.pure hc rfl

theorem Lawful.agree_call {vs vs' : List Value} (name : String) (line : Nat)
    (hvs : S.values w vs vs') (hj : S.Admits (JoinFree.call (fuel + 1) name vs c)) :
    S.Agree w S.value (Machine.call (fuel + 1) name vs line c)
      (Machine.call (fuel + 1) name vs' line c') := by
  simp only [Machine.call, JoinFree.call] at hj ⊢
  rw [bind_of_ok (m := get) rfl, bind_of_ok (m := get) rfl, ← hS.subroutines hc,
    ← List.Forall₂.length_eq hvs,
    ← Machine.builtin?_eq (fun h k hk => hS.arrays hc hk) hvs name]
  cases hs : findSubroutine? c.subroutines ⟨name, vs.length⟩ with
  | some s =>
    rw [hs] at hj
    refine hS.inCall hc s.params hvs line fun hd w₁ hc₁ => ih.block s.body hc₁ ?_
    have hallowed : ¬ c.limits.callDepth ≤ c.callDepth := Nat.not_le.2 hd
    simpa [hallowed] using hj
  | none =>
    rcases hS.native hc ⟨name, vs.length⟩ with ⟨hnone, hnone'⟩ | ⟨f, f', hf, hf', hagree⟩
    · rw [hnone, hnone']
      cases hbuiltin : Machine.builtin? c.arrays name vs with
      | some r => exact hS.onLine_plain hc rfl (Machine.plain_builtin? hbuiltin) line
      | none => exact hS.raise hc _ line
    · rw [hf, hf']
      exact hagree vs vs' line hvs

theorem Lawful.agree_block (ss : List Statement)
    (hj : S.Admits (JoinFree.block (fuel + 1) ss c)) :
    S.Agree w (fun w => Flow.Related (S.handle w)) (Machine.block (fuel + 1) ss c)
      (Machine.block (fuel + 1) ss c') := by
  cases ss with simp only [Machine.block, JoinFree.block] at hj ⊢
  | nil => exact hS.pure hc .next
  | cons s ss =>
    refine hS.bind (ih.exec s hc hj.left) fun w₁ flow flow' c₁ c₁' hrun _ hc hflow => ?_
    have hj := hj.right.next hrun
    cases hflow with
    | next => exact ih.block ss hc hj
    | return_ hv => exact hS.pure hc (.return_ hv)
    | abort l => exact hS.pure hc (.abort l)

theorem Lawful.agree_whileLoop (condition : Expr) (body : List Statement) (line : Nat)
    (count : UInt64) (hj : S.Admits (JoinFree.whileLoop (fuel + 1) condition body line count c)) :
    S.Agree w (fun w => Flow.Related (S.handle w))
      (Machine.whileLoop (fuel + 1) condition body line count c)
      (Machine.whileLoop (fuel + 1) condition body line count c') := by
  simp only [Machine.whileLoop, JoinFree.whileLoop] at hj ⊢
  refine hS.bind (ih.eval condition hc hj.left) fun w₁ v v' c₁ c₁' hrun _ hc hv => ?_
  have hj := hj.right.next hrun
  rw [← hv.truthy_eq]
  cases hv : v.truthy with
  | false => exact hS.pure hc .next
  | true =>
    rw [hv, Bool.not_true, Bool.false_or] at hj
    refine hS.bind (hS.pass hc count line) ?_
    rintro w₂ count _ c₂ c₂' hrun - hc rfl
    have hj := hj.next hrun
    refine hS.bind (ih.block body hc hj.left) fun w₃ flow flow' c₃ c₃' hrun _ hc hflow => ?_
    have hj := hj.right.next hrun
    cases hflow with
    | next => exact ih.whileLoop condition body line count hc hj
    | return_ hv => exact hS.pure hc (.return_ hv)
    | abort l => exact hS.pure hc (.abort l)

theorem Lawful.agree_forLoop (counter : String) (last step : Number) (up : Bool)
    (body : List Statement) (line : Nat) (count : UInt64)
    (hj : S.Admits (JoinFree.forLoop (fuel + 1) counter last.toValue step.toValue up body line
      count c)) :
    S.Agree w (fun w => Flow.Related (S.handle w))
      (Machine.forLoop (fuel + 1) counter last.toValue step.toValue up body line count c)
      (Machine.forLoop (fuel + 1) counter last.toValue step.toValue up body line count c') := by
  simp only [Machine.forLoop, JoinFree.forLoop] at hj ⊢
  refine hS.bind (hS.readVariable hc counter) fun w₁ current current' c₁ c₁' hrun _ hc hv => ?_
  have hj := hj.next hrun
  have hcounts := Machine.counts_eq (hS.oneToOne hc) hv (.same last.handle?_toValue) up
  refine hS.bind (hS.onLine (P := fun _ => Eq) hc hcounts line fun _ _ => rfl) ?_
  rintro w₂ go _ c₂ c₂' hrun - hc rfl
  have hj := hj.next hrun
  cases go with
  | false => exact hS.pure hc .next
  | true =>
    rw [Bool.not_true, Bool.false_or] at hj
    refine hS.bind (hS.pass hc count line) ?_
    rintro w₃ count _ c₃ c₃' hrun - hc rfl
    have hj := hj.next hrun
    refine hS.bind (ih.block body hc hj.left) fun w₄ flow flow' c₄ c₄' hrun _ hc hflow => ?_
    have hj := hj.right.next hrun
    cases hflow with
    | next =>
      refine hS.bind (hS.readVariable hc counter) fun w₅ current current' c₅ c₅' hrun _ hc hv => ?_
      have hj := hj.next hrun
      -- the step is a number, so that adding it joins nothing
      have hjoins : ¬ (BinaryOp.add = .add ∧ current.joins step.toValue = true) := by
        simp [step.joins_toValue]
      have hsum := hv.arithmetic_eq (.same step.handle?_toValue) hjoins
      refine hS.bind (hS.onLine_plain hc hsum (Value.plain_arithmetic _ _ _) line)
        fun w₆ next next' c₆ c₆' hrun _ hc hnext => ?_
      have hj := hj.next hrun
      refine hS.bind (hS.setVariable hc counter hnext) fun w₇ _ _ c₇ c₇' hset _ hc _ => ?_
      cases hset
      exact ih.forLoop counter last step up body line count hc hj
    | return_ hv => exact hS.pure hc (.return_ hv)
    | abort l => exact hS.pure hc (.abort l)

/-- A loop whose step is known. -/
theorem Lawful.agree_ascending (counter : String) (last step : Number) (body : List Statement)
    (line : Nat)
    (hj : S.Admits (Machine.passes (Machine.onLine line (Machine.ascending step)) c fun up c =>
      JoinFree.forLoop fuel counter last.toValue step.toValue up body line 0 c)) :
    S.Agree w (fun w => Flow.Related (S.handle w))
      ((Machine.onLine line (Machine.ascending step) >>= fun up =>
        Machine.forLoop fuel counter last.toValue step.toValue up body line 0) c)
      ((Machine.onLine line (Machine.ascending step) >>= fun up =>
        Machine.forLoop fuel counter last.toValue step.toValue up body line 0) c') := by
  refine hS.bind (hS.onLine (P := fun _ => Eq) hc rfl line fun _ _ => rfl) ?_
  rintro w₁ up _ c₁ c₁' hrun - hc rfl
  exact ih.forLoop counter last step up body line 0 hc (hj.next hrun)

theorem Lawful.agree_for (counter : String) (first last : Expr) (step : Option Expr)
    (body : List Statement) (line : Nat)
    (hj : S.Admits (JoinFree.exec (fuel + 1) (.for_ counter first last step body line) c)) :
    S.Agree w (fun w => Flow.Related (S.handle w))
      (Machine.exec (fuel + 1) (.for_ counter first last step body line) c)
      (Machine.exec (fuel + 1) (.for_ counter first last step body line) c') := by
  simp only [Machine.exec, JoinFree.exec] at hj ⊢
  refine hS.bind (ih.evalNumber first line hc hj.left) ?_
  rintro w₁ a _ c₁ c₁' hrun - hc rfl
  have hj := hj.right.next hrun
  refine hS.bind (hS.setVariable hc counter (.same a.handle?_toValue))
    fun w₂ _ _ c₂ c₂' hset _ hc _ => ?_
  cases hset
  refine hS.bind (ih.evalNumber last line hc hj.left) ?_
  rintro w₃ b _ c₃ c₃' hrun - hc rfl
  have hj := hj.right.next hrun
  cases step with
  | none => exact hS.agree_ascending ih hc counter b (.integer 1) body line (hj.right.next rfl)
  | some step =>
    refine hS.bind (ih.evalNumber step line hc hj.left) ?_
    rintro w₄ k _ c₄ c₄' hrun - hc rfl
    exact hS.agree_ascending ih hc counter b k body line (hj.right.next hrun)

theorem Lawful.agree_exec (s : Statement) (hj : S.Admits (JoinFree.exec (fuel + 1) s c)) :
    S.Agree w (fun w => Flow.Related (S.handle w)) (Machine.exec (fuel + 1) s c)
      (Machine.exec (fuel + 1) s c') := by
  cases s with
  | assign name indices value line =>
    simp only [Machine.exec, JoinFree.exec] at hj ⊢
    refine hS.bind (ih.evalKeys indices line hc hj.left) ?_
    rintro w₁ keys _ c₁ c₁' hrun - hc rfl
    refine hS.bind (ih.eval value hc (hj.right.next hrun)) fun w₂ v v' c₂ c₂' _ _ hc hv => ?_
    refine hS.bind (hS.store hc name keys hv line) fun w₃ _ _ c₃ c₃' _ _ hc _ => ?_
    exact hS.pure hc .next
  | dim name key line =>
    cases key with simp only [Machine.exec, JoinFree.exec] at hj ⊢
    | none =>
      refine hS.bind (hS.clear hc name none line) fun w₁ _ _ c₁ c₁' _ _ hc _ => ?_
      exact hS.pure hc .next
    | some key =>
      refine hS.bind (ih.eval key hc hj) fun w₁ v v' c₁ c₁' _ _ hc hv => ?_
      refine hS.bind (hS.onLine (P := fun _ => Eq) hc hv.key_eq line fun _ _ => rfl) ?_
      rintro w₂ k _ c₂ c₂' - - hc rfl
      refine hS.bind (hS.clear hc name (some k) line) fun w₃ _ _ c₃ c₃' _ _ hc _ => ?_
      exact hS.pure hc .next
  | if_ condition thenBody elseBody line =>
    simp only [Machine.exec, JoinFree.exec] at hj ⊢
    refine hS.bind (ih.eval condition hc hj.left) fun w₁ v v' c₁ c₁' hrun _ hc hv => ?_
    have hj := hj.right.next hrun
    rw [← hv.truthy_eq]
    cases hv : v.truthy with
    | true =>
      rw [hv] at hj
      exact ih.block thenBody hc hj
    | false =>
      rw [hv] at hj
      exact ih.block (elseBody.getD []) hc hj
  | while_ condition body line =>
    simp only [Machine.exec, JoinFree.exec] at hj ⊢
    exact ih.whileLoop condition body line 0 hc hj
  | for_ counter first last step body line =>
    exact hS.agree_for ih hc counter first last step body line hj
  | return_ value line =>
    cases value with simp only [Machine.exec, JoinFree.exec] at hj ⊢
    | none => exact hS.pure hc (.return_ (.same rfl))
    | some value =>
      refine hS.bind (ih.eval value hc hj) fun w₁ v v' c₁ c₁' _ _ hc hv => ?_
      exact hS.pure hc (.return_ hv)
  | call name arguments line =>
    simp only [Machine.exec, JoinFree.exec] at hj ⊢
    refine hS.bind (ih.evalAll arguments hc hj.left) fun w₁ vs vs' c₁ c₁' hrun _ hc hvs => ?_
    refine hS.bind (ih.call name line hc hvs (hj.right.next hrun))
      fun w₂ v v' c₂ c₂' _ _ hc _ => ?_
    exact hS.pure hc .next
  | print arguments line =>
    simp only [Machine.exec, JoinFree.exec] at hj ⊢
    refine hS.bind (ih.renderAll arguments hc hj) ?_
    rintro w₁ texts _ c₁ c₁' - - hc rfl
    refine hS.bind (hS.emit hc (.print _)) fun w₂ _ _ c₂ c₂' _ _ hc _ => ?_
    exact hS.pure hc .next
  | command name arguments line =>
    simp only [Machine.exec, JoinFree.exec] at hj ⊢
    refine hS.bind (ih.evalAll arguments hc hj) fun w₁ vs vs' c₁ c₁' _ _ hc hvs => ?_
    refine hS.bind (hS.emit hc (.command name hvs)) fun w₂ _ _ c₂ c₂' _ _ hc _ => ?_
    exact hS.pure hc .next
  | abort line =>
    simp only [Machine.exec]
    exact hS.pure hc (.abort line)
  | remark content line =>
    simp only [Machine.exec, JoinFree.exec] at hj ⊢
    refine hS.bind (hS.emit hc (.log content)) fun w₁ _ _ c₁ c₁' _ _ hc _ => ?_
    exact hS.pure hc .next

end

/-- Without fuel both runs stop at once. -/
theorem Lawful.runs_zero {S : Simulation σ} (hS : S.Lawful) : S.RunsAgree 0 := by
  have hstop : ∀ {α β : Type} {w c c'} {P : S.World → α → β → Prop}, S.context w c c' →
      S.Agree w P ((throw .outOfFuel : Machine σ α) c) ((throw .outOfFuel : Machine σ β) c') :=
    fun hc => .error (hS.refl _) hc
  constructor <;> intros <;>
    simp only [Machine.eval, Machine.evalAll, Machine.evalKeys, Machine.evalNumber,
      Machine.renderAll, Machine.call, Machine.exec, Machine.block, Machine.whileLoop,
      Machine.forLoop, *]

/-- **Two runs of the same agree**, whatever lawful simulation relates the contexts in which they
begin, unless they join an array and a text. -/
theorem Lawful.runs {S : Simulation σ} (hS : S.Lawful) (fuel : Nat) : S.RunsAgree fuel := by
  induction fuel with
  | zero => exact hS.runs_zero
  | succ fuel ih =>
    exact
      { eval := fun e hc => hS.agree_eval ih hc e
        evalAll := fun es hc => hS.agree_evalAll ih hc es
        evalKeys := fun es line hc => hS.agree_evalKeys ih hc es line
        evalNumber := fun e line hc => hS.agree_evalNumber ih hc e line
        renderAll := fun es hc => hS.agree_renderAll ih hc es
        call := fun name line hc hvs => hS.agree_call ih hc name line hvs
        exec := fun s hc => hS.agree_exec ih hc s
        block := fun ss hc => hS.agree_block ih hc ss
        whileLoop := fun condition body line count hc =>
          hS.agree_whileLoop ih hc condition body line count
        forLoop := fun counter last step up body line count hc =>
          hS.agree_forLoop ih hc counter last step up body line count }

/-! ## Programs -/

/-- Programs come to the same if their statements do, and the frames of related contexts may be
dropped together. -/
theorem Lawful.conclude {S : Simulation σ} (hS : S.Lawful) {w : S.World}
    {r r' : EStateM.Result Stop (Context σ) Flow}
    (h : S.Agree w (fun w => Flow.Related (S.handle w)) r r')
    (hreset : ∀ w' c c', S.le w w' → S.context w' c c' →
      S.context w' c.resetFrames c'.resetFrames)
    (hexempt : ∀ e, S.exempt (.raised e) → e.fault ≠ .aborted) :
    S.Agree w (fun _ => Eq) (Machine.conclude r) (Machine.conclude r') := by
  cases h with
  | ok hw hc hflow =>
    cases hflow with
    | next | return_ | abort => exact .ok hw (hreset _ _ _ hw hc) rfl
  | @error w₁ e c c' hw hc =>
    cases e with
    | outOfFuel => exact .error hw hc
    | raised e =>
      simp only [Machine.conclude]
      split
      · exact .ok hw (hreset _ _ _ hw hc) rfl
      · exact .error hw (hS.event (hreset _ _ _ hw hc) (.error e.message))
  | @exempt e c _ he =>
    cases e with
    | outOfFuel => exact .exempt he
    | raised e =>
      simp only [Machine.conclude]
      split
      · exact absurd ‹_› (hexempt e he)
      · exact .exempt he

/-- Two runs of a program agree, if the contexts in which its statements begin are related and the
frames of related contexts may be dropped together. -/
theorem Lawful.execute {S : Simulation σ} (hS : S.Lawful) {w : S.World} {c c' : Context σ}
    (fuel : Nat) (p : Program) (hload : S.context w (c.load p) (c'.load p))
    (hreset : ∀ w c c', S.context w c c' → S.context w c.resetFrames c'.resetFrames)
    (hexempt : ∀ e, S.exempt (.raised e) → e.fault ≠ .aborted)
    (hj : S.Admits (p.joinFree fuel c)) :
    S.Agree w (fun _ => Eq) (Machine.execute fuel p c) (Machine.execute fuel p c') := by
  rw [Machine.execute_eq, Machine.execute_eq]
  exact hS.conclude ((hS.runs fuel).block p.statements hload hj) (fun w c c' _ => hreset w c c')
    hexempt

end Simulation

end BasicScript
