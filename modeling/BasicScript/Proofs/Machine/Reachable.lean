/-
  The contexts that hosts and runs can reach.

  * `Transition c c'`: what a host may do to a context between runs, arrays and values of any origin
    included, and the steps of runs, so that the contexts inside of runs are reached as well.
  * `Context.Reachable c`: transitions lead to the context from a new one.
  * `Reachable.tidy`: the free list of the arena is in order in every reachable context.
  * `upkeep natives`: this as a contract of runs, together with where the errors about arrays that
    are no longer alive come from (`Context.GaveError`): from native functions.
-/
import BasicScript.Proofs.Arena.History
import BasicScript.Proofs.Machine.Contract

namespace BasicScript

open Machine

variable {σ : Type} {c c' : Context σ}

namespace Context

/-- The latest event is the call of a native function that returned the error. -/
def GaveError (c : Context σ) (e : RuntimeError) : Prop :=
  ∃ key f vs host, c.native? key = some f ∧ f vs host = (.error e, c.host) ∧
    ∃ events, c.events = .native key vs :: events

end Context

/-! ## The contract -/

/-- The free list stays in order, the natives stay, and an error about an array that is no longer alive is
one that a native function returned. -/
def upkeep (natives : List (CallKey × Native σ)) : Contract σ where
  context c := c.arrays.Tidy ∧ c.natives = natives
  error e c := ∀ h, e.fault = .type (.notAlive h) → c.GaveError e
  line _ := True
  abort _ := True

theorem nativeError_of_notAlive {key : CallKey} {line : Nat} {e : RuntimeError} {h : Handle}
    (he : (nativeError key line e).fault = .type (.notAlive h)) : nativeError key line e = e := by
  obtain ⟨fault, l⟩ := e
  cases fault <;> first | rfl | cases he

theorem upkeep_lawful (natives : List (CallKey × Native σ)) : (upkeep natives).Lawful where
  tidy hc := hc.1
  same := by
    rintro c c' ⟨htidy, hn⟩ harrays - hnatives
    exact ⟨harrays ▸ htidy, hnatives.trans hn⟩
  allocation hc := ⟨hc.1.allocate, hc.2⟩
  change hc h f := ⟨hc.1.modify h f, hc.2⟩
  body _ _ := ⟨fun _ _ => trivial, fun _ _ => trivial⟩
  fault _ hf _ h he := absurd he (hf.not_stale h)
  aborted _ _ h he := by cases he
  native := by
    rintro c key f vs e host line - hf hresult - h he
    rw [nativeError_of_notAlive he]
    exact ⟨key, f, vs, c.host, hf, hresult, c.events, rfl⟩
  leave := by
    rintro e c hec h he
    obtain ⟨key, f, vs, host, hf, hresult, events, hevents⟩ := hec h he
    rw [Context.leave]
    split
    · exact ⟨key, f, vs, host, hf, hresult, events, hevents⟩
    · exact ⟨key, f, vs, host, hf, hresult, events, hevents⟩

/-! ## Transitions -/

/-- What may happen to a context.  A host sets globals to any value, so also to references to arrays
that are no longer alive; it registers natives, collects garbage, works on the arrays or puts others
in their place, changes its own state, runs programs and calls callables.  The other transitions are
the steps that runs consist of. -/
inductive Transition : Context σ → Context σ → Prop
  | setGlobal (name : String) (v : Value) (c : Context σ) : Transition c (c.setGlobal name v)
  | removeGlobal (name : String) (c : Context σ) : Transition c (c.removeGlobal name).2
  | register {name : String} {arity : Nat} {f : Native σ} {c c' : Context σ} :
      c.register name arity f = .ok c' → Transition c c'
  | collectGarbage (c : Context σ) : Transition c c.collectGarbage.2
  | operation (op : Arena.Operation) (c : Context σ) :
      Transition c { c with arrays := c.arrays.apply op }
  | replaceArrays (ops : List Arena.Operation) (c : Context σ) :
      Transition c { c with arrays := Arena.empty.run ops }
  | replaceHost (host : σ) (c : Context σ) : Transition c { c with host }
  | execute (fuel : Nat) (p : Program) (c : Context σ) : Transition c (after (execute fuel p) c)
  | call (fuel : Nat) (name : String) (vs : List Value) (line : Nat) (c : Context σ) :
      Transition c (after (call fuel name vs line) c)
  | load (p : Program) (c : Context σ) : Transition c (c.load p)
  | enter (frame : Frame) (c : Context σ) : Transition c (c.enter frame)
  | leave (c : Context σ) : Transition c c.leave
  | setVariable (name : String) (v : Value) (c : Context σ) : Transition c (c.setVariable name v)
  | eval (fuel : Nat) (e : Expr) (c : Context σ) : Transition c (after (eval fuel e) c)
  | exec (fuel : Nat) (s : Statement) (c : Context σ) : Transition c (after (exec fuel s) c)
  | block (fuel : Nat) (ss : List Statement) (c : Context σ) :
      Transition c (after (block fuel ss) c)

namespace Context

/-- Transitions lead to the context from a new one. -/
def Reachable (c : Context σ) : Prop :=
  ∃ limits host, Relation.ReflTransGen Transition (.new limits host) c

theorem reachable_new (limits : Limits) (host : σ) : (new limits host).Reachable :=
  ⟨limits, host, .refl⟩

theorem Reachable.step (hc : c.Reachable) (h : Transition c c') : c'.Reachable := by
  obtain ⟨limits, host, hc⟩ := hc
  exact ⟨limits, host, hc.tail h⟩

theorem arrays_modifyGlobals (c : Context σ) (f : Frame → Frame) :
    (c.modifyGlobals f).arrays = c.arrays := by
  rw [modifyGlobals]
  split <;> rfl

theorem tidy_eval (hc : c.arrays.Tidy) (fuel : Nat) (e : Expr) :
    (after (eval fuel e) c).arrays.Tidy :=
  (((upkeep_lawful c.natives).runs fuel).eval e (fun _ _ => trivial) c ⟨hc, rfl⟩).after.1

theorem tidy_exec (hc : c.arrays.Tidy) (fuel : Nat) (s : Statement) :
    (after (exec fuel s) c).arrays.Tidy :=
  (((upkeep_lawful c.natives).runs fuel).exec s (fun _ _ => trivial) (fun _ _ => trivial) c
    ⟨hc, rfl⟩).after.1

theorem tidy_block (hc : c.arrays.Tidy) (fuel : Nat) (ss : List Statement) :
    (after (block fuel ss) c).arrays.Tidy :=
  (((upkeep_lawful c.natives).runs fuel).block ss (fun _ _ => trivial) (fun _ _ => trivial) c
    ⟨hc, rfl⟩).after.1

theorem tidy_call (hc : c.arrays.Tidy) (fuel : Nat) (name : String) (vs : List Value)
    (line : Nat) : (after (call fuel name vs line) c).arrays.Tidy :=
  (((upkeep_lawful c.natives).runs fuel).call name vs line trivial c ⟨hc, rfl⟩).after.1

theorem tidy_execute (hc : c.arrays.Tidy) (fuel : Nat) (p : Program) :
    (after (execute fuel p) c).arrays.Tidy :=
  ((upkeep_lawful c.natives).context_execute (c := c) (p := p) ⟨hc, rfl⟩
    (fun _ _ => trivial) (fun _ _ => trivial) fuel).1

theorem tidy_transition (hc : c.arrays.Tidy) (h : Transition c c') : c'.arrays.Tidy := by
  cases h with
  | setGlobal name v =>
    rw [setGlobal, arrays_modifyGlobals]
    exact hc
  | removeGlobal name =>
    rw [removeGlobal, arrays_modifyGlobals]
    exact hc
  | @register name arity f _ _ h =>
    rw [register] at h
    split at h
    · cases h
    · cases h
      exact hc
  | collectGarbage => exact hc.collect c.roots
  | operation op => exact hc.apply op
  | replaceArrays ops => exact Arena.tidy_empty.run ops
  | execute fuel p => exact tidy_execute hc fuel p
  | call fuel name vs line => exact tidy_call hc fuel name vs line
  | replaceHost | load | enter | setVariable => exact hc
  | leave =>
    rw [c.arrays_leave]
    exact hc
  | eval fuel e => exact tidy_eval hc fuel e
  | exec fuel s => exact tidy_exec hc fuel s
  | block fuel ss => exact tidy_block hc fuel ss

/-- **The free list is in order in every reachable context**, whatever hosts and scripts do. -/
theorem Reachable.tidy (h : c.Reachable) : c.arrays.Tidy := by
  obtain ⟨limits, host, h⟩ := h
  induction h with
  | refl => exact Arena.tidy_empty
  | tail _ hstep ih => exact tidy_transition ih hstep

end Context

end BasicScript
