/-
  What the steps of a running script may do to its context.

  * `after m ctx` is the context that a step leaves, whatever comes out of it.
  * `Keeps R m`: every context and the one that `m` leaves are related by `R`.
  * `Step R m`: moreover `m` never runs out of fuel.
  * `Tracks E S` lists what is asked of two relations so that evaluating an expression moves the
    context along `E`, and executing statements that assign to `names` along `S names`.

  The steps without fuel are treated here (`Tracks.store`, `Tracks.clear`, `Tracks.callNative`,
  ...); whole runs follow from them.
-/
import BasicScript.Machine.Execute
import BasicScript.Proofs.Bind

namespace BasicScript

namespace Machine

variable {σ α β : Type}

/-- The context that a step leaves, with a result or with an error. -/
def after (m : Machine σ α) (ctx : Context σ) : Context σ :=
  match m ctx with
  | .ok _ ctx' => ctx'
  | .error _ ctx' => ctx'

theorem after_of_ok {m : Machine σ α} {ctx ctx' : Context σ} {a : α} (h : m ctx = .ok a ctx') :
    after m ctx = ctx' := by
  rw [after, h]

theorem after_of_error {m : Machine σ α} {ctx ctx' : Context σ} {e : Stop}
    (h : m ctx = .error e ctx') : after m ctx = ctx' := by
  rw [after, h]

/-! ## Relations that steps keep -/

/-- Every context and the one that the step leaves are related. -/
def Keeps (R : Context σ → Context σ → Prop) (m : Machine σ α) : Prop :=
  ∀ ctx, R ctx (after m ctx)

/-- A step that keeps a relation and never runs out of fuel. -/
def Step (R : Context σ → Context σ → Prop) (m : Machine σ α) : Prop :=
  Keeps R m ∧ ∀ ctx ctx', m ctx ≠ .error .outOfFuel ctx'

section
variable {R R' : Context σ → Context σ → Prop} {m : Machine σ α} {f : α → Machine σ β}

theorem Keeps.imp (h : Keeps R m) (hR : ∀ c c', R c c' → R' c c') : Keeps R' m :=
  fun ctx => hR _ _ (h ctx)

theorem Step.imp (h : Step R m) (hR : ∀ c c', R c c' → R' c c') : Step R' m :=
  ⟨h.1.imp hR, h.2⟩

theorem Keeps.bind (ht : ∀ c c' c'', R c c' → R c' c'' → R c c'') (hm : Keeps R m)
    (hf : ∀ a, Keeps R (f a)) : Keeps R (m >>= f) := by
  intro ctx
  have h := hm ctx
  cases hctx : m ctx with
  | ok a c =>
    rw [after_of_ok hctx] at h
    rw [after, bind_of_ok hctx]
    exact ht _ _ _ h (hf a c)
  | error e c =>
    rw [after_of_error hctx] at h
    rwa [after_of_error (bind_of_error hctx)]

theorem Step.bind (ht : ∀ c c' c'', R c c' → R c' c'' → R c c'') (hm : Step R m)
    (hf : ∀ a, Step R (f a)) : Step R (m >>= f) := by
  refine ⟨hm.1.bind ht fun a => (hf a).1, fun ctx ctx' hout => ?_⟩
  cases hctx : m ctx with
  | ok a c =>
    rw [bind_of_ok hctx] at hout
    exact (hf a).2 c ctx' hout
  | error e c =>
    rw [bind_of_error hctx] at hout
    cases hout
    exact hm.2 ctx _ hctx

end

/-! ## Steps that leave the context as it is -/

theorem step_pure (a : α) : Step (σ := σ) Eq (pure a) := ⟨fun _ => rfl, fun _ _ => nofun⟩

theorem step_raise (fault : Fault) (line : Nat) : Step (σ := σ) (α := α) Eq (raise fault line) :=
  ⟨fun _ => rfl, fun _ _ => nofun⟩

theorem step_onLine (line : Nat) (r : Except Fault α) : Step (σ := σ) Eq (onLine line r) := by
  cases r with
  | ok a => exact step_pure a
  | error fault => exact step_raise fault line

theorem step_get : Step (σ := σ) Eq get := ⟨fun _ => rfl, fun _ _ => nofun⟩

theorem step_readVariable (name : String) : Step (σ := σ) Eq (readVariable name) :=
  ⟨fun _ => rfl, fun _ _ => nofun⟩

theorem step_liveArray? (v : Value) : Step (σ := σ) Eq (liveArray? v) :=
  ⟨fun _ => rfl, fun _ _ => nofun⟩

theorem step_readEntry (target key : Value) (line : Nat) :
    Step (σ := σ) Eq (readEntry target key line) := by
  cases target with
  | array h =>
    refine (step_onLine line _).bind (fun _ _ _ => Eq.trans) fun k => ?_
    exact step_get.bind (fun _ _ _ => Eq.trans) fun ctx => step_pure _
  | empty => exact step_pure _
  | _ => exact step_raise _ line

theorem step_countPass (passes : UInt64) (line : Nat) :
    Step (σ := σ) Eq (countPass passes line) := by
  refine step_get.bind (fun _ _ _ => Eq.trans) fun ctx => ?_
  split
  · split
    · exact step_raise _ line
    · exact step_pure _
  · exact step_pure _

/-! ## Steps that change the context -/

theorem modifyEntries_eq (h : Handle) (line : Nat) (f : Entries → Entries) (ctx : Context σ) :
    modifyEntries h line f ctx =
      if ctx.arrays.isLive h then .ok () { ctx with arrays := ctx.arrays.modify h f }
      else .error (.raised ⟨.type (.notAlive h), line⟩) ctx := by
  rw [modifyEntries, bind_of_ok (m := get) rfl]
  split <;> rfl

/-- What is asked of a relation `E` for evaluations and relations `S names` for statements that
assign to variables among `names`: each holds of the elementary changes and of their compositions,
and what a body does in its own frame, once that frame is left, is an evaluation.  Errors are not
among the events: only the end of a run shows one. -/
structure Tracks (E : Context σ → Context σ → Prop)
    (S : List String → Context σ → Context σ → Prop) : Prop where
  refl : ∀ c, E c c
  trans : ∀ c c' c'', E c c' → E c' c'' → E c c''
  event : ∀ c e, (∀ message, e ≠ .error message) → E c (c.emit e)
  host : ∀ c host, E c { c with host }
  allocation : ∀ c, E c { c with arrays := c.arrays.allocate.2 }
  change : ∀ c h f, c.arrays.isLive h = true → E c { c with arrays := c.arrays.modify h f }
  statement : ∀ names c c', E c c' → S names c c'
  sequence : ∀ names c c' c'', S names c c' → S names c' c'' → S names c c''
  assignment : ∀ names c name v, name ∈ names → S names c (c.setVariable name v)
  leave : ∀ names c frame c', S names (c.enter frame) c' → E c c'.leave

section
variable {E : Context σ → Context σ → Prop} {S : List String → Context σ → Context σ → Prop}
  (h : Tracks E S) {m : Machine σ α} {names : List String} {name : String}
include h

theorem Tracks.of_eq (hm : Step Eq m) : Step E m :=
  hm.imp fun c _ hc => hc ▸ h.refl c

theorem Tracks.of_step (hm : Step E m) : Step (S names) m :=
  hm.imp (h.statement names)

theorem Tracks.emit (e : Event) (he : ∀ message, e ≠ .error message) : Step E (emit e) :=
  ⟨fun ctx => h.event ctx e he, fun _ _ => nofun⟩

theorem Tracks.allocate : Step E allocate := ⟨fun ctx => h.allocation ctx, fun _ _ => nofun⟩

theorem Tracks.modifyEntries (k : Handle) (line : Nat) (f : Entries → Entries) :
    Step E (modifyEntries k line f) := by
  refine ⟨fun ctx => ?_, fun ctx ctx' => ?_⟩
  · by_cases hk : ctx.arrays.isLive k = true
    · rw [after_of_ok ((modifyEntries_eq k line f ctx).trans (if_pos hk))]
      exact h.change ctx k f hk
    · rw [after_of_error ((modifyEntries_eq k line f ctx).trans (if_neg hk))]
      exact h.refl ctx
  · rw [modifyEntries_eq]
    split <;> simp

theorem Tracks.entryArray (parent : Handle) (key : Key) (line : Nat) :
    Step E (entryArray parent key line) := by
  refine (h.of_eq step_get).bind h.trans fun ctx => ?_
  refine (h.of_eq (step_liveArray? _)).bind h.trans fun live => ?_
  cases live with
  | some k => exact h.of_eq (step_pure k)
  | none =>
    refine h.allocate.bind h.trans fun k => ?_
    exact (h.modifyEntries parent line _).bind h.trans fun _ => h.of_eq (step_pure k)

theorem Tracks.storeAt (v : Value) (line : Nat) (keys : List Key) :
    ∀ (k : Handle) (key : Key), Step E (storeAt v line k key keys) := by
  induction keys with
  | nil => exact fun k _ => h.modifyEntries k line _
  | cons key' keys ih =>
    exact fun k key => (h.entryArray k key line).bind h.trans fun inner => ih inner key'

theorem Tracks.callNative (f : Native σ) (key : CallKey) (arguments : List Value) (line : Nat) :
    Step E (callNative f key arguments line) := by
  have hE : ∀ ctx : Context σ,
      E ctx { ctx.emit (.native key arguments) with host := (f arguments ctx.host).2 } :=
    fun ctx => h.trans _ _ _ (h.event ctx (.native key arguments) nofun) (h.host _ _)
  constructor
  · intro ctx
    simp only [after, Machine.callNative]
    cases (f arguments ctx.host).1 <;> exact hE ctx
  · intro ctx ctx'
    simp only [Machine.callNative]
    cases (f arguments ctx.host).1 <;> simp

theorem Tracks.setVariable (hn : name ∈ names) (v : Value) :
    Step (S names) (modify (·.setVariable name v)) :=
  ⟨fun ctx => h.assignment names ctx name v hn, fun _ _ => nofun⟩

theorem Tracks.variableArray (hn : name ∈ names) : Step (S names) (variableArray name) := by
  refine (h.of_step (h.of_eq (step_readVariable name))).bind (h.sequence names) fun v => ?_
  refine (h.of_step (h.of_eq (step_liveArray? v))).bind (h.sequence names) fun live => ?_
  cases live with
  | some k => exact h.of_step (h.of_eq (step_pure k))
  | none =>
    refine (h.of_step h.allocate).bind (h.sequence names) fun k => ?_
    refine (h.setVariable hn _).bind (h.sequence names) fun _ => ?_
    exact h.of_step (h.of_eq (step_pure k))

theorem Tracks.store (hn : name ∈ names) (keys : List Key) (v : Value) (line : Nat) :
    Step (S names) (store name keys v line) := by
  cases keys with
  | nil => exact h.setVariable hn v
  | cons key keys =>
    refine (h.variableArray hn).bind (h.sequence names) fun k => ?_
    exact h.of_step (h.storeAt v line keys k key)

theorem Tracks.clear (hn : name ∈ names) (key : Option Key) (line : Nat) :
    Step (S names) (clear name key line) := by
  cases key with
  | none => exact (h.of_step h.allocate).bind (h.sequence names) fun k => h.setVariable hn _
  | some key =>
    refine (h.variableArray hn).bind (h.sequence names) fun k => ?_
    exact h.of_step (h.modifyEntries k line _)

end

/-! ## Calls -/

/-- What the outcome of a body is to the caller, once the frame of the call is left. -/
def leaveCall : EStateM.Result Stop (Context σ) Flow → EStateM.Result Stop (Context σ) Value
  | .ok .next ctx => .ok .empty ctx.leave
  | .ok (.return_ v) ctx => .ok v ctx.leave
  | .ok (.abort line) ctx => .error (.raised ⟨.aborted, line⟩) ctx.leave
  | .error e ctx => .error e ctx.leave

section
variable {frame : Frame} {line : Nat} {body : Machine σ Flow} {ctx : Context σ}

theorem inCall_of_le (hd : ctx.limits.callDepth ≤ ctx.callDepth) :
    inCall frame line body ctx =
      .error (.raised ⟨.recursionLimit ctx.limits.callDepth, line⟩) ctx :=
  if_pos hd

theorem inCall_of_lt (hd : ctx.callDepth < ctx.limits.callDepth) :
    inCall frame line body ctx = leaveCall (body (ctx.enter frame)) :=
  if_neg (Nat.not_le.2 hd)

theorem after_inCall_of_lt (hd : ctx.callDepth < ctx.limits.callDepth) :
    after (inCall frame line body) ctx = (after body (ctx.enter frame)).leave := by
  rw [after, after, inCall_of_lt hd]
  cases body (ctx.enter frame) with
  | ok flow c => cases flow <;> rfl
  | error e c => rfl

end

/-- A call is an evaluation if its body does what statements may do in the frame of the call. -/
theorem Tracks.inCall {E : Context σ → Context σ → Prop}
    {S : List String → Context σ → Context σ → Prop} (h : Tracks E S) {names : List String}
    (frame : Frame) (line : Nat) {body : Machine σ Flow} (hb : Keeps (S names) body) :
    Keeps E (inCall frame line body) := by
  intro ctx
  rcases Nat.lt_or_ge ctx.callDepth ctx.limits.callDepth with hd | hd
  · rw [after_inCall_of_lt hd]
    exact h.leave names ctx frame _ (hb (ctx.enter frame))
  · rw [after_of_error (inCall_of_le hd)]
    exact h.refl ctx

end Machine

end BasicScript
