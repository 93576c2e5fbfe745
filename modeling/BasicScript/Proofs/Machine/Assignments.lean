/-
  Assignments and `DIM`s fail only before they write.

  * `KeysTo es c keys c'`, `KeysFail line es c e c'`: the expressions of keys, one after the other,
    come to these keys, or one of them fails.
  * `returns_assign_iff`, `fails_assign_iff`, `returns_dim_iff`, `fails_dim_iff`: what the statements
    come to, by their parts.
  * `Prepared s c c'`: all that the statement `s` evaluates succeeds and leaves `c'`.
  * `Unprepared s c e c'`: an evaluation or the conversion of a key fails with `e` and leaves `c'`.
  * `writes_fail_before_writing`: in reachable contexts a statement that is prepared succeeds, and
    its failures are those of being unprepared.
-/
import BasicScript.Proofs.Machine.Fuel
import BasicScript.Proofs.Machine.Reachable

namespace BasicScript

namespace Machine

variable {σ : Type} {c c' : Context σ} {e : RuntimeError} {line : Nat}

/-! ## Keys -/

/-- The expressions come to keys, one after the other. -/
inductive KeysTo : List Expr → Context σ → List Key → Context σ → Prop
  | nil {c : Context σ} : KeysTo [] c [] c
  | cons {x : Expr} {es : List Expr} {c c₁ c' : Context σ} {v : Value} {k : Key}
      {keys : List Key} : Returns (eval · x) c v c₁ → Key.ofValue v = .ok k →
      KeysTo es c₁ keys c' → KeysTo (x :: es) c (k :: keys) c'

/-- One of the expressions fails, or its value is no key; those before it have come to keys. -/
inductive KeysFail (line : Nat) : List Expr → Context σ → RuntimeError → Context σ → Prop
  | evaluation {x : Expr} {es : List Expr} {c c' : Context σ} {e : RuntimeError} :
      Fails (eval · x) c e c' → KeysFail line (x :: es) c e c'
  | conversion {x : Expr} {es : List Expr} {c c' : Context σ} {v : Value} {f : Fault} :
      Returns (eval · x) c v c' → Key.ofValue v = .error f →
      KeysFail line (x :: es) c ⟨f, line⟩ c'
  | later {x : Expr} {es : List Expr} {c c₁ c' : Context σ} {v : Value} {k : Key}
      {e : RuntimeError} : Returns (eval · x) c v c₁ → Key.ofValue v = .ok k →
      KeysFail line es c₁ e c' → KeysFail line (x :: es) c e c'

theorem KeysTo.canonical {es : List Expr} {keys : List Key} (h : KeysTo es c keys c') :
    ∀ k ∈ keys, k.Canonical := by
  induction h with
  | nil => exact List.forall_mem_nil _
  | cons _ hk _ ih => exact List.forall_mem_cons.2 ⟨⟨_, hk⟩, ih⟩

theorem Returns.tidy {x : Expr} {v : Value} (h : Returns (eval · x) c v c')
    (hc : c.arrays.Tidy) : c'.arrays.Tidy := by
  obtain ⟨fuel, h⟩ := h
  rw [← after_of_ok h]
  exact Context.tidy_eval hc fuel x

theorem KeysTo.tidy {es : List Expr} {keys : List Key} (h : KeysTo es c keys c')
    (hc : c.arrays.Tidy) : c'.arrays.Tidy := by
  induction h with
  | nil => exact hc
  | cons hx _ _ ih => exact ih (hx.tidy hc)

theorem returns_literal (value : Literal) (line : Nat) (c : Context σ) :
    Returns (eval · (.literal value line)) c value.toValue c := by
  refine ⟨1, ?_⟩
  simp only [eval]
  rfl

/-- The keys behind the first one, once that has a value. -/
theorem steady_keys (es : List Expr) (line : Nat) (v : Value) :
    Steady (σ := σ) fun n => onLine line (Key.ofValue v) >>= fun k =>
      evalKeys n es line >>= fun ks => pure (k :: ks) :=
  (steady_const _).bind fun _ => (steady_evalKeys es line).bind fun _ => steady_const _

theorem returns_evalKeys_iff {es : List Expr} {keys : List Key} :
    Returns (evalKeys · es line) c keys c' ↔ KeysTo es c keys c' := by
  induction es generalizing c keys with
  | nil =>
    rw [returns_succ (evalKeys_zero [] line)]
    simp only [evalKeys]
    rw [returns_const]
    constructor
    · rintro ⟨⟩
      exact .nil
    · rintro ⟨⟩
      rfl
  | cons x es ih =>
    rw [returns_succ (evalKeys_zero (x :: es) line)]
    simp only [evalKeys]
    rw [returns_bind (steady_eval x) (steady_keys es line)]
    simp only [returns_onLine_bind, returns_bind_pure, ih]
    constructor
    · rintro ⟨v, c₁, hx, k, hk, ks, hks, rfl⟩
      exact .cons hx hk hks
    · intro h
      cases h with
      | cons hx hk hks => exact ⟨_, _, hx, _, hk, _, hks, rfl⟩

theorem fails_evalKeys_iff {es : List Expr} :
    Fails (evalKeys · es line) c e c' ↔ KeysFail line es c e c' := by
  induction es generalizing c with
  | nil =>
    rw [fails_succ (evalKeys_zero [] line)]
    simp only [evalKeys]
    rw [fails_const]
    constructor
    · intro h
      cases h
    · intro h
      cases h
  | cons x es ih =>
    rw [fails_succ (evalKeys_zero (x :: es) line)]
    simp only [evalKeys]
    rw [fails_bind (steady_eval x) (steady_keys es line)]
    simp only [fails_onLine_bind, fails_bind_pure, ih]
    constructor
    · rintro (hx | ⟨v, c₁, hx, ⟨f, hf, rfl, rfl⟩ | ⟨k, hk, hks⟩⟩)
      · exact .evaluation hx
      · exact .conversion hx hf
      · exact .later hx hk hks
    · rintro (hx | ⟨hx, hf⟩ | ⟨hx, hk, hks⟩)
      · exact .inl hx
      · exact .inr ⟨_, _, hx, .inl ⟨_, hf, rfl, rfl⟩⟩
      · exact .inr ⟨_, _, hx, .inr ⟨_, hk, hks⟩⟩

/-! ## Statements by their parts -/

section
variable {name : String} {indices : List Expr} {key : Option Expr} {value : Expr} {flow : Flow}

theorem returns_bind_next {m : Machine σ Unit} :
    Returns (fun _ => m >>= fun _ => pure Flow.next) c flow c' ↔ m c = .ok () c' ∧ flow = .next := by
  rw [returns_bind_pure]
  exact ⟨fun ⟨_, h, hf⟩ => ⟨returns_const.1 h, hf⟩, fun ⟨h, hf⟩ => ⟨(), returns_const.2 h, hf⟩⟩

theorem fails_bind_next {m : Machine σ Unit} :
    Fails (fun _ => m >>= fun _ => pure Flow.next) c e c' ↔ m c = .error (.raised e) c' :=
  fails_bind_pure.trans fails_const

/-- What an assignment does once it has its value. -/
theorem steady_store (name : String) (keys : List Key) (line : Nat) (v : Value) :
    Steady (σ := σ) fun _ => store name keys v line >>= fun _ => pure Flow.next :=
  steady_const _

/-- What an assignment does once it has its keys. -/
theorem steady_assign (name : String) (value : Expr) (line : Nat) (keys : List Key) :
    Steady (σ := σ) fun n =>
      eval n value >>= fun v => store name keys v line >>= fun _ => pure Flow.next :=
  (steady_eval value).bind (steady_store name keys line)

theorem returns_assign_iff : Returns (exec · (.assign name indices value line)) c flow c' ↔
    ∃ keys c₁, KeysTo indices c keys c₁ ∧ ∃ v c₂, Returns (eval · value) c₁ v c₂ ∧
      store name keys v line c₂ = .ok () c' ∧ flow = .next := by
  rw [returns_succ (exec_zero _)]
  simp only [exec]
  rw [returns_bind (steady_evalKeys indices line) (steady_assign name value line)]
  simp only [returns_evalKeys_iff]
  refine exists₂_congr fun keys c₁ => and_congr_right' ?_
  rw [returns_bind (steady_eval value) (steady_store name keys line)]
  simp only [returns_bind_next]

theorem fails_assign_iff : Fails (exec · (.assign name indices value line)) c e c' ↔
    KeysFail line indices c e c' ∨ ∃ keys c₁, KeysTo indices c keys c₁ ∧
      (Fails (eval · value) c₁ e c' ∨ ∃ v c₂, Returns (eval · value) c₁ v c₂ ∧
        store name keys v line c₂ = .error (.raised e) c') := by
  rw [fails_succ (exec_zero _)]
  simp only [exec]
  rw [fails_bind (steady_evalKeys indices line) (steady_assign name value line)]
  simp only [fails_evalKeys_iff, returns_evalKeys_iff]
  refine or_congr_right (exists₂_congr fun keys c₁ => and_congr_right' ?_)
  rw [fails_bind (steady_eval value) (steady_store name keys line)]
  simp only [fails_bind_next]

/-- What a `DIM` does once the expression of its key has a value. -/
theorem steady_dim (name : String) (line : Nat) (v : Value) :
    Steady (σ := σ) fun _ => onLine line (Key.ofValue v) >>= fun k =>
      clear name (some k) line >>= fun _ => pure Flow.next :=
  steady_const _

theorem returns_dim_iff : Returns (exec · (.dim name key line)) c flow c' ↔
    ∃ keys c₁, KeysTo key.toList c keys c₁ ∧
      clear name keys.head? line c₁ = .ok () c' ∧ flow = .next := by
  rw [returns_succ (exec_zero _)]
  cases key with simp only [exec]
  | none =>
    rw [returns_bind_next]
    constructor
    · exact fun h => ⟨[], c, .nil, h⟩
    · rintro ⟨_, _, ⟨⟩, h⟩
      exact h
  | some key =>
    rw [returns_bind (steady_eval key) (steady_dim name line)]
    simp only [returns_onLine_bind, returns_bind_next]
    constructor
    · rintro ⟨v, c₁, hx, k, hk, hclear⟩
      exact ⟨[k], c₁, .cons hx hk .nil, hclear⟩
    · rintro ⟨_, c₁, hkey, hclear⟩
      cases hkey with
      | cons hx hk hnil =>
        cases hnil
        exact ⟨_, _, hx, _, hk, hclear⟩

theorem fails_dim_iff : Fails (exec · (.dim name key line)) c e c' ↔
    KeysFail line key.toList c e c' ∨ ∃ keys c₁, KeysTo key.toList c keys c₁ ∧
      clear name keys.head? line c₁ = .error (.raised e) c' := by
  rw [fails_succ (exec_zero _)]
  cases key with simp only [exec]
  | none =>
    rw [fails_bind_next]
    constructor
    · exact fun h => .inr ⟨[], c, .nil, h⟩
    · rintro (hkey | ⟨_, _, ⟨⟩, h⟩)
      · cases hkey
      · exact h
  | some key =>
    rw [fails_bind (steady_eval key) (steady_dim name line)]
    simp only [fails_onLine_bind, fails_bind_next]
    constructor
    · rintro (hx | ⟨v, c₁, hx, ⟨f, hf, rfl, rfl⟩ | ⟨k, hk, hclear⟩⟩)
      · exact .inl (.evaluation hx)
      · exact .inl (.conversion hx hf)
      · exact .inr ⟨[k], c₁, .cons hx hk .nil, hclear⟩
    · rintro (hkey | ⟨_, c₁, hkey, hclear⟩)
      · cases hkey with
        | evaluation hx => exact .inl hx
        | conversion hx hf => exact .inr ⟨_, _, hx, .inl ⟨_, hf, rfl, rfl⟩⟩
        | later _ _ hnil => cases hnil
      · cases hkey with
        | cons hx hk hnil =>
          cases hnil
          exact .inr ⟨_, _, hx, .inr ⟨_, hk, hclear⟩⟩

end

/-! ## Failing before writing -/

/-- All that an assignment or `DIM` evaluates succeeds and leaves this context. -/
inductive Prepared : Statement → Context σ → Context σ → Prop
  | assign {name : String} {indices : List Expr} {value : Expr} {line : Nat}
      {c c₁ c' : Context σ} {keys : List Key} {v : Value} : KeysTo indices c keys c₁ →
      Returns (eval · value) c₁ v c' → Prepared (.assign name indices value line) c c'
  | dim {name : String} {key : Option Expr} {line : Nat} {c c' : Context σ} {keys : List Key} :
      KeysTo key.toList c keys c' → Prepared (.dim name key line) c c'

/-- An evaluation or the conversion of a key of an assignment or `DIM` fails and leaves this
context. -/
inductive Unprepared : Statement → Context σ → RuntimeError → Context σ → Prop
  | key {name : String} {indices : List Expr} {value : Expr} {line : Nat} {c c' : Context σ}
      {e : RuntimeError} : KeysFail line indices c e c' →
      Unprepared (.assign name indices value line) c e c'
  | value {name : String} {indices : List Expr} {value : Expr} {line : Nat}
      {c c₁ c' : Context σ} {keys : List Key} {e : RuntimeError} : KeysTo indices c keys c₁ →
      Fails (eval · value) c₁ e c' → Unprepared (.assign name indices value line) c e c'
  | dimKey {name : String} {key : Option Expr} {line : Nat} {c c' : Context σ}
      {e : RuntimeError} : KeysFail line key.toList c e c' →
      Unprepared (.dim name key line) c e c'

/-- The statement is an assignment or a `DIM`. -/
def Writes : Statement → Prop
  | .assign .. | .dim .. => True
  | _ => False

theorem returns_of_prepared {s : Statement} (hc : c.arrays.Tidy) (h : Prepared s c c') :
    ∃ c'', Returns (exec · s) c .next c'' := by
  cases h with
  | @assign name indices value line _ _ _ keys v hkeys hv =>
    obtain ⟨c'', hok, -⟩ := store_ok (hv.tidy (hkeys.tidy hc)) name keys v line
    exact ⟨c'', returns_assign_iff.2 ⟨keys, _, hkeys, v, _, hv, hok, rfl⟩⟩
  | @dim name key line _ _ keys hkey =>
    have hok := clear_ok (hkey.tidy hc) name keys.head? line
    exact ⟨_, returns_dim_iff.2 ⟨keys, _, hkey, hok, rfl⟩⟩

theorem fails_iff_unprepared {s : Statement} (hc : c.arrays.Tidy) (hs : Writes s) :
    Fails (exec · s) c e c' ↔ Unprepared s c e c' := by
  cases s with
  | assign name indices value line =>
    rw [fails_assign_iff]
    constructor
    · rintro (hkeys | ⟨keys, c₁, hkeys, hv | ⟨v, c₂, hv, hstore⟩⟩)
      · exact .key hkeys
      · exact .value hkeys hv
      · obtain ⟨c'', hok, -⟩ := store_ok (hv.tidy (hkeys.tidy hc)) name keys v line
        cases hok.symm.trans hstore
    · intro h
      cases h with
      | key hkeys => exact .inl hkeys
      | value hkeys hv => exact .inr ⟨_, _, hkeys, .inl hv⟩
  | dim name key line =>
    rw [fails_dim_iff]
    constructor
    · rintro (hkey | ⟨keys, c₁, hkey, hclear⟩)
      · exact .dimKey hkey
      · cases (clear_ok (hkey.tidy hc) name keys.head? line).symm.trans hclear
    · intro h
      cases h with
      | dimKey hkey => exact .inl hkey
  | _ => cases hs

/-- **Assignments and `DIM`s fail only before they write.**  If all that such a statement evaluates
succeeds, so does the statement; otherwise its error is that of the evaluation or of the key, and it
leaves the context as they do.  So an error about an array that is no longer alive comes out of a
script only if a native function returned it. -/
theorem writes_fail_before_writing {c : Context σ} (hc : c.Reachable) :
    (∀ s, Writes s →
      (∀ c', Prepared s c c' → ∃ c'', Returns (exec · s) c .next c'') ∧
      ∀ e c', Fails (exec · s) c e c' ↔ Unprepared s c e c') ∧
    (∀ p e c' h, Fails (execute · p) c e c' → e.fault = .type (.notAlive h) →
      ∃ c₁ : Context σ, c₁.GaveError e ∧ c' = c₁.resetFrames.emit (.error e.message)) ∧
    ∀ name vs line e c' h, Fails (call · name vs line) c e c' → e.fault = .type (.notAlive h) →
      c'.GaveError e := by
  have htidy := hc.tidy
  have hlawful := upkeep_lawful c.natives
  refine ⟨fun s hs => ⟨fun c' hp => returns_of_prepared htidy hp,
    fun e c' => fails_iff_unprepared htidy hs⟩, ?_, ?_⟩
  · rintro p e c' h ⟨fuel, hrun⟩ he
    obtain ⟨-, c₁, hgave, rfl⟩ := hlawful.error_of_execute (c := c) (p := p) ⟨htidy, rfl⟩
      (fun _ _ => trivial) (fun _ _ => trivial) hrun
    exact ⟨c₁, hgave h he, rfl⟩
  · rintro name vs line e c' h ⟨fuel, hrun⟩ he
    have hcall := (hlawful.runs fuel).call name vs line trivial c ⟨htidy, rfl⟩
    rw [show call fuel name vs line c = _ from hrun] at hcall
    cases hcall with
    | raised hgave _ => exact hgave h he

/-- A variable that holds an array no longer alive is assigned to. -/
theorem assigned_over_stale :
    let c : Context Unit := { (Context.new {} ()).setGlobal "A" (.array ⟨0, 0⟩) with
      arrays := (Arena.empty.apply .allocate).apply (.collect []) }
    ¬ c.arrays.Live ⟨0, 0⟩ ∧ ∃ c',
      Returns (exec · (.assign "A" [.literal (.text "X") 1] (.literal (.integer 1) 1) 1)) c .next c' := by
  intro c
  have hnew := Context.reachable_new {} ()
  have hset := hnew.step (.setGlobal "A" (.array ⟨0, 0⟩) _)
  have hc : c.Reachable := (hset.step (.operation .allocate _)).step (.operation (.collect []) _)
  have hkeys : KeysTo [.literal (.text "X") 1] c [.text "X"] c :=
    .cons (returns_literal _ 1 c) rfl .nil
  have hunreachable : ∀ a h, ¬ Arena.Reachable a [] h := by
    intro a h hr
    induction hr with
    | root hv _ => cases hv
    | entry _ _ _ _ ih => exact ih
  refine ⟨fun hl => hunreachable _ _ (((Arena.collected_collect _ []).isLive_iff _).1 hl).2, ?_⟩
  have hs : Writes (.assign "A" [.literal (.text "X") 1] (.literal (.integer 1) 1) 1) := trivial
  exact ((writes_fail_before_writing hc).1 _ hs).1 c (.assign hkeys (returns_literal _ 1 c))

end Machine

end BasicScript
