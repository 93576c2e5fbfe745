/-
  Assignments to entries store their value, and nothing else moves.

  * `Context.Updated s name keys v slots c'`: what storing `v` behind keys of a variable makes of the
    context; `Stored.updated`: so it does if the free list is in order.
  * `Expr.path target es`: the expression that reads the entry of these keys, one behind the other.
  * `returns_path`: it comes to what the keys lead to; `Updated.returns_path`: after the store this is
    the value, from any array on the path.
  * `indexed_assignment_stores`: this for the assignments of reachable contexts.
-/
import BasicScript.Proofs.Machine.Assignments
import BasicScript.Proofs.Machine.Frames

namespace BasicScript

open Machine

variable {σ : Type} {c c' s : Context σ} {name : String} {v : Value} {k : Key} {keys : List Key}
  {slots : List (Handle × Key)}

/-! ## Storing -/

/-- What storing a value behind keys of a variable, through these slots, makes of the context. -/
structure Context.Updated (s : Context σ) (name : String) (keys : List Key) (v : Value)
    (slots : List (Handle × Key)) (c' : Context σ) : Prop where
  arrays : s.arrays.Written (s.valueOf name) keys v slots c'.arrays
  /-- Only the active frame and the arrays change. -/
  rest : c' = { s with active := c'.active, arrays := c'.arrays }
  others : ∀ n, n ≠ name → c'.findVariable? n = s.findVariable? n
  /-- The variable holds the first array of the path. -/
  held : ∀ p, slots.head? = some p → c'.findVariable? name = some (.array p.1)
  /-- A live array in the variable stays there. -/
  kept : ∀ h, s.arrays.array? (s.valueOf name) = some h → c'.active = s.active

theorem Context.findVariable?_of_valueOf {h : Handle} (hx : s.valueOf name = .array h) :
    s.findVariable? name = some (.array h) := by
  rw [valueOf] at hx
  cases hv : s.findVariable? name with
  | none =>
    rw [hv] at hx
    cases hx
  | some x =>
    rw [hv] at hx
    exact congrArg some hx

theorem Machine.Stored.updated (h : Stored name v s (k :: keys) c') (hs : s.arrays.Tidy)
    (hkeys : ∀ k' ∈ k :: keys, k'.Canonical) : ∃ slots, s.Updated name (k :: keys) v slots c' := by
  cases h with
  | @entry _ _ slots b hstores =>
    have hw := hstores.written (s.tidy_arrayOf hs name) (s.live_arrayOf hs name) hkeys
    obtain ⟨rest, rfl⟩ := hw.exists_cons (s.live_arrayOf hs name)
    refine ⟨((s.arrayOf name).1, k) :: rest, ?_⟩
    cases hx : s.arrays.array? (s.valueOf name) with
    | some h =>
      rw [Context.arrayOf_of_some hx] at hw ⊢
      have hvalue := (Arena.array?_eq_some_iff.1 hx).1
      refine ⟨hvalue ▸ hw, rfl, fun _ _ => rfl, ?_, fun _ _ => rfl⟩
      rintro _ ⟨⟩
      exact s.findVariable?_of_valueOf hvalue
    | none =>
      rw [Context.arrayOf_of_none hx] at hw ⊢
      refine ⟨hw.of_allocate hs hx, rfl, fun n hn => ?_, ?_, ?_⟩
      · exact s.active.find?_set_of_ne _ hn
      · rintro _ ⟨⟩
        exact s.active.find?_set_self name _
      · rintro h hh
        rw [hx] at hh
        cases hh

/-! ## Reading -/

/-- The expression that reads the entry of the keys, one behind the other. -/
def Expr.path (target : Expr) (es : List (Expr × Nat)) : Expr :=
  es.foldl (fun t e => .index t e.1 e.2) target

namespace Machine

/-- The expression comes to the key and changes nothing. -/
def KeyOf (c : Context σ) (x : Expr) (k : Key) : Prop :=
  ∃ v, Returns (eval · x) c v c ∧ Key.ofValue v = .ok k

variable {x y : Value} {target key : Expr} {line : Nat}

theorem returns_name (name : String) (line : Nat) (c : Context σ) :
    Returns (eval · (.name name line)) c (c.valueOf name) c := by
  refine ⟨1, ?_⟩
  simp only [eval]
  rfl

theorem returns_index {c₁ c₂ : Context σ} (ht : Returns (eval · target) c x c₁)
    (hk : Returns (eval · key) c₁ v c₂) (hread : readEntry x v line c₂ = .ok y c') :
    Returns (eval · (.index target key line)) c y c' := by
  have hsteady : ∀ x, Steady (σ := σ) fun n => eval n key >>= fun v => readEntry x v line :=
    fun x => (steady_eval key).bind fun v => steady_const _
  rw [returns_succ (eval_zero _)]
  simp only [eval]
  rw [returns_bind (steady_eval target) hsteady]
  refine ⟨x, c₁, ht, (returns_bind (steady_eval key) fun v => steady_const (readEntry x v line)).2 ?_⟩
  exact ⟨v, c₂, hk, returns_const.2 hread⟩

theorem readEntry_array {h : Handle} (hk : Key.ofValue v = .ok k) (line : Nat) (c : Context σ) :
    readEntry (.array h) v line c = .ok (c.arrays.lookup h k) c := by
  rw [readEntry, hk]
  rfl

/-- A path comes to what its keys lead to. -/
theorem returns_path {es : List (Expr × Nat)}
    (hes : List.Forall₂ (fun e k => KeyOf c e.1 k) es keys)
    (ht : Returns (eval · target) c x c) (hread : c.arrays.read? x keys = some y) :
    Returns (eval · (target.path es)) c y c := by
  induction hes generalizing target x with
  | nil =>
    rw [Arena.read?] at hread
    cases hread
    exact ht
  | @cons e k es keys he _ ih =>
    obtain ⟨v, hv, hk⟩ := he
    cases x with
    | array h => exact ih (returns_index ht hv (readEntry_array hk e.2 c)) hread
    | empty => exact ih (returns_index ht hv rfl) hread
    | _ => cases hread

theorem KeysTo.unique {es : List Expr} {keys' : List Key} {c'' : Context σ}
    (h : KeysTo es c keys c') (h' : KeysTo es c keys' c'') : keys = keys' ∧ c' = c'' :=
  (returns_evalKeys_iff.2 h).unique (steady_evalKeys es 0) (returns_evalKeys_iff.2 h')

end Machine

/-- From each array on the path the other keys lead to the value, if the slot written last is not
among those that they go through before. -/
theorem Context.Updated.returns_path (hu : s.Updated name keys v slots c')
    {first rest : List (Handle × Key)} {p : Handle × Key} (hslots : slots = first ++ p :: rest)
    (hearly : ∀ early q, p :: rest = early ++ [q] → q ∉ early) {target : Expr}
    {es : List (Expr × Nat)} (ht : Returns (eval · target) c' (.array p.1) c')
    (hes : List.Forall₂ (fun e k => KeyOf c' e.1 k) es ((p :: rest).map (·.2))) :
    Returns (eval · (target.path es)) c' v c' :=
  Machine.returns_path hes ht (hu.arrays.read?_eq hslots hearly)

/-- From the variable the keys lead to the value. -/
theorem Context.Updated.returns_name_path (hu : s.Updated name (k :: keys) v slots c')
    (hearly : ∀ early q, slots = early ++ [q] → q ∉ early) {es : List (Expr × Nat)} (line : Nat)
    (hes : List.Forall₂ (fun e k => KeyOf c' e.1 k) es (k :: keys)) :
    Returns (eval · ((Expr.name name line).path es)) c' v c' := by
  obtain ⟨p, rest, rfl, -⟩ := List.map_eq_cons_iff.1 hu.arrays.keys_eq
  rw [← hu.arrays.keys_eq] at hes
  have hname := returns_name name line c'
  rw [Context.valueOf, hu.held p rfl] at hname
  exact hu.returns_path (List.nil_append _).symm hearly hname hes

/-! ## Assignments -/

/-- **An assignment to an entry stores its value, and nothing else moves.**  Live arrays on the path
are kept and anything else on it is replaced by new arrays; one entry of one live array is set, and
no other variable.  If the slot written last is not among the earlier ones, the path comes to the
value from then on, beginning with any expression for one of its arrays, in particular with the
variable. -/
theorem indexed_assignment_stores {c c' : Context σ} (hc : c.Reachable) {name : String}
    {indices : List Expr} {value : Expr} {line : Nat} {flow : Flow} (hn : indices ≠ [])
    (hrun : Returns (exec · (.assign name indices value line)) c flow c') :
    ∃ keys c₁ v s slots, KeysTo indices c keys c₁ ∧ Returns (eval · value) c₁ v s ∧
      flow = .next ∧ s.Updated name keys v slots c' ∧
      (∀ h, s.arrays.Live h → c'.arrays.Live h ∧ ∀ k, k.Canonical →
        (s.arrays.trail (s.valueOf name) keys).getLast? ≠ some (h, k) →
        c'.arrays.lookup h k = s.arrays.lookup h k) ∧
      (∀ first p rest, slots = first ++ p :: rest →
        (∀ early q, p :: rest = early ++ [q] → q ∉ early) →
        ∀ target es, Returns (eval · target) c' (.array p.1) c' →
          List.Forall₂ (fun e k => KeyOf c' e.1 k) es ((p :: rest).map (·.2)) →
          Returns (eval · (target.path es)) c' v c') ∧
      ((∀ early q, slots = early ++ [q] → q ∉ early) →
        ∀ es l, List.Forall₂ (fun e k => KeyOf c' e.1 k) es keys →
          Returns (eval · ((Expr.name name l).path es)) c' v c') := by
  obtain ⟨keys, c₁, hkeys, v, s, hv, hstore, rfl⟩ := returns_assign_iff.1 hrun
  have hs := hv.tidy (hkeys.tidy hc.tidy)
  have hcanonical := hkeys.canonical
  obtain ⟨k, keys, rfl⟩ : ∃ k ks, keys = k :: ks := by
    cases hkeys with
    | nil => exact absurd rfl hn
    | cons _ _ _ => exact ⟨_, _, rfl⟩
  obtain ⟨_, hok, hstored⟩ := store_ok hs name (k :: keys) v line
  cases hok.symm.trans hstore
  obtain ⟨slots, hupdated⟩ := hstored.updated hs hcanonical
  have hw := hupdated.arrays
  refine ⟨k :: keys, c₁, v, s, slots, hkeys, hv, rfl, hupdated, fun h hl => ?_, ?_, ?_⟩
  · exact ⟨hw.live hl, fun k hk hne => hw.lookup_eq hcanonical hl hk hne⟩
  · exact fun first p rest hslots hearly target es => hupdated.returns_path hslots hearly
  · exact fun hearly es l => hupdated.returns_name_path hearly l

/-- Two new arrays take the place of one that is not alive, and the entry of the second is read. -/
theorem nested_entry_read :
    let c : Context Unit := (Context.new {} ()).setGlobal "A" (.array ⟨0, 1⟩)
    let x : Expr := .literal (.text "X") 1
    let y : Expr := .literal (.text "Y") 1
    c.valueOf "A" = .array ⟨0, 1⟩ ∧ c.arrays.array? (c.valueOf "A") = none ∧ ∃ c',
      Returns (exec · (.assign "A" [x, y] (.literal (.integer 1) 1) 1)) c .next c' ∧
      Returns (eval · ((Expr.name "A" 1).path [(x, 1), (y, 1)])) c' (.integer 1) c' := by
  intro c x y
  have hc : c.Reachable := (Context.reachable_new {} ()).step (.setGlobal _ _ _)
  have hx : ∀ c : Context Unit, Returns (eval · x) c (.text "X") c := returns_literal _ 1
  have hy : ∀ c : Context Unit, Returns (eval · y) c (.text "Y") c := returns_literal _ 1
  have hkeys : KeysTo [x, y] c [.text "X", .text "Y"] c := .cons (hx c) rfl (.cons (hy c) rfl .nil)
  have hvalue := returns_literal (.integer 1) 1 c
  have hprepared : Prepared (.assign "A" [x, y] (.literal (.integer 1) 1) 1) c c :=
    .assign hkeys hvalue
  obtain ⟨c', hrun⟩ := returns_of_prepared hc.tidy hprepared
  obtain ⟨_, _, _, _, slots, hkeys', hvalue', -, hupdated, -, -, hread⟩ :=
    indexed_assignment_stores hc (List.cons_ne_nil _ _) hrun
  obtain ⟨rfl, rfl⟩ := hkeys.unique hkeys'
  obtain ⟨rfl, rfl⟩ := hvalue.unique (steady_eval _) hvalue'
  have hheld : c.valueOf "A" = .array ⟨0, 1⟩ := by decide +kernel
  have hnone : c.arrays.array? (c.valueOf "A") = none := by decide +kernel
  refine ⟨hheld, hnone, c', hrun, hread (fun early q hslots hq => ?_) [(x, 1), (y, 1)] 1
    (.cons ⟨_, hx c', rfl⟩ (.cons ⟨_, hy c', rfl⟩ .nil))⟩
  -- The keys of the two slots differ.
  have hslots_keys := hupdated.arrays.keys_eq
  rw [hslots, List.map_append] at hslots_keys
  have hmap : early.map (·.2) ++ [q.2] = [Key.text "X"] ++ [Key.text "Y"] := hslots_keys
  obtain ⟨hearly, hlast⟩ := List.append_inj' hmap rfl
  have hmem := List.mem_map_of_mem (f := (·.2)) hq
  rw [hearly, List.singleton_inj.1 hlast] at hmem
  exact absurd hmem (by decide)

end BasicScript
