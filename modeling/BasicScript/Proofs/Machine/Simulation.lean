/-
  Two runs side by side.

  * `Simulation σ`: worlds, which grow along the runs, and what each of them says of the references
    and of the contexts of the two runs.
  * `S.Agree w P r r'`: the outcomes of two steps that began in world `w` agree.  Both give results
    that `P` relates, or both fail in the same way; errors that are exempt end the comparison.
  * `Simulation.Lawful S` lists what is asked of a simulation so that two runs of one program agree.

  The steps without fuel are treated here (`Lawful.bind`, `Lawful.store`, `Lawful.inCall`, ...); whole
  runs follow from them.
-/
import BasicScript.Proofs.Machine.Related

namespace BasicScript

variable {σ α β γ δ : Type}

/-! ## Simulations -/

/-- The same event, but for the references in it. -/
inductive Event.Related (R : Handle → Handle → Prop) : Event → Event → Prop
  | print (text : String) : Related R (.print text) (.print text)
  | log (text : String) : Related R (.log text) (.log text)
  | error (message : String) : Related R (.error message) (.error message)
  | command {vs vs' : List Value} (name : String) : List.Forall₂ (Value.Related R) vs vs' →
      Related R (.command name vs) (.command name vs')
  | native {vs vs' : List Value} (key : CallKey) : List.Forall₂ (Value.Related R) vs vs' →
      Related R (.native key vs) (.native key vs')

/-- The same flow of control, but for a reference in the value of a `RETURN`. -/
inductive Flow.Related (R : Handle → Handle → Prop) : Flow → Flow → Prop
  | next : Related R .next .next
  | return_ {v v' : Value} : v.Related R v' → Related R (.return_ v) (.return_ v')
  | abort (line : Nat) : Related R (.abort line) (.abort line)

/-- What two runs have in common: in each world, how their references and their contexts are
related.  Worlds grow along the runs. -/
structure Simulation (σ : Type) where
  World : Type
  le : World → World → Prop
  handle : World → Handle → Handle → Prop
  context : World → Context σ → Context σ → Prop
  /-- The errors of the left run after which the right one may go on as it likes. -/
  exempt : Stop → Prop

namespace Simulation

variable (S : Simulation σ)

/-- The values that a world relates. -/
abbrev value (w : S.World) : Value → Value → Prop := Value.Related (S.handle w)

/-- The lists of values that a world relates. -/
abbrev values (w : S.World) : List Value → List Value → Prop := List.Forall₂ (S.value w)

/-- The outcomes of two steps from world `w` agree: results are related by `P`, errors are the same,
and the contexts that the steps leave are related in a world that is at least `w`. -/
inductive Agree (w : S.World) (P : S.World → α → β → Prop) :
    EStateM.Result Stop (Context σ) α → EStateM.Result Stop (Context σ) β → Prop
  | ok {w' : S.World} {a : α} {b : β} {c c' : Context σ} : S.le w w' → S.context w' c c' →
      P w' a b → Agree w P (.ok a c) (.ok b c')
  | error {w' : S.World} {e : Stop} {c c' : Context σ} : S.le w w' → S.context w' c c' →
      Agree w P (.error e c) (.error e c')
  | exempt {e : Stop} {c : Context σ} {r : EStateM.Result Stop (Context σ) β} : S.exempt e →
      Agree w P (.error e c) r

/-- What is asked of a simulation: each relation of contexts tells what the elementary steps read,
and the elementary changes keep it. -/
structure Lawful : Prop where
  refl : ∀ w, S.le w w
  trans : ∀ {w w' w''}, S.le w w' → S.le w' w'' → S.le w w''
  handle_mono : ∀ {w w' h k}, S.le w w' → S.handle w h k → S.handle w' h k
  oneToOne : ∀ {w c c'}, S.context w c c' → Value.OneToOne (S.handle w)
  arrays : ∀ {w c c' h k}, S.context w c c' → S.handle w h k →
    c.arrays.Alike (S.handle w) c'.arrays h k
  render : ∀ {w c c' v v'}, S.context w c c' → S.value w v v' → c.render v = c'.render v'
  reading : ∀ {w c c'}, S.context w c c' → ∀ name,
    S.value w ((c.findVariable? name).getD .empty) ((c'.findVariable? name).getD .empty)
  subroutines : ∀ {w c c'}, S.context w c c' → c.subroutines = c'.subroutines
  assignment : ∀ {w c c' v v'}, S.context w c c' → ∀ name, S.value w v v' →
    S.context w (c.setVariable name v) (c'.setVariable name v')
  allocation : ∀ {w c c'}, S.context w c c' → ∃ w', S.le w w' ∧
    S.handle w' c.arrays.allocate.1 c'.arrays.allocate.1 ∧
    S.context w' { c with arrays := c.arrays.allocate.2 } { c' with arrays := c'.arrays.allocate.2 }
  change : ∀ {w c c' h k f f'}, S.context w c c' → S.handle w h k → c.arrays.isLive h = true →
    (∀ es es', TableRelated (S.handle w) es es' → TableRelated (S.handle w) (f es) (f' es')) →
    S.context w { c with arrays := c.arrays.modify h f } { c' with arrays := c'.arrays.modify k f' }
  event : ∀ {w c c' e e'}, S.context w c c' → e.Related (S.handle w) e' →
    S.context w (c.emit e) (c'.emit e')
  native : ∀ {w c c'}, S.context w c c' → ∀ key,
    (c.native? key = none ∧ c'.native? key = none) ∨
    ∃ f f', c.native? key = some f ∧ c'.native? key = some f' ∧ ∀ vs vs' line, S.values w vs vs' →
      S.Agree w S.value (Machine.callNative f key vs line c) (Machine.callNative f' key vs' line c')
  pass : ∀ {w c c'}, S.context w c c' → ∀ count line,
    S.Agree w (fun _ => Eq) (Machine.countPass count line c) (Machine.countPass count line c')
  refused : ∀ {w c c'}, S.context w c c' → c.limits.callDepth ≤ c.callDepth → ∀ line,
    S.exempt (.raised ⟨.recursionLimit c.limits.callDepth, line⟩) ∨
    c.limits.callDepth = c'.limits.callDepth ∧ c'.limits.callDepth ≤ c'.callDepth
  allowed : ∀ {w c c'}, S.context w c c' → c.callDepth < c.limits.callDepth →
    c'.callDepth < c'.limits.callDepth
  enter : ∀ {w c c' vs vs'}, S.context w c c' → ∀ params, S.values w vs vs' → ∃ w₁,
    S.context w₁ (c.enter (.ofArguments params vs)) (c'.enter (.ofArguments params vs')) ∧
    ∀ w₂ c₂ c₂', S.le w₁ w₂ → S.context w₂ c₂ c₂' → ∃ w₃, S.le w w₃ ∧
      S.context w₃ c₂.leave c₂'.leave ∧ ∀ v v', S.value w₂ v v' → S.value w₃ v v'

/-- References are related to themselves only. -/
def Exact : Prop := ∀ w h k, S.handle w h k → h = k

variable {S} {w : S.World} {c c' : Context σ} {P : S.World → α → β → Prop}

/-! ## Outcomes that agree -/

namespace Lawful

variable (hS : S.Lawful)
include hS

theorem value_mono {w' : S.World} {v v' : Value} (hw : S.le w w') (hv : S.value w v v') :
    S.value w' v v' :=
  hv.mono fun _ _ => hS.handle_mono hw

theorem of_le {w' : S.World} {r : EStateM.Result Stop (Context σ) α}
    {r' : EStateM.Result Stop (Context σ) β} (hw : S.le w w') (h : S.Agree w' P r r') :
    S.Agree w P r r' := by
  cases h with
  | ok hw' hc hP => exact .ok (hS.trans hw hw') hc hP
  | error hw' hc => exact .error (hS.trans hw hw') hc
  | exempt he => exact .exempt he

/-- Steps in sequence: the second ones begin in the world in which the first ones end. -/
theorem bind {Q : S.World → γ → δ → Prop} {m : Machine σ α} {m' : Machine σ β}
    {f : α → Machine σ γ} {f' : β → Machine σ δ} (hm : S.Agree w P (m c) (m' c'))
    (hf : ∀ w₁ a b c₁ c₁', m c = .ok a c₁ → S.le w w₁ → S.context w₁ c₁ c₁' → P w₁ a b →
      S.Agree w₁ Q (f a c₁) (f' b c₁')) :
    S.Agree w Q ((m >>= f) c) ((m' >>= f') c') := by
  cases hr : m c with
  | ok a c₁ =>
    rw [hr] at hm
    cases hr' : m' c' with
    | ok b c₁' =>
      rw [hr'] at hm
      rw [bind_of_ok hr, bind_of_ok hr']
      cases hm with
      | ok hw hc hP => exact hS.of_le hw (hf _ a b c₁ c₁' hr hw hc hP)
    | error e' c₁' =>
      rw [hr'] at hm
      cases hm
  | error e c₁ =>
    rw [hr] at hm
    rw [bind_of_error hr]
    cases hr' : m' c' with
    | ok b c₁' =>
      rw [hr'] at hm
      cases hm with
      | exempt he => exact .exempt he
    | error e' c₁' =>
      rw [hr'] at hm
      rw [bind_of_error hr']
      cases hm with
      | error hw hc => exact .error hw hc
      | exempt he => exact .exempt he

theorem pure (hc : S.context w c c') {a : α} {b : β} (hP : P w a b) :
    S.Agree w P ((Pure.pure a : Machine σ α) c) ((Pure.pure b : Machine σ β) c') :=
  .ok (hS.refl w) hc hP

theorem raise (hc : S.context w c c') (fault : Fault) (line : Nat) :
    S.Agree w P (Machine.raise fault line c) (Machine.raise fault line c') :=
  .error (hS.refl w) hc

theorem onLine {P : S.World → α → α → Prop} (hc : S.context w c c') {r r' : Except Fault α}
    (hr : r = r') (line : Nat) (hP : ∀ a, r = .ok a → P w a a) :
    S.Agree w P (Machine.onLine line r c) (Machine.onLine line r' c') := by
  subst hr
  cases r with
  | ok a => exact hS.pure hc (hP a rfl)
  | error fault => exact hS.raise hc fault line

end Lawful

/-! ## Steps that read -/

namespace Lawful

variable (hS : S.Lawful)
include hS

theorem readVariable (hc : S.context w c c') (name : String) :
    S.Agree w S.value (Machine.readVariable name c) (Machine.readVariable name c') :=
  hS.pure hc (hS.reading hc name)

theorem readEntry {t t' k k' : Value} (hc : S.context w c c') (ht : S.value w t t')
    (hk : S.value w k k') (line : Nat) :
    S.Agree w S.value (Machine.readEntry t k line c) (Machine.readEntry t' k' line c') := by
  cases ht with
  | array hh =>
    have hkey := hS.onLine (P := fun _ => Eq) hc hk.key_eq line fun _ _ => rfl
    refine hS.bind hkey ?_
    rintro w₁ key _ c₁ c₁' - hw hc rfl
    exact hS.pure hc ((hS.arrays hc (hS.handle_mono hw hh)).lookup key)
  | same ht =>
    cases t with
    | array h => cases ht
    | empty => exact hS.pure hc (.same rfl)
    | _ => exact hS.raise hc _ line

theorem liveArray? {v v' : Value} (hc : S.context w c c') (hv : S.value w v v') :
    S.Agree w (fun w => Option.Rel (S.handle w)) (Machine.liveArray? v c)
      (Machine.liveArray? v' c') := by
  refine .ok (hS.refl w) hc ?_
  cases hv with
  | same hv =>
    rw [hv]
    exact .none
  | @array h k hk =>
    have hlive := (hS.arrays hc hk).isLive_eq
    cases hl : c.arrays.isLive h with
    | true => simp [Value.handle?, Option.filter, hl, ← hlive, Option.Rel.some hk]
    | false => simp [Value.handle?, Option.filter, hl, ← hlive]

/-! ## Steps that write -/

theorem emit {e e' : Event} (hc : S.context w c c') (he : e.Related (S.handle w) e') :
    S.Agree w (fun _ _ _ => True) (Machine.emit e c) (Machine.emit e' c') :=
  .ok (hS.refl w) (hS.event hc he) trivial

theorem setVariable {v v' : Value} (hc : S.context w c c') (name : String) (hv : S.value w v v') :
    S.Agree w (fun _ _ _ => True) ((modify (·.setVariable name v) : Machine σ Unit) c)
      ((modify (·.setVariable name v') : Machine σ Unit) c') :=
  .ok (hS.refl w) (hS.assignment hc name hv) trivial

theorem allocate (hc : S.context w c c') :
    S.Agree w S.handle (Machine.allocate c) (Machine.allocate c') := by
  obtain ⟨w', hw, hh, hc'⟩ := hS.allocation hc
  exact .ok hw hc' hh

theorem modifyEntries {h k : Handle} {f f' : Entries → Entries} (hc : S.context w c c')
    (hk : S.handle w h k) (line : Nat) (hf : ∀ es es', TableRelated (S.handle w) es es' →
      TableRelated (S.handle w) (f es) (f' es')) :
    S.Agree w (fun _ _ _ => True) (Machine.modifyEntries h line f c)
      (Machine.modifyEntries k line f' c') := by
  have halike := hS.arrays hc hk
  rw [Machine.modifyEntries_eq, Machine.modifyEntries_eq, ← halike.isLive_eq]
  by_cases hl : c.arrays.isLive h = true
  · rw [if_pos hl, if_pos hl]
    exact .ok (hS.refl w) (hS.change hc hk hl hf) trivial
  · rw [if_neg hl, if_neg hl]
    cases halike with
    | entries hes => exact absurd (by rw [Arena.isLive, hes]; rfl) hl
    | none => exact .error (hS.refl w) hc

theorem insertEntry {h k : Handle} {v v' : Value} (hc : S.context w c c') (hk : S.handle w h k)
    (key : Key) (line : Nat) (hv : S.value w v v') :
    S.Agree w (fun _ _ _ => True) (Machine.modifyEntries h line (·.insert key v) c)
      (Machine.modifyEntries k line (·.insert key v') c') :=
  hS.modifyEntries hc hk line fun _ _ => Entries.related_insert key hv

theorem variableArray (hc : S.context w c c') (name : String) :
    S.Agree w S.handle (Machine.variableArray name c) (Machine.variableArray name c') := by
  refine hS.bind (hS.readVariable hc name) fun w₁ v v' c₁ c₁' _ _ hc hv => ?_
  refine hS.bind (hS.liveArray? hc hv) fun w₂ live live' c₂ c₂' _ _ hc hlive => ?_
  cases hlive with
  | some hk => exact hS.pure hc hk
  | none =>
    refine hS.bind (hS.allocate hc) fun w₃ h k c₃ c₃' _ _ hc hk => ?_
    refine hS.bind (hS.setVariable hc name (.array hk)) fun w₄ _ _ c₄ c₄' _ hw hc _ => ?_
    exact hS.pure hc (hS.handle_mono hw hk)

theorem entryArray {parent parent' : Handle} (hc : S.context w c c')
    (hp : S.handle w parent parent') (key : Key) (line : Nat) :
    S.Agree w S.handle (Machine.entryArray parent key line c)
      (Machine.entryArray parent' key line c') := by
  have hv := (hS.arrays hc hp).lookup key
  rw [Machine.entryArray, Machine.entryArray, bind_of_ok (m := get) rfl, bind_of_ok (m := get) rfl]
  refine hS.bind (hS.liveArray? hc hv) fun w₁ live live' c₁ c₁' _ hw hc hlive => ?_
  cases hlive with
  | some hk => exact hS.pure hc hk
  | none =>
    refine hS.bind (hS.allocate hc) fun w₂ h k c₂ c₂' _ hw' hc hk => ?_
    have hp := hS.handle_mono hw' (hS.handle_mono hw hp)
    refine hS.bind (hS.insertEntry hc hp key line (.array hk)) fun w₃ _ _ c₃ c₃' _ hw hc _ => ?_
    exact hS.pure hc (hS.handle_mono hw hk)

theorem storeAt {v v' : Value} (line : Nat) (keys : List Key) :
    ∀ {w c c' h k} (key : Key), S.context w c c' → S.handle w h k → S.value w v v' →
      S.Agree w (fun _ _ _ => True) (Machine.storeAt v line h key keys c)
        (Machine.storeAt v' line k key keys c') := by
  induction keys with
  | nil => exact fun key hc hk hv => hS.insertEntry hc hk key line hv
  | cons key' keys ih =>
    intro w c c' h k key hc hk hv
    refine hS.bind (hS.entryArray hc hk key line) fun w₁ h' k' c₁ c₁' _ hw hc hk' => ?_
    exact ih key' hc hk' (hS.value_mono hw hv)

theorem store {v v' : Value} (hc : S.context w c c') (name : String) (keys : List Key)
    (hv : S.value w v v') (line : Nat) :
    S.Agree w (fun _ _ _ => True) (Machine.store name keys v line c)
      (Machine.store name keys v' line c') := by
  cases keys with
  | nil => exact hS.setVariable hc name hv
  | cons key keys =>
    refine hS.bind (hS.variableArray hc name) fun w₁ h k c₁ c₁' _ hw hc hk => ?_
    exact hS.storeAt line keys key hc hk (hS.value_mono hw hv)

theorem clear (hc : S.context w c c') (name : String) (key : Option Key) (line : Nat) :
    S.Agree w (fun _ _ _ => True) (Machine.clear name key line c)
      (Machine.clear name key line c') := by
  cases key with
  | none =>
    refine hS.bind (hS.allocate hc) fun w₁ h k c₁ c₁' _ _ hc hk => ?_
    exact hS.setVariable hc name (.array hk)
  | some key =>
    refine hS.bind (hS.variableArray hc name) fun w₁ h k c₁ c₁' _ _ hc hk => ?_
    exact hS.modifyEntries hc hk line fun _ _ => Entries.related_erase key

/-! ## Calls -/

/-- Calls agree if their bodies do, in the frames of the calls. -/
theorem inCall {vs vs' : List Value} (hc : S.context w c c') (params : List String)
    (hvs : S.values w vs vs') (line : Nat) {body : Machine σ Flow}
    (hbody : c.callDepth < c.limits.callDepth → ∀ w₁,
      S.context w₁ (c.enter (.ofArguments params vs)) (c'.enter (.ofArguments params vs')) →
      S.Agree w₁ (fun w => Flow.Related (S.handle w)) (body (c.enter (.ofArguments params vs)))
        (body (c'.enter (.ofArguments params vs')))) :
    S.Agree w S.value (Machine.inCall (.ofArguments params vs) line body c)
      (Machine.inCall (.ofArguments params vs') line body c') := by
  rcases Nat.lt_or_ge c.callDepth c.limits.callDepth with hd | hd
  · obtain ⟨w₁, hc₁, hleave⟩ := hS.enter hc params hvs
    rw [Machine.inCall_of_lt hd, Machine.inCall_of_lt (hS.allowed hc hd)]
    have hagree := hbody hd w₁ hc₁
    generalize body (c.enter (.ofArguments params vs)) = r at hagree
    generalize body (c'.enter (.ofArguments params vs')) = r' at hagree
    cases hagree with
    | ok hw hc₂ hflow =>
      obtain ⟨w₃, hw₃, hc₃, hv₃⟩ := hleave _ _ _ hw hc₂
      cases hflow with
      | next => exact .ok hw₃ hc₃ (.same rfl)
      | return_ hv => exact .ok hw₃ hc₃ (hv₃ _ _ hv)
      | abort l => exact .error hw₃ hc₃
    | error hw hc₂ =>
      obtain ⟨w₃, hw₃, hc₃, -⟩ := hleave _ _ _ hw hc₂
      exact .error hw₃ hc₃
    | exempt he => exact .exempt he
  · rw [Machine.inCall_of_le hd]
    rcases hS.refused hc hd line with he | ⟨hlimit, hd'⟩
    · exact .exempt he
    · rw [Machine.inCall_of_le hd', hlimit]
      exact .error (hS.refl w) hc

end Lawful

end Simulation

end BasicScript
