/-
  Invariants of single runs.

  An invariant speaks of the references that a run may have at hand, and of the contexts it may be
  in.  It is a simulation of each run with itself, in which references are related to themselves.

  * `Value.Within P v`: the reference in the value, if there is one, satisfies `P`; `TableWithin` and
    `Frame.Within` are the same for tables and frames.
  * `Invariant σ`: worlds, which grow along a run, the references and the contexts of each.
  * `Invariant.Lawful I` lists what is asked of an invariant so that every run keeps it.
  * `I.Ends w P r`: the outcome of a step that began in world `w` is a good one.
  * `Lawful.call`, `Lawful.execute`: runs end well.
-/
import BasicScript.Proofs.Arena.FreeList
import BasicScript.Proofs.Machine.Lockstep

namespace BasicScript

variable {σ α β : Type} {P Q : Handle → Prop}

/-! ## Values and tables within a set of references -/

/-- The reference in the value, if there is one, satisfies `P`. -/
def Value.Within (P : Handle → Prop) (v : Value) : Prop := ∀ h, v.handle? = some h → P h

/-- The references in the values of the table satisfy `P`. -/
def TableWithin {κ : Type} (P : Handle → Prop) (t : List (κ × Value)) : Prop :=
  ∀ e ∈ t, e.2.Within P

/-- The references in the variables of the frame satisfy `P`. -/
def Frame.Within (P : Handle → Prop) (f : Frame) : Prop := TableWithin P f.bindings

/-- References in `P`, related to themselves. -/
def diagonal (P : Handle → Prop) (h k : Handle) : Prop := P h ∧ h = k

theorem diagonal_oneToOne (P : Handle → Prop) : Value.OneToOne (diagonal P) := by
  rintro h _ h' _ ⟨-, rfl⟩ ⟨-, rfl⟩
  rfl

section
variable {v v' : Value}

theorem Value.Within.mono (hv : v.Within P) (hPQ : ∀ h, P h → Q h) : v.Within Q :=
  fun h hh => hPQ h (hv h hh)

theorem Value.within_of_handle? (hv : v.handle? = none) : v.Within P := by
  intro h hh
  rw [hv] at hh
  cases hh

theorem Value.within_array {h : Handle} : (Value.array h).Within P ↔ P h :=
  ⟨fun hv => hv h rfl, by
    rintro hP _ ⟨⟩
    exact hP⟩

theorem Value.related_diagonal : v.Related (diagonal P) v' ↔ v.Within P ∧ v = v' := by
  constructor
  · rintro (hv | ⟨hP, rfl⟩)
    · exact ⟨within_of_handle? hv, rfl⟩
    · exact ⟨within_array.2 hP, rfl⟩
  · rintro ⟨hv, rfl⟩
    cases v with
    | array h => exact .array ⟨within_array.1 hv, rfl⟩
    | _ => exact .same rfl

theorem values_related_diagonal {vs vs' : List Value} :
    List.Forall₂ (Value.Related (diagonal P)) vs vs' ↔ (∀ v ∈ vs, v.Within P) ∧ vs = vs' := by
  have hrel : Value.Related (diagonal P) = fun v v' => v.Within P ∧ v = v' := by
    funext v v'
    exact propext Value.related_diagonal
  rw [hrel, List.forall₂_and_left, List.forall₂_eq_eq_eq]

theorem tableRelated_diagonal {κ : Type} {t t' : List (κ × Value)} :
    TableRelated (diagonal P) t t' ↔ TableWithin P t ∧ t = t' := by
  have hrel : (fun e e' : κ × Value => e.1 = e'.1 ∧ e.2.Related (diagonal P) e'.2) =
      fun e e' => e.2.Within P ∧ e = e' := by
    funext e e'
    rw [Value.related_diagonal, Prod.ext_iff]
    exact propext and_left_comm
  rw [TableRelated, hrel, List.forall₂_and_left, List.forall₂_eq_eq_eq]
  rfl

theorem Event.Related.eq_of_diagonal {e e' : Event} (he : e.Related (diagonal P) e') : e = e' := by
  cases he with
  | command name hvs => rw [(values_related_diagonal.1 hvs).2]
  | native key hvs => rw [(values_related_diagonal.1 hvs).2]
  | _ => rfl

theorem Flow.related_diagonal {flow flow' : Flow} (h : flow.Related (diagonal P) flow') :
    flow = flow' ∧ ∀ v, flow = .return_ v → v.Within P := by
  cases h with
  | next | abort => exact ⟨rfl, nofun⟩
  | return_ hv =>
    obtain ⟨hwithin, rfl⟩ := Value.related_diagonal.1 hv
    refine ⟨rfl, ?_⟩
    rintro _ ⟨⟩
    exact hwithin

end

namespace Frame

variable {f : Frame} {v : Value}

theorem related_diagonal {f' : Frame} : f.Related (diagonal P) f' ↔ f.Within P ∧ f = f' := by
  rw [Related, tableRelated_diagonal]
  cases f
  cases f'
  simp [Within]

theorem Within.mono (hf : f.Within P) (hPQ : ∀ h, P h → Q h) : f.Within Q :=
  fun e he => (hf e he).mono hPQ

theorem within_empty : empty.Within P := nofun

theorem Within.set (hf : f.Within P) (name : String) (hv : v.Within P) : (f.set name v).Within P :=
  (related_diagonal.1 ((related_diagonal.2 ⟨hf, rfl⟩).set name
    (Value.related_diagonal.2 ⟨hv, rfl⟩))).1

theorem Within.erase (hf : f.Within P) (name : String) : (f.erase name).Within P :=
  fun e he => hf e (List.mem_filter.1 he).1

theorem within_ofArguments (params : List String) {vs : List Value}
    (hvs : ∀ v ∈ vs, v.Within P) : (ofArguments params vs).Within P :=
  (related_diagonal.1 (related_ofArguments params (values_related_diagonal.2 ⟨hvs, rfl⟩))).1

theorem Within.reading (hf : f.Within P) (name : String) :
    ((f.find? name).getD .empty).Within P :=
  (Value.related_diagonal.1
    (value_related_getD ((related_diagonal.2 ⟨hf, rfl⟩).find? name))).1

end Frame

namespace Entries

variable {es : Entries}

theorem within_iff : TableWithin P es ↔ ∀ k ∈ es.handles, P k := by
  simp only [mem_handles]
  exact ⟨fun h k ⟨e, he, hk⟩ => h e he k hk, fun h e he k hk => h k ⟨e, he, hk⟩⟩

end Entries

/-! ## Invariants -/

/-- A property of single runs: in each world, the references that a run may have at hand and the
contexts it may be in.  Worlds grow along a run. -/
structure Invariant (σ : Type) where
  World : Type
  le : World → World → Prop
  handle : World → Handle → Prop
  context : World → Context σ → Prop

namespace Invariant

variable (I : Invariant σ)

/-- What is asked of an invariant: what the elementary steps read is at hand, and the elementary
changes keep the context a good one. -/
structure Lawful : Prop where
  refl : ∀ w, I.le w w
  trans : ∀ {w w' w''}, I.le w w' → I.le w' w'' → I.le w w''
  handle_mono : ∀ {w w' h}, I.le w w' → I.handle w h → I.handle w' h
  entries : ∀ {w c h es}, I.context w c → I.handle w h → c.arrays.entries? h = some es →
    TableWithin (I.handle w) es
  active : ∀ {w c}, I.context w c → c.active.Within (I.handle w)
  natives : ∀ {w c}, I.context w c → c.natives = []
  assignment : ∀ {w c v}, I.context w c → ∀ name, v.Within (I.handle w) →
    I.context w (c.setVariable name v)
  allocation : ∀ {w c}, I.context w c → ∃ w', I.le w w' ∧ I.handle w' c.arrays.allocate.1 ∧
    I.context w' { c with arrays := c.arrays.allocate.2 }
  change : ∀ {w c h es}, I.context w c → I.handle w h → TableWithin (I.handle w) es →
    I.context w { c with arrays := c.arrays.modify h fun _ => es }
  event : ∀ {w c}, I.context w c → ∀ e, I.context w (c.emit e)
  enter : ∀ {w c vs}, I.context w c → ∀ params, (∀ v ∈ vs, v.Within (I.handle w)) → ∃ w₁,
    I.context w₁ (c.enter (.ofArguments params vs)) ∧
    ∀ w₂ c₂, I.le w₁ w₂ → I.context w₂ c₂ → ∃ w₃, I.le w w₃ ∧ I.context w₃ c₂.leave ∧
      ∀ h, I.handle w₂ h → I.handle w₃ h

/-- The simulation of each run with itself. -/
def simulation : Simulation σ where
  World := I.World
  le := I.le
  handle w := diagonal (I.handle w)
  context w c c' := I.context w c ∧ c = c'
  exempt _ := False

theorem simulation_exact : I.simulation.Exact := fun _ _ _ h => h.2

/-- The outcome of a step from world `w` is a good one: the context that it leaves is one of a world
that is at least `w`, and so is the result. -/
inductive Ends (w : I.World) (P : I.World → α → Prop) : EStateM.Result Stop (Context σ) α → Prop
  | ok {w' : I.World} {a : α} {c : Context σ} : I.le w w' → I.context w' c → P w' a →
      Ends w P (.ok a c)
  | error {w' : I.World} {e : Stop} {c : Context σ} : I.le w w' → I.context w' c →
      Ends w P (.error e c)

variable {I} {w : I.World} {c : Context σ}

theorem Ends.after {P : I.World → α → Prop} {m : Machine σ α} (h : I.Ends w P (m c)) :
    ∃ w', I.le w w' ∧ I.context w' (Machine.after m c) := by
  rw [Machine.after]
  generalize m c = r at h
  cases h with
  | ok hw hc _ => exact ⟨_, hw, hc⟩
  | error hw hc => exact ⟨_, hw, hc⟩

/-- A step that agrees with itself ends well. -/
theorem ends_of_agree {P : I.World → α → β → Prop} {Q : I.World → α → Prop}
    {r : EStateM.Result Stop (Context σ) α} {r' : EStateM.Result Stop (Context σ) β}
    (h : I.simulation.Agree w P r r') (hPQ : ∀ w a b, P w a b → Q w a) : I.Ends w Q r := by
  cases h with
  | ok hw hc hP => exact .ok hw hc.1 (hPQ _ _ _ hP)
  | error hw hc => exact .error hw hc.1
  | exempt he => cases he

namespace Lawful

variable (hI : I.Lawful)
include hI

theorem alike (hc : I.context w c) {h : Handle} (hh : I.handle w h) :
    c.arrays.Alike (diagonal (I.handle w)) c.arrays h h := by
  cases hes : c.arrays.entries? h with
  | none => exact .none hes hes
  | some es => exact .entries hes hes (tableRelated_diagonal.2 ⟨hI.entries hc hh hes, rfl⟩)

/-- Two changes that relate the entries of an array to themselves are the same change, to entries
that are at hand. -/
theorem change_eq (hc : I.context w c) {h : Handle} (hh : I.handle w h)
    (hl : c.arrays.isLive h = true) {f f' : Entries → Entries}
    (hf : ∀ es es', TableRelated (diagonal (I.handle w)) es es' →
      TableRelated (diagonal (I.handle w)) (f es) (f' es')) :
    ∃ es, TableWithin (I.handle w) es ∧ c.arrays.modify h f = c.arrays.modify h (fun _ => es) ∧
      c.arrays.modify h f' = c.arrays.modify h (fun _ => es) := by
  obtain ⟨es, hes⟩ := Option.isSome_iff_exists.1 hl
  have hrel := hf es es (tableRelated_diagonal.2 ⟨hI.entries hc hh hes, rfl⟩)
  obtain ⟨hwithin, heq⟩ := tableRelated_diagonal.1 hrel
  exact ⟨f es, hwithin, Arena.modify_congr hes rfl, Arena.modify_congr hes heq.symm⟩

theorem simulation : I.simulation.Lawful where
  refl := hI.refl
  trans := hI.trans
  handle_mono hw hh := ⟨hI.handle_mono hw hh.1, hh.2⟩
  oneToOne _ := diagonal_oneToOne _
  arrays := by
    rintro w c _ h _ ⟨hc, rfl⟩ ⟨hh, rfl⟩
    exact hI.alike hc hh
  render := by
    rintro w c _ v v' ⟨hc, rfl⟩ hv
    rw [(Value.related_diagonal.1 hv).2]
  reading := by
    rintro w c _ ⟨hc, rfl⟩ name
    exact Value.related_diagonal.2 ⟨(hI.active hc).reading name, rfl⟩
  subroutines hc := congrArg _ hc.2
  assignment := by
    rintro w c _ v v' ⟨hc, rfl⟩ name hv
    obtain ⟨hwithin, rfl⟩ := Value.related_diagonal.1 hv
    exact ⟨hI.assignment hc name hwithin, rfl⟩
  allocation := by
    rintro w c _ ⟨hc, rfl⟩
    obtain ⟨w', hw, hh, hc'⟩ := hI.allocation hc
    exact ⟨w', hw, ⟨hh, rfl⟩, hc', rfl⟩
  change := by
    rintro w c _ h _ f f' ⟨hc, rfl⟩ ⟨hh, rfl⟩ hl hf
    obtain ⟨es, hes, hf, hf'⟩ := hI.change_eq hc hh hl hf
    rw [hf, hf']
    exact ⟨hI.change hc hh hes, rfl⟩
  event := by
    rintro w c _ e e' ⟨hc, rfl⟩ he
    exact ⟨hI.event hc e, by rw [he.eq_of_diagonal]⟩
  native := by
    rintro w c _ ⟨hc, rfl⟩ key
    have hnone : c.native? key = none := by rw [Context.native?, hI.natives hc]; rfl
    exact .inl ⟨hnone, hnone⟩
  pass := by
    rintro w c _ ⟨hc, rfl⟩ count line
    have hctx := (Machine.step_countPass (σ := σ) count line).1 c
    cases hr : Machine.countPass count line c with
    | ok n c' =>
      rw [Machine.after_of_ok hr] at hctx
      exact .ok (hI.refl w) ⟨hctx ▸ hc, rfl⟩ rfl
    | error e c' =>
      rw [Machine.after_of_error hr] at hctx
      exact .error (hI.refl w) ⟨hctx ▸ hc, rfl⟩
  refused := by
    rintro w c _ ⟨hc, rfl⟩ hd line
    exact .inr ⟨rfl, hd⟩
  allowed := by
    rintro w c _ ⟨hc, rfl⟩ hd
    exact hd
  enter := by
    rintro w c _ vs vs' ⟨hc, rfl⟩ params hvs
    obtain ⟨hwithin, rfl⟩ := values_related_diagonal.1 hvs
    obtain ⟨w₁, hc₁, hleave⟩ := hI.enter hc params hwithin
    refine ⟨w₁, ⟨hc₁, rfl⟩, ?_⟩
    rintro w₂ c₂ _ hw ⟨hc₂, rfl⟩
    obtain ⟨w₃, hw₃, hc₃, hmono⟩ := hleave w₂ c₂ hw hc₂
    exact ⟨w₃, hw₃, ⟨hc₃, rfl⟩, fun v v' hv => hv.mono fun h k hk => ⟨hmono h hk.1, hk.2⟩⟩

/-! ## Runs -/

/-- Calls end well, with a value at hand. -/
theorem call (hc : I.context w c) (fuel : Nat) (name : String) (line : Nat) {vs : List Value}
    (hvs : ∀ v ∈ vs, v.Within (I.handle w)) :
    I.Ends w (fun w v => v.Within (I.handle w)) (Machine.call fuel name vs line c) :=
  ends_of_agree ((hI.simulation.runs fuel).call name line ⟨hc, rfl⟩
      (values_related_diagonal.2 ⟨hvs, rfl⟩) (.inl I.simulation_exact))
    fun _ _ _ hv => (Value.related_diagonal.1 hv).1

/-- Programs end well, if frames may be dropped. -/
theorem execute (fuel : Nat) (p : Program) (hload : I.context w (c.load p))
    (hreset : ∀ w c, I.context w c → I.context w c.resetFrames) :
    I.Ends w (fun _ _ => True) (Machine.execute fuel p c) := by
  refine ends_of_agree (hI.simulation.execute fuel p ⟨hload, rfl⟩ ?_ (fun _ => nofun)
    (.inl I.simulation_exact)) fun _ _ _ _ => trivial
  rintro w c _ ⟨hc, rfl⟩
  exact ⟨hreset w c hc, rfl⟩

end Lawful

end Invariant

end BasicScript
