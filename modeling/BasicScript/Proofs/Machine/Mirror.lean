/-
  Collecting garbage before a run does not change what the run shows.

  * `Context.Mirrors base R c c'`: the contexts are the same but for where their arrays are; `R`
    pairs the references of one with those of the other.
  * `mirror base`: this as a simulation, the pairs being the worlds.  A run extends them by the
    references to the arrays that it allocates.
  * `Mirrors.collectGarbage`: a context and what collecting its garbage leaves mirror each other.
  * `Context.Renamed R base c c'`, `SameOutcome R base r r'`: what is the same for the host.
  * `collection_invisible`: so a program comes to the same before and after a collection.
-/
import BasicScript.Proofs.Machine.Dangling
import BasicScript.Proofs.Machine.Rendering

namespace BasicScript

variable {σ : Type} {R R' : Handle → Handle → Prop} {base : List Event} {c c' : Context σ}

/-! ## Events -/

theorem Event.Related.mono {e e' : Event} (hR : ∀ h k, R h k → R' h k) (he : e.Related R e') :
    e.Related R' e' := by
  cases he with
  | print text => exact .print text
  | log text => exact .log text
  | error message => exact .error message
  | command name hvs => exact .command name (hvs.imp fun _ _ hv => hv.mono hR)
  | native key hvs => exact .native key (hvs.imp fun _ _ hv => hv.mono hR)

/-- Both hosts have seen `base`, and since then the same events, but for the references in them. -/
def EventsRelated (R : Handle → Handle → Prop) (base events events' : List Event) : Prop :=
  ∃ new new', events = new ++ base ∧ events' = new' ++ base ∧
    List.Forall₂ (Event.Related R) new new'

theorem eventsRelated_refl (R : Handle → Handle → Prop) (base : List Event) :
    EventsRelated R base base base :=
  ⟨[], [], rfl, rfl, .nil⟩

section
variable {events events' : List Event}

theorem EventsRelated.mono (hR : ∀ h k, R h k → R' h k) (h : EventsRelated R base events events') :
    EventsRelated R' base events events' := by
  obtain ⟨new, new', hnew, hnew', hrel⟩ := h
  exact ⟨new, new', hnew, hnew', hrel.imp fun _ _ he => he.mono hR⟩

theorem EventsRelated.cons {e e' : Event} (h : EventsRelated R base events events')
    (he : e.Related R e') : EventsRelated R base (e :: events) (e' :: events') := by
  obtain ⟨new, new', rfl, rfl, hrel⟩ := h
  exact ⟨e :: new, e' :: new', rfl, rfl, .cons he hrel⟩

end

/-! ## Contexts -/

namespace Context

/-- The contexts are the same but for where their arrays are: `R` pairs the references of one with
those of the other. -/
structure Mirrors (base : List Event) (R : Handle → Handle → Prop) (c c' : Context σ) : Prop where
  oneToOne : Value.OneToOne R
  arrays : Arena.Matched R c.arrays c'.arrays
  tidy : c.arrays.Tidy ∧ c'.arrays.Tidy
  active : c.active.Related R c'.active
  callers : ∀ i : Nat, Option.Rel (Frame.Related R) c.callers[i]? c'.callers[i]?
  subroutines : c.subroutines = c'.subroutines
  natives : c.natives = [] ∧ c'.natives = []
  limits : c.limits = c'.limits
  events : EventsRelated R base c.events c'.events

namespace Mirrors

variable (hc : Mirrors base R c c')
include hc

theorem callDepth_eq : c.callDepth = c'.callDepth := by
  have hiff : ∀ i, c.callers.size ≤ i ↔ c'.callers.size ≤ i := fun i => by
    rw [← Array.getElem?_eq_none_iff, ← Array.getElem?_eq_none_iff, ← Option.isNone_iff_eq_none,
      ← Option.isNone_iff_eq_none, ← Option.not_isSome, ← Option.not_isSome,
      isSome_eq_of_rel (hc.callers i)]
  exact Nat.le_antisymm ((hiff _).2 (Nat.le_refl _)) ((hiff _).1 (Nat.le_refl _))

theorem globals : c.globals.Related R c'.globals := by
  have hfirst := hc.callers 0
  rw [Context.globals, Context.globals]
  generalize c.callers[0]? = f at hfirst
  generalize c'.callers[0]? = f' at hfirst
  cases hfirst with
  | some hf => exact hf
  | none => exact hc.active

theorem resetFrames : Mirrors base R c.resetFrames c'.resetFrames :=
  { hc with active := hc.globals, callers := fun i => by simp [Context.resetFrames] }

theorem load (p : Program) : Mirrors base R (c.load p) (c'.load p) :=
  { hc.resetFrames with subroutines := congrArg (install p.subroutines) hc.subroutines }

theorem emit {e e' : Event} (he : e.Related R e') : Mirrors base R (c.emit e) (c'.emit e') :=
  { hc with events := hc.events.cons he }

theorem setVariable (name : String) {v v' : Value} (hv : v.Related R v') :
    Mirrors base R (c.setVariable name v) (c'.setVariable name v') :=
  { hc with active := hc.active.set name hv }

theorem enter {frame frame' : Frame} (hf : frame.Related R frame') :
    Mirrors base R (c.enter frame) (c'.enter frame') := by
  refine { hc with active := hf, callers := fun i => ?_ }
  have hsize : c.callers.size = c'.callers.size := hc.callDepth_eq
  simp only [Context.enter, Array.getElem?_push, ← hsize]
  split
  · exact .some hc.active
  · exact hc.callers i

theorem leave : Mirrors base R c.leave c'.leave := by
  have hsize : c.callers.size = c'.callers.size := hc.callDepth_eq
  have hback : Option.Rel (Frame.Related R) c.callers.back? c'.callers.back? := by
    rw [Array.back?_eq_getElem?, Array.back?_eq_getElem?, ← hsize]
    exact hc.callers _
  have hpop : ∀ i : Nat, Option.Rel (Frame.Related R) c.callers.pop[i]? c'.callers.pop[i]? := by
    intro i
    rw [Array.getElem?_pop, Array.getElem?_pop, ← hsize]
    split
    · exact hc.callers i
    · exact .none
  rw [Context.leave, Context.leave]
  generalize c.callers.back? = f at hback
  generalize c'.callers.back? = f' at hback
  cases hback with
  | some hf => exact { hc with active := hf, callers := hpop }
  | none => exact hc

/-- Allocating in both contexts pairs the new references. -/
theorem allocate :
    Mirrors base (extended R c.arrays.allocate.1 c'.arrays.allocate.1)
      { c with arrays := c.arrays.allocate.2 } { c' with arrays := c'.arrays.allocate.2 } where
  oneToOne := hc.arrays.extended_oneToOne hc.oneToOne hc.tidy.1.allocated.1 hc.tidy.2.allocated.1
  arrays := hc.arrays.allocate hc.tidy.1.allocated.1 hc.tidy.2.allocated.1
  tidy := ⟨hc.tidy.1.allocate, hc.tidy.2.allocate⟩
  active := hc.active.mono fun _ _ => extended_of
  callers i := option_rel_mono (hc.callers i) fun _ _ hf => hf.mono fun _ _ => extended_of
  subroutines := hc.subroutines
  natives := hc.natives
  limits := hc.limits
  events := hc.events.mono fun _ _ => extended_of

theorem modify {h k : Handle} (hk : R h k) {f f' : Entries → Entries}
    (hf : ∀ es es', TableRelated R es es' → TableRelated R (f es) (f' es')) :
    Mirrors base R { c with arrays := c.arrays.modify h f }
      { c' with arrays := c'.arrays.modify k f' } :=
  { hc with
    arrays := hc.arrays.modify hc.oneToOne hk hf
    tidy := ⟨hc.tidy.1.modify h f, hc.tidy.2.modify k f'⟩ }

end Mirrors

end Context

/-! ## Runs -/

/-- Mirroring as a simulation. -/
def mirror (base : List Event) : Simulation σ where
  World := Handle → Handle → Prop
  le R R' := ∀ h k, R h k → R' h k
  handle R := R
  context R := Context.Mirrors base R
  exempt _ := False

theorem mirror_lawful (base : List Event) : (mirror (σ := σ) base).Lawful where
  refl _ _ _ hk := hk
  trans hw hw' h k hk := hw' h k (hw h k hk)
  handle_mono hw hk := hw _ _ hk
  oneToOne hc := hc.oneToOne
  arrays hc hk := hc.arrays.alike hk
  render hc hv := hc.arrays.render_eq hc.oneToOne hv
  reading hc name := value_related_getD (hc.active.find? name)
  subroutines hc := hc.subroutines
  assignment hc name hv := hc.setVariable name hv
  allocation hc := ⟨_, fun _ _ => extended_of, extended_self _ _ _, hc.allocate⟩
  change hc hk _ hf := hc.modify hk hf
  event hc he := hc.emit he
  native := by
    intro R c c' hc key
    refine .inl ⟨?_, ?_⟩
    · rw [Context.native?, hc.natives.1]
      rfl
    · rw [Context.native?, hc.natives.2]
      rfl
  pass := by
    intro R c c' hc count line
    rw [Machine.countPass, bind_of_ok (m := get) rfl, bind_of_ok (m := get) rfl, ← hc.limits]
    have hok : (mirror base).Agree R (fun _ => Eq) ((pure (count + 1) : Machine σ UInt64) c)
        ((pure (count + 1) : Machine σ UInt64) c') := .ok (fun _ _ hk => hk) hc rfl
    cases c.limits.loopPasses with
    | none => exact hok
    | some limit =>
      by_cases hlt : limit < count + 1
      · simp only [hlt, if_true]
        exact .error (fun _ _ hk => hk) hc
      · simp only [hlt, if_false]
        exact hok
  refused := by
    intro R c c' hc hd line
    refine .inr ⟨congrArg Limits.callDepth hc.limits, ?_⟩
    rwa [← hc.callDepth_eq, ← hc.limits]
  allowed := by
    intro R c c' hc hd
    rwa [← hc.callDepth_eq, ← hc.limits]
  enter := by
    intro R c c' vs vs' hc params hvs
    refine ⟨R, hc.enter (Frame.related_ofArguments params hvs), fun R' c₂ c₂' hw hc₂ => ?_⟩
    exact ⟨R', hw, hc₂.leave, fun _ _ hv => hv⟩

/-! ## Collections -/

/-- A context and what collecting its garbage leaves mirror each other: each reachable reference is
paired with itself. -/
theorem Context.Sound.mirrors_collectGarbage (hc : c.Sound) :
    Context.Mirrors c.events (diagonal (c.arrays.Reachable c.roots)) c c.collectGarbage.2 := by
  -- a frame is related to itself, since what it refers to is reachable
  have hframe : ∀ f : Frame, f.Within c.arrays.Live → (∀ v ∈ f.values, v ∈ c.roots) →
      f.Related (diagonal (c.arrays.Reachable c.roots)) f := by
    intro f hf hroots
    refine Frame.related_diagonal.2 ⟨fun e he h hh => ?_, rfl⟩
    exact .root (hroots _ (List.mem_map.2 ⟨e, he, Value.handle?_eq_some_iff.1 hh⟩)) (hf e he h hh)
  exact
    { oneToOne := diagonal_oneToOne _
      arrays := by
        rintro h _ ⟨hr, rfl⟩
        obtain ⟨es, hes⟩ := Option.isSome_iff_exists.1 hr.isLive
        have hlive : (c.arrays.collect c.roots).2.Live h := (Arena.live_collect _ _).2 hr
        refine ⟨es, es, hes, ?_, tableRelated_diagonal.2 ⟨Entries.within_iff.2 fun k hk => ?_, rfl⟩⟩
        · exact ((Arena.collected_collect _ _).entries?_eq h).trans ((if_pos hlive).trans hes)
        · exact .entry hr hes hk (Entries.within_iff.1 (hc.noDangling.entries hes) k hk)
      tidy := ⟨hc.tidy, hc.tidy.collect c.roots⟩
      active := hframe _ hc.noDangling.active fun v hv => Context.mem_roots.2 (.inl hv)
      callers := fun i => by
        change Option.Rel _ c.callers[i]? c.callers[i]?
        cases hf : c.callers[i]? with
        | none => exact .none
        | some f =>
          have hmem := Array.mem_of_getElem? hf
          exact .some (hframe f (hc.noDangling.callers f hmem) fun v hv =>
            Context.mem_roots.2 (.inr ⟨f, hmem, hv⟩))
      subroutines := rfl
      natives := ⟨hc.natives, hc.natives⟩
      limits := rfl
      events := eventsRelated_refl _ _ }

/-- The contexts are the same to the host but for the references, which `R` pairs: the events since
`base` in their order, the globals, and the contents of the arrays to which these lead. -/
structure Context.Renamed (R : Handle → Handle → Prop) (base : List Event) (c c' : Context σ) :
    Prop where
  events : EventsRelated R base c.events c'.events
  globals : c.globals.Related R c'.globals
  reachable : ∀ h, c.arrays.Reachable c.globals.values h →
    ∃ k, R h k ∧ c'.arrays.Reachable c'.globals.values k
  reachable' : ∀ k, c'.arrays.Reachable c'.globals.values k →
    ∃ h, R h k ∧ c.arrays.Reachable c.globals.values h
  contents : ∀ h k, R h k → ∃ es es', c.arrays.entries? h = some es ∧
    c'.arrays.entries? k = some es' ∧ TableRelated R es es'

theorem Context.Mirrors.renamed (hc : Context.Mirrors base R c c') : c.Renamed R base c' where
  events := hc.events
  globals := hc.globals
  reachable _ hr := hc.arrays.reachable (fun _ => hc.globals.exists_array) hr
  reachable' _ hr := hc.arrays.flip.reachable (fun _ => hc.globals.flip.exists_array) hr
  contents := hc.arrays

/-- Both runs end in the same way, with the same completion or the same error, and leave contexts
that are the same but for the references. -/
inductive SameOutcome (R : Handle → Handle → Prop) (base : List Event) :
    EStateM.Result Stop (Context σ) Completion → EStateM.Result Stop (Context σ) Completion → Prop
  | completed (completion : Completion) {c c' : Context σ} : c.Renamed R base c' →
      SameOutcome R base (.ok completion c) (.ok completion c')
  | stopped (e : Stop) {c c' : Context σ} : c.Renamed R base c' →
      SameOutcome R base (.error e c) (.error e c')

/-- **Collecting garbage before a run is invisible** to the program and to its host, but for a
one-to-one renaming of references, unless the run joins an array and a text. -/
theorem collection_invisible (fuel : Nat) (p : Program) {c : Context σ} (hc : c.Sound)
    (hj : p.joinFree fuel c = true) :
    ∃ R, Value.OneToOne R ∧ SameOutcome R c.events (Machine.execute fuel p c)
      (Machine.execute fuel p c.collectGarbage.2) := by
  have hrun := (mirror_lawful c.events).execute fuel p (hc.mirrors_collectGarbage.load p)
    (fun _ _ _ hc => hc.resetFrames) (fun _ => nofun) (.inr hj)
  generalize Machine.execute fuel p c = r at hrun
  generalize Machine.execute fuel p c.collectGarbage.2 = r' at hrun
  cases hrun with
  | @ok R' a _ c₁ c₁' _ hc₁ heq =>
    cases heq
    exact ⟨R', hc₁.oneToOne, .completed a hc₁.renamed⟩
  | @error R' e c₁ c₁' _ hc₁ => exact ⟨R', hc₁.oneToOne, .stopped e hc₁.renamed⟩
  | exempt he => cases he

/-- After a collection a run uses the slot of the array that was reclaimed, where it would have used
a further one; the command that shows the array is the same but for the reference. -/
theorem command_renamed :
    let p : Program := ⟨[.dim "B" none 1, .command "SHOW" [.name "B" 2] 2], []⟩
    let ctx : Context Unit :=
      Machine.after (Machine.execute 9 ⟨[.dim "A" none 1, .dim "A" none 2], []⟩) (.new {} ())
    ctx.Sound ∧ p.joinFree 9 ctx = true ∧
      (Machine.after (Machine.execute 9 p) ctx).events = [.command "SHOW" [.array ⟨2, 0⟩]] ∧
      (Machine.after (Machine.execute 9 p) ctx.collectGarbage.2).events =
        [.command "SHOW" [.array ⟨0, 1⟩]] ∧
      ∃ R, Value.OneToOne R ∧ SameOutcome R ctx.events (Machine.execute 9 p ctx)
        (Machine.execute 9 p ctx.collectGarbage.2) := by
  intro p ctx
  have hsound : ctx.Sound := (Context.sound_new {} ()).execute 9 _
  have hfree : p.joinFree 9 ctx = true := by
    unfold ctx p
    decide +kernel
  have harrays : ctx.arrays = ⟨#[⟨0, some []⟩, ⟨0, some []⟩], []⟩ ∧
      ctx.roots = [.array ⟨1, 0⟩] := by
    unfold ctx
    decide +kernel
  have hcollect : ctx.collectGarbage.2 =
      { ctx with arrays := ⟨#[⟨1, none⟩, ⟨0, some []⟩], [0]⟩ } := by
    simp [Context.collectGarbage, harrays, Arena.collect, Arena.reached, Arena.mark, Arena.entries?,
      Arena.unmarked, Value.handle?, Entries.handles, Slot.reclaimed, List.range, List.range.loop]
  refine ⟨hsound, hfree, ?_, ?_, collection_invisible 9 p hsound hfree⟩
  · unfold ctx p
    decide +kernel
  · rw [hcollect]
    unfold ctx p
    decide +kernel

end BasicScript
