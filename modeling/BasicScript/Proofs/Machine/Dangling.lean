/-
  No reference dangles.

  * `Context.NoDangling c`: every reference in a variable or in an entry of a live array is to a live
    array.
  * `Context.Sound c`: moreover the free list of the arena is in order, and there are no natives.
  * `soundness`: this as an invariant of runs, the references at hand being those to live arrays.
  * `HostStep`: what a host may do to a context between runs, and by running it.
  * `Sound.hostStep`: each of these keeps a context sound.
  * `no_dangling_references`: so no reference dangles, whatever the host does, and calls return no
    dangling reference.
-/
import BasicScript.Proofs.Machine.Invariants

namespace BasicScript

variable {σ : Type}

/-! ## Live references -/

/-- The reference leads to a live array. -/
def Arena.Live (a : Arena) (h : Handle) : Prop := a.isLive h = true

namespace Arena

variable {a b : Arena} {h k : Handle}

theorem live_of_entries? {es : Entries} (hes : a.entries? h = some es) : a.Live h :=
  isLive_of_entries? hes

theorem Allocated.live_iff (hb : a.Allocated h b) : b.Live k ↔ k = h ∨ a.Live k := by
  rw [Live, Live, isLive, isLive, hb.entries?_eq]
  by_cases hk : k = h <;> simp [hk]

theorem live_modify (a : Arena) (h : Handle) (f : Entries → Entries) :
    (a.modify h f).Live = a.Live := by
  funext k
  rw [Live, Live, isLive, isLive, entries?_modify]
  by_cases hk : k = h <;> simp [hk]

theorem live_collect (a : Arena) (roots : List Value) :
    (a.collect roots).2.Live h ↔ a.Reachable roots h :=
  ((collected_collect a roots).isLive_iff h).trans ⟨And.right, fun hr => ⟨hr.isLive, hr⟩⟩

end Arena

namespace Context

/-- Every reference in a variable or in an entry of a live array is to a live array. -/
structure NoDangling (ctx : Context σ) : Prop where
  active : ctx.active.Within ctx.arrays.Live
  callers : ∀ f ∈ ctx.callers, f.Within ctx.arrays.Live
  entries : ∀ {h es}, ctx.arrays.entries? h = some es → TableWithin ctx.arrays.Live es

/-- No reference dangles, there are no natives, and the free list is in order, as it is in every arena
that allocations, changes and collections build. -/
structure Sound (ctx : Context σ) : Prop where
  natives : ctx.natives = []
  tidy : ctx.arrays.Tidy
  noDangling : ctx.NoDangling

variable {c : Context σ}

theorem noDangling_new (limits : Limits) (host : σ) : (new limits host).NoDangling where
  active := Frame.within_empty
  callers f hf := absurd hf (by simp [new])
  entries hes := absurd hes (by simp [new, Arena.empty, Arena.entries?])

theorem sound_new (limits : Limits) (host : σ) : (new limits host).Sound :=
  ⟨rfl, Arena.tidy_empty, noDangling_new limits host⟩

/-! ### Frames -/

theorem NoDangling.setVariable (hc : c.NoDangling) (name : String) {v : Value}
    (hv : v.Within c.arrays.Live) : (c.setVariable name v).NoDangling :=
  ⟨hc.active.set name hv, hc.callers, hc.entries⟩

theorem NoDangling.globals (hc : c.NoDangling) : c.globals.Within c.arrays.Live := by
  rw [Context.globals]
  cases hf : c.callers[0]? with
  | none => exact hc.active
  | some f => exact hc.callers f (Array.mem_of_getElem? hf)

theorem NoDangling.resetFrames (hc : c.NoDangling) : c.resetFrames.NoDangling :=
  ⟨hc.globals, nofun, hc.entries⟩

theorem NoDangling.modifyGlobals (hc : c.NoDangling) {f : Frame → Frame}
    (hf : ∀ g : Frame, g.Within c.arrays.Live → (f g).Within c.arrays.Live) :
    (c.modifyGlobals f).NoDangling := by
  rw [Context.modifyGlobals]
  split
  · exact ⟨hf _ hc.active, hc.callers, hc.entries⟩
  · refine ⟨hc.active, fun g hg => ?_, hc.entries⟩
    obtain ⟨i, hi⟩ := Array.mem_iff_getElem?.1 hg
    rw [Array.getElem?_modify] at hi
    split at hi
    · obtain ⟨g', hg', rfl⟩ := Option.map_eq_some_iff.1 hi
      exact hf g' (hc.callers g' (Array.mem_of_getElem? hg'))
    · exact hc.callers g (Array.mem_of_getElem? hi)

theorem NoDangling.enter (hc : c.NoDangling) {frame : Frame} (hf : frame.Within c.arrays.Live) :
    (c.enter frame).NoDangling := by
  refine ⟨hf, fun f hmem => ?_, hc.entries⟩
  rcases Array.mem_push.1 hmem with hmem | rfl
  · exact hc.callers f hmem
  · exact hc.active

theorem natives_leave (c : Context σ) : c.leave.natives = c.natives := by
  rw [leave]
  split <;> rfl

theorem arrays_leave (c : Context σ) : c.leave.arrays = c.arrays := by
  rw [leave]
  split <;> rfl

theorem NoDangling.leave (hc : c.NoDangling) : c.leave.NoDangling := by
  rw [Context.leave]
  cases hf : c.callers.back? with
  | none => exact hc
  | some f =>
    refine ⟨hc.callers f (Array.mem_of_back? hf), fun g hg => ?_, hc.entries⟩
    rw [Array.mem_def, Array.toList_pop] at hg
    exact hc.callers g (Array.mem_def.2 ((List.dropLast_sublist _).subset hg))

/-! ### Arrays -/

theorem NoDangling.allocate (hc : c.NoDangling) (ha : c.arrays.Tidy) :
    NoDangling { c with arrays := c.arrays.allocate.2 } := by
  have hlive : ∀ h, c.arrays.Live h → c.arrays.allocate.2.Live h :=
    fun h hl => ha.allocated.1.live_iff.2 (.inr hl)
  refine ⟨hc.active.mono hlive, fun f hf => (hc.callers f hf).mono hlive, fun {h es} hes => ?_⟩
  rw [ha.allocated.1.entries?_eq] at hes
  split at hes
  · cases hes
    exact nofun
  · exact fun e he => (hc.entries hes e he).mono hlive

theorem NoDangling.modify (hc : c.NoDangling) (h : Handle) {es : Entries}
    (hes : TableWithin c.arrays.Live es) :
    NoDangling { c with arrays := c.arrays.modify h fun _ => es } := by
  have hlive := c.arrays.live_modify h fun _ => es
  refine ⟨by rw [hlive]; exact hc.active, by rw [hlive]; exact hc.callers, fun {k es'} hk => ?_⟩
  rw [hlive]
  rw [Arena.entries?_modify] at hk
  split at hk
  · obtain ⟨-, -, rfl⟩ := Option.map_eq_some_iff.1 hk
    exact hes
  · exact hc.entries hk

theorem mem_roots {v : Value} :
    v ∈ c.roots ↔ v ∈ c.active.values ∨ ∃ f ∈ c.callers, v ∈ f.values := by
  simp [roots]

theorem NoDangling.roots (hc : c.NoDangling) {v : Value} (hv : v ∈ c.roots) :
    v.Within c.arrays.Live := by
  have hframe : ∀ f : Frame, f.Within c.arrays.Live → v ∈ f.values → v.Within c.arrays.Live := by
    intro f hf hv
    obtain ⟨e, he, rfl⟩ := List.mem_map.1 hv
    exact hf e he
  rcases mem_roots.1 hv with hv | ⟨f, hf, hv⟩
  · exact hframe _ hc.active hv
  · exact hframe _ (hc.callers f hf) hv

/-- What is reachable is not reclaimed: nothing that is kept refers to what is not. -/
theorem NoDangling.collectGarbage (hc : c.NoDangling) : c.collectGarbage.2.NoDangling := by
  have hlive : ∀ v ∈ c.roots, v.Within (c.arrays.collect c.roots).2.Live := by
    intro v hv h hh
    obtain rfl := Value.handle?_eq_some_iff.1 hh
    exact (Arena.live_collect _ _).2 (.root hv (hc.roots hv h rfl))
  refine ⟨fun e he => ?_, fun f hf e he => ?_, fun {h es} hes => ?_⟩
  · exact hlive _ (mem_roots.2 (.inl (List.mem_map_of_mem he)))
  · exact hlive _ (mem_roots.2 (.inr ⟨f, hf, List.mem_map_of_mem he⟩))
  -- an array that is kept is reachable, and so is what its entries refer to
  · have hreach := (Arena.live_collect _ _).1 (Arena.live_of_entries? hes)
    have hold := (Arena.collected_collect _ _).entries?_of_eq_some hes
    refine Entries.within_iff.2 fun k hk => (Arena.live_collect _ _).2 ?_
    exact .entry hreach hold hk (Entries.within_iff.1 (hc.entries hold) k hk)

theorem Sound.load (hc : c.Sound) (p : Program) : (c.load p).Sound :=
  have hreset := hc.noDangling.resetFrames
  ⟨hc.natives, hc.tidy, hreset.active, hreset.callers, hreset.entries⟩

theorem Sound.collectGarbage (hc : c.Sound) : c.collectGarbage.2.Sound :=
  ⟨hc.natives, hc.tidy.collect c.roots, hc.noDangling.collectGarbage⟩

theorem Sound.modifyGlobals (hc : c.Sound) {f : Frame → Frame}
    (hf : ∀ g : Frame, g.Within c.arrays.Live → (f g).Within c.arrays.Live) :
    (c.modifyGlobals f).Sound := by
  have hsame : (c.modifyGlobals f).natives = c.natives ∧ (c.modifyGlobals f).arrays = c.arrays := by
    rw [Context.modifyGlobals]
    split <;> exact ⟨rfl, rfl⟩
  exact ⟨hsame.1.trans hc.natives, hsame.2 ▸ hc.tidy, hc.noDangling.modifyGlobals hf⟩

end Context

/-! ## Runs -/

/-- Soundness as an invariant: the references at hand are those to live arrays. -/
def soundness : Invariant σ where
  World := Handle → Prop
  le w w' := ∀ h, w h → w' h
  handle w := w
  context w c := w = c.arrays.Live ∧ c.Sound

theorem soundness_lawful : (soundness (σ := σ)).Lawful where
  refl _ _ hh := hh
  trans hw hw' h hh := hw' h (hw h hh)
  handle_mono hw hh := hw _ hh
  entries := by
    rintro _ c h es ⟨rfl, hc⟩ - hes
    exact hc.noDangling.entries hes
  active := by
    rintro _ c ⟨rfl, hc⟩
    exact hc.noDangling.active
  natives hc := hc.2.natives
  assignment := by
    rintro _ c v ⟨rfl, hc⟩ name hv
    exact ⟨rfl, hc.natives, hc.tidy, hc.noDangling.setVariable name hv⟩
  allocation := by
    rintro _ c ⟨rfl, hc⟩
    have hlive {k : Handle} := hc.tidy.allocated.1.live_iff (k := k)
    exact ⟨_, fun h hl => hlive.2 (.inr hl), hlive.2 (.inl rfl), rfl, hc.natives, hc.tidy.allocate,
      hc.noDangling.allocate hc.tidy⟩
  change := by
    rintro _ c h es ⟨rfl, hc⟩ - hes
    exact ⟨(c.arrays.live_modify h _).symm, hc.natives, hc.tidy.modify h _,
      hc.noDangling.modify h hes⟩
  event := by
    rintro _ c ⟨rfl, hc⟩ e
    exact ⟨rfl, hc.natives, hc.tidy, hc.noDangling.active, hc.noDangling.callers,
      hc.noDangling.entries⟩
  enter := by
    rintro _ c vs ⟨rfl, hc⟩ params hvs
    refine ⟨_, ⟨rfl, hc.natives, hc.tidy,
      hc.noDangling.enter (Frame.within_ofArguments params hvs)⟩, ?_⟩
    rintro _ c₂ hle ⟨rfl, hc₂⟩
    refine ⟨c₂.leave.arrays.Live, by rw [Context.arrays_leave]; exact hle, ⟨rfl, ?_⟩,
      by rw [Context.arrays_leave]; exact fun _ h => h⟩
    exact ⟨(c₂.natives_leave).trans hc₂.natives, (c₂.arrays_leave).symm ▸ hc₂.tidy,
      hc₂.noDangling.leave⟩

namespace Context

variable {c c' : Context σ}

/-- A call on live references leaves a sound context, and returns no other references. -/
theorem Sound.callFromHost (hc : c.Sound) (fuel : Nat) (name : String) {vs : List Value}
    (hvs : ∀ v ∈ vs, v.Within c.arrays.Live) :
    (Machine.after (Machine.callFromHost fuel name vs) c).Sound ∧
    ∀ v c', Machine.callFromHost fuel name vs c = .ok v c' → v.Within c'.arrays.Live := by
  have hcall := soundness_lawful.call ⟨rfl, hc⟩ fuel name.toUpper 0 hvs
  refine ⟨?_, fun v c' hr => ?_⟩
  · obtain ⟨w', -, -, hc'⟩ := hcall.after
    exact hc'
  · rw [show Machine.call fuel name.toUpper vs 0 c = .ok v c' from hr] at hcall
    cases hcall with
    | ok _ hc' hv =>
      obtain ⟨rfl, -⟩ := hc'
      exact hv

theorem Sound.execute (hc : c.Sound) (fuel : Nat) (p : Program) :
    (Machine.after (Machine.execute fuel p) c).Sound := by
  have hload : soundness.context c.arrays.Live (c.load p) := ⟨rfl, hc.load p⟩
  have hrun := soundness_lawful.execute fuel p hload fun w c hc =>
    ⟨hc.1, hc.2.natives, hc.2.tidy, hc.2.noDangling.resetFrames⟩
  obtain ⟨w', -, -, hc'⟩ := hrun.after
  exact hc'

end Context

/-! ## The host -/

/-- What a host may do to a context: run a program, whether the run finishes, aborts, fails or is
stopped; collect garbage; remove a global, or set one to a value that is no array; call a callable
on arrays that are alive. -/
inductive HostStep : Context σ → Context σ → Prop
  | execute (fuel : Nat) (p : Program) (c : Context σ) :
      HostStep c (Machine.after (Machine.execute fuel p) c)
  | collectGarbage (c : Context σ) : HostStep c c.collectGarbage.2
  | removeGlobal (name : String) (c : Context σ) : HostStep c (c.removeGlobal name).2
  | setGlobal (name : String) {v : Value} (c : Context σ) : v.handle? = none →
      HostStep c (c.setGlobal name v)
  | call (fuel : Nat) (name : String) {vs : List Value} (c : Context σ) :
      (∀ v ∈ vs, v.Within c.arrays.Live) →
      HostStep c (Machine.after (Machine.callFromHost fuel name vs) c)

theorem Context.Sound.hostStep {c c' : Context σ} (hc : c.Sound) (h : HostStep c c') :
    c'.Sound := by
  cases h with
  | execute fuel p => exact hc.execute fuel p
  | collectGarbage => exact hc.collectGarbage
  | removeGlobal name => exact hc.modifyGlobals fun g hg => hg.erase name.toUpper
  | setGlobal name c hv =>
    exact hc.modifyGlobals fun g hg => hg.set name.toUpper (Value.within_of_handle? hv)
  | call fuel name c hvs => exact (hc.callFromHost fuel name hvs).1

theorem Context.Sound.hostSteps {c c' : Context σ} (hc : c.Sound)
    (h : Relation.ReflTransGen HostStep c c') : c'.Sound := by
  induction h with
  | refl => exact hc
  | tail _ hstep ih => exact ih.hostStep hstep

/-- **No reference dangles** in a context without natives, whatever the host has done to it; and a
call on live arrays returns no reference to an array that is not alive. -/
theorem no_dangling_references {limits : Limits} {host : σ} {c : Context σ}
    (h : Relation.ReflTransGen HostStep (.new limits host) c) :
    c.NoDangling ∧
    ∀ fuel name vs, (∀ v ∈ vs, v.Within c.arrays.Live) → ∀ v c',
      Machine.callFromHost fuel name vs c = .ok v c' → v.Within c'.arrays.Live := by
  have hc := (Context.sound_new limits host).hostSteps h
  exact ⟨hc.noDangling, fun fuel name vs hvs => (hc.callFromHost fuel name hvs).2⟩

/-- An array that a program stores comes back from a call on it. -/
theorem array_given_back :
    let p : Program := ⟨[.dim "A" none 1], [⟨"GIVE", ["X"], [.return_ (some (.name "X" 2)) 2], 2⟩]⟩
    let ctx : Context Unit := Machine.after (Machine.execute 9 p) (.new {} ())
    ctx.NoDangling ∧ ctx.global? "A" = some (.array ⟨0, 0⟩) ∧ ctx.arrays.Live ⟨0, 0⟩ ∧
      ∃ ctx', Machine.callFromHost 9 "give" [.array ⟨0, 0⟩] ctx = .ok (.array ⟨0, 0⟩) ctx' ∧
        (Value.array ⟨0, 0⟩).Within ctx'.arrays.Live := by
  intro p ctx
  obtain ⟨hctx, hvalue⟩ := no_dangling_references (.single (.execute 9 p (.new {} ())))
  have hlive : ctx.arrays.isLive ⟨0, 0⟩ = true := by
    unfold ctx p
    decide +kernel
  have hresult : Machine.passes (Machine.callFromHost 9 "give" [.array ⟨0, 0⟩]) ctx
      (fun v _ => v ≠ .array ⟨0, 0⟩) = false := by
    unfold ctx p
    decide +kernel
  refine ⟨hctx, by unfold ctx p; decide +kernel, hlive, ?_⟩
  cases hcall : Machine.callFromHost 9 "give" [.array ⟨0, 0⟩] ctx with
  | error e ctx' => simp [Machine.passes, hcall] at hresult
  | ok v ctx' =>
    obtain rfl : v = .array ⟨0, 0⟩ := by simpa [Machine.passes_of_ok hcall] using hresult
    refine ⟨ctx', rfl, hvalue 9 "give" [.array ⟨0, 0⟩] (fun v hv => ?_) _ _ hcall⟩
    rw [List.mem_singleton.1 hv]
    exact Value.within_array.2 hlive

end BasicScript
