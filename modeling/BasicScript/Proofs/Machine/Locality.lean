/-
  A call reaches the arrays that it is given, and no others.

  * `Arena.Own a vs h`: the reference leads to no array of `a`, or to one that `vs` lead to.
  * `Arena.Confined own a b`: the arena `b` is `a` with further arrays and with changes behind
    references in `own` only, and the arrays behind these hold no others.
  * `Confined.allocate`, `Confined.modify`: what a run does to an arena keeps it so.
  * `confinement`: this as an invariant of runs, the references at hand being those in `own`.
  * `calls_are_local`: so a call changes and returns no array that was there before, but those that
    its arguments lead to.
-/
import BasicScript.Proofs.Machine.Dangling
import BasicScript.Proofs.Machine.Unseen

namespace BasicScript

variable {σ : Type}

/-! ## Arenas -/

namespace Arena

/-- If the reference is to a live array, the values `vs` lead to it. -/
def Own (a : Arena) (vs : List Value) (h : Handle) : Prop := a.Live h → a.Reachable vs h

/-- The arena `b` is `a` with further arrays and with changes behind references in `own` only; and
such references lead to no others. -/
structure Confined (own : Handle → Prop) (a b : Arena) : Prop where
  tidy : b.Tidy
  live : ∀ {h}, a.Live h → b.Live h
  others : ∀ {h}, ¬ own h → b.entries? h = a.entries? h
  closed : ∀ {h es}, own h → b.entries? h = some es → TableWithin own es

section
variable {a b : Arena} {vs : List Value} {h : Handle}

theorem within_own {v : Value} (hv : v ∈ vs) : v.Within (a.Own vs) := by
  intro h hh hl
  obtain rfl := Value.handle?_eq_some_iff.1 hh
  exact .root hv hl

/-- What arguments lead to, leads to nothing else. -/
theorem confined_refl (ha : a.Tidy) : Confined (a.Own vs) a a where
  tidy := ha
  live := id
  others _ := rfl
  closed hown hes :=
    Entries.within_iff.2 fun _ hk hl => .entry (hown (live_of_entries? hes)) hes hk hl

end

section
variable {a b : Arena} {own : Handle → Prop} (hb : Confined own a b)
include hb

/-- A new array is none of those that were there before. -/
theorem Confined.not_live_allocate : ¬ a.Live b.allocate.1 := by
  intro hl
  have hnew := hb.live hl
  rw [Live, isLive, hb.tidy.allocated.1.entries?_new] at hnew
  cases hnew

theorem Confined.allocate (hown : ∀ {h}, ¬ a.Live h → own h) : Confined own a b.allocate.2 where
  tidy := hb.tidy.allocate
  live hl := hb.tidy.allocated.1.live_iff.2 (.inr (hb.live hl))
  others {h} hh := by
    have hne : h ≠ b.allocate.1 := by
      rintro rfl
      exact hh (hown hb.not_live_allocate)
    rw [hb.tidy.allocated.1.entries?_eq, if_neg hne, hb.others hh]
  closed {h es} hh hes := by
    rw [hb.tidy.allocated.1.entries?_eq] at hes
    split at hes
    · cases hes
      exact nofun
    · exact hb.closed hh hes

theorem Confined.modify {h : Handle} (hh : own h) {es : Entries} (hes : TableWithin own es) :
    Confined own a (b.modify h fun _ => es) where
  tidy := hb.tidy.modify h _
  live hl := by
    rw [live_modify]
    exact hb.live hl
  others {k} hk := by
    have hne : k ≠ h := by
      rintro rfl
      exact hk hh
    rw [entries?_modify, if_neg hne, hb.others hk]
  closed {k es'} hk hes' := by
    rw [entries?_modify] at hes'
    split at hes'
    · obtain ⟨-, -, rfl⟩ := Option.map_eq_some_iff.1 hes'
      exact hes
    · exact hb.closed hk hes'

/-- References in `own` lead to such references. -/
theorem Confined.own_of_reachable {v : Value} (hv : v.Within own) {h : Handle}
    (hr : b.Reachable [v] h) : own h := by
  induction hr with
  | root hm _ => exact hv _ (by rw [← List.mem_singleton.1 hm]; rfl)
  | entry _ hes hk _ ih => exact Entries.within_iff.1 (hb.closed ih hes) _ hk

end

end Arena

/-! ## Runs -/

/-- Confinement to what the values `vs` lead to in the arena `base`, as an invariant.  A world is the
frames below the active one, which a run leaves as they are. -/
def confinement (base : Arena) (vs : List Value) : Invariant σ where
  World := Array Frame
  le := Eq
  handle _ := base.Own vs
  context w c := c.callers = w ∧ c.natives = [] ∧ c.active.Within (base.Own vs) ∧
    base.Confined (base.Own vs) c.arrays

theorem confinement_lawful (base : Arena) (vs : List Value) :
    (confinement (σ := σ) base vs).Lawful where
  refl _ := rfl
  trans := Eq.trans
  handle_mono _ hh := hh
  entries := by
    rintro w c h es ⟨-, -, -, hc⟩ hh hes
    exact hc.closed hh hes
  active hc := hc.2.2.1
  natives hc := hc.2.1
  assignment := by
    rintro w c v ⟨hcallers, hnatives, hactive, hc⟩ name hv
    exact ⟨hcallers, hnatives, hactive.set name hv, hc⟩
  allocation := by
    rintro w c ⟨hcallers, hnatives, hactive, hc⟩
    exact ⟨w, rfl, fun hl => absurd hl hc.not_live_allocate, hcallers, hnatives, hactive,
      hc.allocate fun hn hl => absurd hl hn⟩
  change := by
    rintro w c h es ⟨hcallers, hnatives, hactive, hc⟩ hh hes
    exact ⟨hcallers, hnatives, hactive, hc.modify hh hes⟩
  event hc _ := hc
  enter := by
    rintro w c vs ⟨rfl, hnatives, hactive, hc⟩ params hvs
    refine ⟨_, ⟨rfl, hnatives, Frame.within_ofArguments params hvs, hc⟩, ?_⟩
    rintro _ c₂ rfl ⟨hcallers, hnatives₂, -, hc₂⟩
    refine ⟨c.callers, rfl, ?_, fun _ hh => hh⟩
    rw [Context.leave_of_callers hcallers]
    exact ⟨rfl, hnatives₂, hactive, hc₂⟩

namespace Machine

variable {c : Context σ} (hnatives : c.natives = []) (htidy : c.arrays.Tidy)
include hnatives htidy

/-- A call confines itself to what its arguments lead to.  The variables of its callers may lead to
anything, but a call does not see them. -/
theorem call_confined (fuel : Nat) (name : String) (vs : List Value) (line : Nat) :
    c.arrays.Confined (c.arrays.Own vs) (after (call fuel name vs line) c).arrays ∧
    ∀ v c', call fuel name vs line c = .ok v c' → v.Within (c.arrays.Own vs) := by
  have hcontext : (confinement c.arrays vs).context c.callers (c.withFrames .empty c.callers) :=
    ⟨rfl, hnatives, Frame.within_empty, Arena.confined_refl htidy⟩
  have hends := (confinement_lawful c.arrays vs).call hcontext fuel name line
    fun v hv => Arena.within_own hv
  have hcall : call fuel name vs line c = mapContext (·.withFrames c.active c.callers)
      (call fuel name vs line (c.withFrames .empty c.callers)) :=
    call_withFrames (c := c.withFrames .empty c.callers) rfl fuel name vs line
  rw [after, hcall]
  generalize call fuel name vs line (c.withFrames .empty c.callers) = r at hends
  cases hends with
  | ok _ hc hv =>
    refine ⟨hc.2.2.2, ?_⟩
    rintro _ _ ⟨⟩
    exact hv
  | error _ hc =>
    refine ⟨hc.2.2.2, ?_⟩
    rintro _ _ ⟨⟩

/-- **Calls are local**, where there are no natives; the free list is in order, as it is in every
arena that allocations, changes and collections build.  Whether a call returns or fails, every array
that was alive is still so, and has its entries unless the arguments lead to it; and a returned
value leads to arrays only that are new or that the arguments led to. -/
theorem calls_are_local (fuel : Nat) (name : String) (vs : List Value) (line : Nat) :
    (∀ h, c.arrays.Live h → (after (call fuel name vs line) c).arrays.Live h) ∧
    (∀ h, c.arrays.Live h → ¬ c.arrays.Reachable vs h →
      (after (call fuel name vs line) c).arrays.entries? h = c.arrays.entries? h) ∧
    ∀ v c', call fuel name vs line c = .ok v c' → ∀ h, c'.arrays.Reachable [v] h →
      c.arrays.Reachable vs h ∨ ¬ c.arrays.Live h := by
  obtain ⟨hconfined, hresult⟩ := call_confined hnatives htidy fuel name vs line
  refine ⟨fun h => hconfined.live, fun h hl hr => hconfined.others fun hown => hr (hown hl),
    fun v c' hcall h hr => ?_⟩
  rw [after_of_ok hcall] at hconfined
  have hown := hconfined.own_of_reachable (hresult v c' hcall) hr
  by_cases hl : c.arrays.Live h
  · exact .inl (hown hl)
  · exact .inr hl

end Machine

/-- A subroutine that puts a new array into its argument leaves another array as it is. -/
theorem other_array_kept :
    let c : Context Unit :=
      { Context.new {} () with
        arrays := Arena.empty.allocate.2.allocate.2
        subroutines := [⟨"GROW", ["X"],
          [.dim "Y" none 1, .assign "X" [.literal (.integer 1) 2] (.name "Y" 2) 2], 1⟩] }
    let arrays : Arena :=
      (Machine.after (Machine.call 9 "GROW" [.array ⟨0, 0⟩] 0) c).arrays
    c.natives = [] ∧ c.arrays.Tidy ∧ c.arrays.Live ⟨1, 0⟩ ∧
      ¬ c.arrays.Reachable [.array ⟨0, 0⟩] ⟨1, 0⟩ ∧
      arrays.entries? ⟨0, 0⟩ = some [(.integer 1, .array ⟨2, 0⟩)] ∧
      arrays.entries? ⟨1, 0⟩ = c.arrays.entries? ⟨1, 0⟩ := by
  intro c arrays
  have htidy : c.arrays.Tidy := Arena.tidy_empty.allocate.allocate
  have hlive : c.arrays.isLive ⟨1, 0⟩ = true := by decide
  -- the argument is an empty array, which leads to no other
  have hreach : ∀ h, c.arrays.Reachable [.array ⟨0, 0⟩] h → h = ⟨0, 0⟩ := by
    intro h hr
    induction hr with
    | root hm _ => simpa using hm
    | entry _ hes hk _ ih =>
      subst ih
      cases hes
      cases hk
  have hr : ¬ c.arrays.Reachable [.array ⟨0, 0⟩] ⟨1, 0⟩ := fun hr => by cases hreach _ hr
  refine ⟨rfl, htidy, hlive, hr, by unfold arrays c; decide +kernel, ?_⟩
  exact (Machine.calls_are_local rfl htidy 9 "GROW" _ 0).2.1 _ hlive hr

end BasicScript
