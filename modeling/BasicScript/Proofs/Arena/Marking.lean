/-
  Marking the arrays that references lead to, in any order.

  * `Arena.Reachable a roots h`: a chain of live references leads from the values `roots` to `h`.
  * `Marking.Step a`: one turn of marking.  Which pending reference comes next is left open, and so
    is the order in which the references of an array become pending.
  * `Marking.Inv a roots`: the invariant of the turns (`Inv.init`, `Inv.step`, `Inv.run`).  Once
    nothing is pending, the marks are those of the reachable arrays (`Inv.marked_iff`).
  * `Marking.step_wellFounded`: there is no endless sequence of turns, and `Marking.stuck_iff`: it
    stops only when nothing is pending.
  * `Marking.mark_run`: `Arena.mark` is one of the orders.
-/
import BasicScript.Arena.Collect
import Mathlib.Logic.Relation
import Mathlib.Order.WellFounded

namespace BasicScript

attribute [ext] Handle

/-! ## References to live arrays -/

namespace Arena

variable {a : Arena} {h k : Handle}

/-- A chain of references, all to live arrays, leads from one of the roots to `h`. -/
inductive Reachable (a : Arena) (roots : List Value) : Handle → Prop
  | root {h : Handle} : .array h ∈ roots → a.isLive h = true → Reachable a roots h
  | entry {h k : Handle} {es : Entries} : Reachable a roots h → a.entries? h = some es →
      k ∈ es.handles → a.isLive k = true → Reachable a roots k

theorem Reachable.isLive {roots : List Value} (hr : a.Reachable roots h) : a.isLive h = true := by
  cases hr with
  | root _ hl => exact hl
  | entry _ _ _ hl => exact hl

/-- A chain starts as well from more roots. -/
theorem Reachable.mono {roots roots' : List Value} (hsub : roots ⊆ roots')
    (hr : a.Reachable roots h) : a.Reachable roots' h := by
  induction hr with
  | root hm hl => exact .root (hsub hm) hl
  | entry _ hes hk hl ih => exact .entry ih hes hk hl

theorem isLive_of_entries? {es : Entries} (hes : a.entries? h = some es) : a.isLive h = true := by
  rw [isLive, hes]
  rfl

/-- A reference leads to a live array if its slot holds one of its generation. -/
theorem isLive_iff :
    a.isLive h = true ↔ ∃ es, a.slots[h.index]? = some ⟨h.generation, some es⟩ := by
  rw [isLive, entries?]
  rcases a.slots[h.index]? with _ | ⟨generation, entries⟩
  · simp
  · by_cases hg : generation = h.generation <;> simp [hg, Option.isSome_iff_exists]

theorem lt_size_of_isLive (hl : a.isLive h = true) : h.index < a.slots.size := by
  obtain ⟨es, hs⟩ := isLive_iff.1 hl
  exact (Array.getElem?_eq_some_iff.1 hs).1

/-- A slot holds the array of one live reference only. -/
theorem eq_of_isLive (hh : a.isLive h = true) (hk : a.isLive k = true)
    (hi : h.index = k.index) : h = k := by
  obtain ⟨es, hs⟩ := isLive_iff.1 hh
  obtain ⟨es', hs'⟩ := isLive_iff.1 hk
  have hg : k.generation = h.generation := by
    rw [hi, hs'] at hs
    exact congrArg Slot.generation (Option.some.inj hs)
  exact Handle.ext hi hg.symm

end Arena

/-! ## Turns of marking -/

/-- Marking under way: the marks of the slots and the references still to follow. -/
structure Marking where
  marked : Array Bool
  pending : List Handle

namespace Marking

/-- One turn of marking: a pending reference is dropped, if it leads to no array or to one that is
marked, or else its array is marked and the references in it become pending. -/
inductive Step (a : Arena) : Marking → Marking → Prop
  | skip {marked : Array Bool} {pending rest : List Handle} {h : Handle} :
      pending.Perm (h :: rest) → (a.isLive h = true → marked[h.index]? ≠ some false) →
      Step a ⟨marked, pending⟩ ⟨marked, rest⟩
  | visit {marked : Array Bool} {pending rest pending' : List Handle} {h : Handle}
      {es : Entries} : pending.Perm (h :: rest) → a.entries? h = some es →
      marked[h.index]? = some false → pending'.Perm (es.handles ++ rest) →
      Step a ⟨marked, pending⟩ ⟨marked.setIfInBounds h.index true, pending'⟩

/-- The marking before the first turn. -/
def start (a : Arena) (roots : List Value) : Marking :=
  ⟨Array.replicate a.slots.size false, roots.filterMap (·.handle?)⟩

/-- If a reference leads to an array, that array is marked or about to be. -/
def Covers (a : Arena) (m : Marking) (h : Handle) : Prop :=
  a.isLive h = true → h ∈ m.pending ∨ m.marked[h.index]? = some true

/-- What the turns keep: only reachable arrays are marked or pending, and the roots and the entries
of marked arrays are covered. -/
structure Inv (a : Arena) (roots : List Value) (m : Marking) : Prop where
  size : m.marked.size = a.slots.size
  pending : ∀ h ∈ m.pending, a.isLive h = true → a.Reachable roots h
  marked : ∀ i, m.marked[i]? = some true → ∃ h, h.index = i ∧ a.Reachable roots h
  root : ∀ h, .array h ∈ roots → m.Covers a h
  entry : ∀ h es, a.entries? h = some es → m.marked[h.index]? = some true →
    ∀ k ∈ es.handles, m.Covers a k

section
variable {a : Arena} {roots : List Value} {m m' : Marking}

theorem mem_handles {h : Handle} : h ∈ roots.filterMap (·.handle?) ↔ .array h ∈ roots := by
  rw [List.mem_filterMap]
  constructor
  · rintro ⟨v, hv, hh⟩
    cases v <;> simp [Value.handle?] at hh
    exact hh ▸ hv
  · exact fun hm => ⟨_, hm, rfl⟩

theorem Inv.init : (start a roots).Inv a roots := by
  have hnone : ∀ i : Nat, (start a roots).marked[i]? ≠ some true := by
    intro i
    simp [start, Array.getElem?_replicate]
  refine ⟨Array.size_replicate, fun h hp hl => .root (mem_handles.1 hp) hl, fun i hi => ?_,
    fun h hm _ => .inl (mem_handles.2 hm), fun h es _ hi => ?_⟩
  · exact absurd hi (hnone i)
  · exact absurd hi (hnone _)

theorem marked_set_iff {marked : Array Bool} {i j : Nat} (hf : marked[i]? = some false) :
    (marked.setIfInBounds i true)[j]? = some true ↔ j = i ∨ marked[j]? = some true := by
  have hi : i < marked.size := (Array.getElem?_eq_some_iff.1 hf).1
  rw [Array.getElem?_setIfInBounds]
  by_cases hj : i = j
  · simp [hj, hj ▸ hi]
  · simp [hj, Ne.symm hj]

/-- A turn covers all that was covered before. -/
theorem Covers.step {h : Handle} (hsize : m.marked.size = a.slots.size) (hs : Step a m m')
    (hc : m.Covers a h) : m'.Covers a h := by
  intro hl
  have hlt : h.index < m.marked.size := hsize ▸ Arena.lt_size_of_isLive hl
  rcases hs with @⟨marked, pending, rest, k, hp, hskip⟩ |
    @⟨marked, pending, rest, pending', k, es, hp, hes, hf, hp'⟩
  · rcases hc hl with hmem | hmark
    · rcases List.mem_cons.1 (hp.mem_iff.1 hmem) with rfl | hrest
      · refine .inr ?_
        have hne := hskip hl
        rw [Array.getElem?_eq_getElem hlt] at hne ⊢
        simpa using hne
      · exact .inl hrest
    · exact .inr hmark
  · rcases hc hl with hmem | hmark
    · rcases List.mem_cons.1 (hp.mem_iff.1 hmem) with rfl | hrest
      · exact .inr ((marked_set_iff hf).2 (.inl rfl))
      · exact .inl (hp'.mem_iff.2 (List.mem_append_right _ hrest))
    · exact .inr ((marked_set_iff hf).2 (.inr hmark))

/-- A turn keeps the invariant. -/
theorem Inv.step (h : m.Inv a roots) (hs : Step a m m') : m'.Inv a roots := by
  have hcovers : ∀ k, m.Covers a k → m'.Covers a k := fun k => Covers.step h.size hs
  rcases hs with @⟨marked, pending, rest, k, hp, hskip⟩ |
    @⟨marked, pending, rest, pending', k, es, hp, hes, hf, hp'⟩
  · refine ⟨h.size, fun g hg => ?_, h.marked, fun g hg => hcovers g (h.root g hg),
      fun g es hes hg j hj => hcovers j (h.entry g es hes hg j hj)⟩
    exact h.pending g (hp.mem_iff.2 (List.mem_cons_of_mem _ hg))
  · have hlive : a.isLive k = true := Arena.isLive_of_entries? hes
    have hk : a.Reachable roots k := h.pending k (hp.mem_iff.2 List.mem_cons_self) hlive
    refine ⟨?_, fun g hg hl => ?_, fun i hi => ?_, fun g hg => hcovers g (h.root g hg),
      fun g es' hes' hg j hj => ?_⟩
    · exact Array.size_setIfInBounds.trans h.size
    · rcases List.mem_append.1 (hp'.mem_iff.1 hg) with hchild | hrest
      · exact .entry hk hes hchild hl
      · exact h.pending g (hp.mem_iff.2 (List.mem_cons_of_mem _ hrest)) hl
    · rcases (marked_set_iff hf).1 hi with rfl | hi
      · exact ⟨k, rfl, hk⟩
      · exact h.marked i hi
    · rcases (marked_set_iff hf).1 hg with hindex | hg
      · -- the array that this turn marks: its references have just become pending
        obtain rfl := Arena.eq_of_isLive (Arena.isLive_of_entries? hes') hlive hindex
        obtain rfl : es' = es := Option.some.inj (hes'.symm.trans hes)
        exact fun _ => .inl (hp'.mem_iff.2 (List.mem_append_left _ hj))
      · exact hcovers j (h.entry g es' hes' hg j hj)

theorem Inv.run (h : m.Inv a roots) (hs : Relation.ReflTransGen (Step a) m m') :
    m'.Inv a roots := by
  induction hs with
  | refl => exact h
  | tail _ hstep ih => exact ih.step hstep

/-- Once nothing is pending, every reachable array is marked. -/
theorem Inv.marked_of_reachable (h : m.Inv a roots) (hdone : m.pending = []) {k : Handle}
    (hk : a.Reachable roots k) : m.marked[k.index]? = some true := by
  have hcovered : ∀ j, a.isLive j = true → m.Covers a j → m.marked[j.index]? = some true := by
    intro j hl hc
    rcases hc hl with hp | hm
    · exact absurd (hdone ▸ hp) List.not_mem_nil
    · exact hm
  induction hk with
  | root hm hl => exact hcovered _ hl (h.root _ hm)
  | entry _ hes hk hl ih => exact hcovered _ hl (h.entry _ _ hes ih _ hk)

theorem Inv.marked_iff (h : m.Inv a roots) (hdone : m.pending = []) (i : Nat) :
    m.marked[i]? = some true ↔ ∃ k, k.index = i ∧ a.Reachable roots k := by
  constructor
  · exact h.marked i
  · rintro ⟨k, rfl, hk⟩
    exact h.marked_of_reachable hdone hk

end

/-! ## Runs -/

/-- The slots without a mark, and then the references to follow. -/
def size (m : Marking) : Nat × Nat := (m.marked.count false, m.pending.length)

/-- There is no endless sequence of turns. -/
theorem step_wellFounded (a : Arena) : WellFounded fun m' m => Step a m m' := by
  have hlex : WellFounded (Prod.Lex Nat.lt Nat.lt) :=
    (Prod.lex Nat.lt_wfRel Nat.lt_wfRel).wf
  refine Subrelation.wf ?_ (InvImage.wf size hlex)
  rintro m' m (@⟨marked, pending, rest, h, hp, hskip⟩ |
    @⟨marked, pending, rest, pending', h, es, hp, hes, hf, hp'⟩)
  · refine Prod.Lex.right _ ?_
    show rest.length < pending.length
    rw [hp.length_eq]
    exact Nat.lt_succ_self _
  · exact Prod.Lex.left _ _ (Arena.count_false_lt hf)

/-- Marking stops only when nothing is pending. -/
theorem stuck_iff {a : Arena} {m : Marking} : (∀ m', ¬ Step a m m') ↔ m.pending = [] := by
  obtain ⟨marked, pending⟩ := m
  constructor
  · intro hstuck
    rcases pending with - | ⟨h, rest⟩
    · rfl
    · by_cases hskip : a.isLive h = true → marked[h.index]? ≠ some false
      · exact absurd (.skip (.refl _) hskip) (hstuck _)
      · obtain ⟨hl, hf⟩ := Classical.not_imp.1 hskip
        obtain ⟨es, hes⟩ := Option.isSome_iff_exists.1 hl
        exact absurd (.visit (.refl _) hes (not_not.1 hf) (.refl _)) (hstuck _)
  · rintro hdone m' (⟨hp, -⟩ | ⟨hp, -⟩)
    all_goals
      obtain rfl : _ = [] := hdone
      exact List.cons_ne_nil _ _ (List.nil_perm.1 hp)

/-- Marking in depth is one of the orders of turns. -/
theorem mark_run (a : Arena) (marked : Array Bool) (pending : List Handle) :
    Relation.ReflTransGen (Step a) ⟨marked, pending⟩ ⟨a.mark marked pending, []⟩ := by
  fun_induction Arena.mark a marked pending with
  | case1 marked => exact .refl
  | case2 marked h pending hes ih =>
    refine .head (.skip (.refl _) fun hl => ?_) ih
    rw [Arena.isLive, hes] at hl
    cases hl
  | case3 marked h pending es hes hf ih => exact .head (.visit (.refl _) hes hf (.refl _)) ih
  | case4 marked h pending es hes hf ih => exact .head (.skip (.refl _) fun _ => hf) ih

end Marking

end BasicScript
