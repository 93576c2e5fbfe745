/-
  Collection is exact.

  * `Arena.Lost a roots i`: slot `i` holds an array that no chain of live references leads to.
  * `Arena.Collected a roots count b`: what reclaiming the arrays of `a` that are lost comes to.
  * `eq_reached_of_run`: every order of marking ends in the marks `reached`.
  * `mem_unmarked_iff`: so the slots that are emptied are those of the lost arrays.
  * `Collected.unique`: the roots count as a set.
  * `collect_exact`: marking ends in the same marks in any order, and `collect` reclaims the lost
    arrays, for roots in any order and number.
-/
import BasicScript.Proofs.Arena.Marking
import Mathlib.Data.List.Sort

namespace BasicScript

namespace Arena

/-- Slot `i` holds an array that the roots do not lead to. -/
def Lost (a : Arena) (roots : List Value) (i : Nat) : Prop :=
  ∃ s, a.slots[i]? = some s ∧ s.entries.isSome = true ∧ ¬ a.Reachable roots ⟨i, s.generation⟩

/-- The arena `b` is `a` without the `count` arrays that are lost: their slots are empty, one
generation on (modulo `2 ^ 32`) and free, the last one next to be used and all of them before those
that were free already; every other slot is as it was. -/
structure Collected (a : Arena) (roots : List Value) (count : Nat) (b : Arena) : Prop where
  kept : ∀ i, ¬ a.Lost roots i → b.slots[i]? = a.slots[i]?
  lost : ∀ i s, a.slots[i]? = some s → a.Lost roots i →
    b.slots[i]? = some ⟨s.generation + 1, none⟩
  free : ∃ dead : List Nat, dead.Pairwise (· < ·) ∧ (∀ i, i ∈ dead ↔ a.Lost roots i) ∧
    count = dead.length ∧ b.free = dead.reverse ++ a.free

section
variable {a b : Arena} {roots roots' : List Value}

theorem Lost.mono {i : Nat} (hsub : roots' ⊆ roots) (h : a.Lost roots i) : a.Lost roots' i := by
  obtain ⟨s, hs, he, hr⟩ := h
  exact ⟨s, hs, he, fun hr' => hr (hr'.mono hsub)⟩

theorem lost_congr (hroots : ∀ v, v ∈ roots ↔ v ∈ roots') (i : Nat) :
    a.Lost roots i ↔ a.Lost roots' i :=
  ⟨.mono fun v hv => (hroots v).2 hv, .mono fun v hv => (hroots v).1 hv⟩

/-- The slot of a live reference is lost unless the reference is reachable. -/
theorem lost_iff_of_isLive {h : Handle} (hl : a.isLive h = true) :
    a.Lost roots h.index ↔ ¬ a.Reachable roots h := by
  obtain ⟨es, hs⟩ := isLive_iff.1 hl
  constructor
  · rintro ⟨s, hs', -, hr⟩
    obtain rfl : s = ⟨h.generation, some es⟩ := Option.some.inj (hs'.symm.trans hs)
    exact hr
  · exact fun hr => ⟨_, hs, rfl, hr⟩

/-- After a collection the live arrays are those that were reachable. -/
theorem Collected.isLive_iff {count : Nat} (hc : a.Collected roots count b) (h : Handle) :
    b.isLive h = true ↔ a.isLive h = true ∧ a.Reachable roots h := by
  by_cases hlost : a.Lost roots h.index
  · have ⟨s, hs, _⟩ := hlost
    have hempty := hc.lost h.index s hs hlost
    constructor
    · intro hl
      obtain ⟨es, hes⟩ := Arena.isLive_iff.1 hl
      rw [hempty] at hes
      exact absurd hes (by simp)
    · rintro ⟨hl, hr⟩
      exact absurd hr ((lost_iff_of_isLive hl).1 hlost)
  · have hsame : b.isLive h = true ↔ a.isLive h = true := by
      rw [Arena.isLive_iff, Arena.isLive_iff, hc.kept h.index hlost]
    rw [hsame]
    constructor
    · exact fun hl => ⟨hl, by_contra fun hr => hlost ((lost_iff_of_isLive hl).2 hr)⟩
    · exact And.left

/-- What a collection comes to depends only on which values are roots. -/
theorem Collected.unique {b' : Arena} {count count' : Nat}
    (hroots : ∀ v, v ∈ roots ↔ v ∈ roots') (hc : a.Collected roots count b)
    (hc' : a.Collected roots' count' b') : (count, b) = (count', b') := by
  have hlost := lost_congr (a := a) hroots
  have hslots : b.slots = b'.slots := by
    refine Array.ext_getElem? fun i => ?_
    by_cases hi : a.Lost roots i
    · have ⟨s, hs, _⟩ := hi
      rw [hc.lost i s hs hi, hc'.lost i s hs ((hlost i).1 hi)]
    · rw [hc.kept i hi, hc'.kept i fun hi' => hi ((hlost i).2 hi')]
  obtain ⟨dead, hsorted, hmem, hcount, hfree⟩ := hc.free
  obtain ⟨dead', hsorted', hmem', hcount', hfree'⟩ := hc'.free
  have hdead : dead = dead' := by
    refine hsorted.eq_of_mem_iff hsorted' fun i => ?_
    rw [hmem, hmem', hlost]
  cases b
  cases b'
  simp_all

/-! ## The collection of the arena -/

/-- Whatever the order of the turns, a slot is marked in the end if its array is reachable. -/
theorem marked_iff_of_run {marked : Array Bool}
    (hrun : Relation.ReflTransGen (Marking.Step a) (.start a roots) ⟨marked, []⟩) (i : Nat) :
    marked[i]? = some true ↔ ∃ h, h.index = i ∧ a.Reachable roots h :=
  (Marking.Inv.init.run hrun).marked_iff rfl i

theorem reached_run (a : Arena) (roots : List Value) :
    Relation.ReflTransGen (Marking.Step a) (.start a roots) ⟨a.reached roots, []⟩ :=
  Marking.mark_run a _ _

/-- Every order of the turns ends in the same marks. -/
theorem eq_reached_of_run {marked : Array Bool}
    (hrun : Relation.ReflTransGen (Marking.Step a) (.start a roots) ⟨marked, []⟩) :
    marked = a.reached roots := by
  have hsize : marked.size = (a.reached roots).size :=
    (Marking.Inv.init.run hrun).size.trans (Marking.Inv.init.run (reached_run a roots)).size.symm
  refine Array.ext hsize fun i hi hi' => Bool.eq_iff_iff.2 ?_
  have hmarked := marked_iff_of_run hrun i
  have hreached := marked_iff_of_run (reached_run a roots) i
  rw [Array.getElem?_eq_getElem hi, Option.some_inj] at hmarked
  rw [Array.getElem?_eq_getElem hi', Option.some_inj] at hreached
  exact hmarked.trans hreached.symm

/-- A slot with an array is lost unless it is marked. -/
theorem lost_iff {i : Nat} {s : Slot} (hs : a.slots[i]? = some s) :
    a.Lost roots i ↔ s.entries.isSome = true ∧ (a.reached roots)[i]? ≠ some true := by
  have hreached := marked_iff_of_run (reached_run a roots) i
  constructor
  · rintro ⟨s', hs', he, hr⟩
    obtain rfl : s' = s := Option.some.inj (hs'.symm.trans hs)
    refine ⟨he, fun hmark => ?_⟩
    obtain ⟨h, rfl, hh⟩ := hreached.1 hmark
    obtain ⟨es, hs''⟩ := isLive_iff.1 hh.isLive
    obtain rfl : s' = ⟨h.generation, some es⟩ := Option.some.inj (hs.symm.trans hs'')
    exact hr hh
  · rintro ⟨he, hmark⟩
    exact ⟨s, hs, he, fun hr => hmark (hreached.2 ⟨_, rfl, hr⟩)⟩

theorem mem_unmarked_iff (i : Nat) :
    i ∈ a.unmarked (a.reached roots) ↔ a.Lost roots i := by
  rw [unmarked, List.mem_filter, List.mem_range]
  cases hs : a.slots[i]? with
  | none =>
    have hnot : ¬ i < a.slots.size := Nat.not_lt.2 (Array.getElem?_eq_none_iff.1 hs)
    constructor
    · exact fun h => absurd h.1 hnot
    · rintro ⟨s, hs', -⟩
      rw [hs] at hs'
      cases hs'
  | some s =>
    have hlt : i < a.slots.size := (Array.getElem?_eq_some_iff.1 hs).1
    rw [lost_iff hs]
    simp [hlt]

/-- The slots after a collection. -/
theorem slots_collect (a : Arena) (roots : List Value) (i : Nat) :
    (a.collect roots).2.slots[i]? = a.slots[i]?.map fun s =>
      if s.entries.isSome && (a.reached roots)[i]? != some true then s.reclaimed else s := by
  rw [collect, Array.getElem?_mapIdx]

theorem collected_collect (a : Arena) (roots : List Value) :
    a.Collected roots (a.collect roots).1 (a.collect roots).2 where
  kept i hi := by
    rw [slots_collect]
    cases hs : a.slots[i]? with
    | none => rfl
    | some s =>
      have hnot := mt (lost_iff hs).2 hi
      rw [Option.map_some, if_neg (by simpa using hnot)]
  lost i s hs hi := by
    have hlost := (lost_iff hs).1 hi
    rw [slots_collect, hs, Option.map_some, if_pos (by simpa using hlost)]
    rfl
  free := by
    refine ⟨a.unmarked (a.reached roots), ?_, mem_unmarked_iff, rfl, rfl⟩
    exact List.pairwise_lt_range.filter _

/-- **Collection is exact.** -/
theorem collect_exact (a : Arena) (roots : List Value) :
    (WellFounded fun m' m => Marking.Step a m m') ∧
    (∀ m, (∀ m', ¬ Marking.Step a m m') ↔ m.pending = []) ∧
    (∀ marked, Relation.ReflTransGen (Marking.Step a) (.start a roots) ⟨marked, []⟩ ↔
      marked = a.reached roots) ∧
    (∀ h, (a.collect roots).2.isLive h = true ↔ a.isLive h = true ∧ a.Reachable roots h) ∧
    a.Collected roots (a.collect roots).1 (a.collect roots).2 ∧
    (∀ roots', (∀ v, v ∈ roots ↔ v ∈ roots') → a.collect roots = a.collect roots') := by
  have hc := collected_collect a roots
  refine ⟨Marking.step_wellFounded a, fun _ => Marking.stuck_iff,
    fun marked => ⟨eq_reached_of_run, ?_⟩, hc.isLive_iff, hc,
    fun roots' hroots => hc.unique hroots (collected_collect a roots')⟩
  rintro rfl
  exact reached_run a roots

end

end Arena

end BasicScript
