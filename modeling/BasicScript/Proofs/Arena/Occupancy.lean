/-
  How many arrays an arena holds, and where the next one goes.

  * `Tidy.mem_free_iff`, `Tidy.free_perm`: the free list is a list of the empty slots.
  * `Tidy.liveCount_add_length`: so the live arrays and the free slots are all slots together, and
    how many arrays there are follows from the slots and the free list.
  * `Tidy.size_allocate`, `size_collect`, `Collected.length_free`: what allocation and collection do
    to these two; `Tidy.liveCount_allocate` and `Tidy.liveCount_collect` count the arrays after that.
  * `Allocated.index_ne`, `Allocated.entries?_of_ne`: a new array takes the place of none.
  * `live_and_free_complementary`: all this in every arena that comes about by operations.
-/
import BasicScript.Proofs.Arena.History

namespace BasicScript

namespace Arena

variable {a b : Arena} {h k : Handle}

/-! ## Slots and free slots -/

/-- The free slots are those in range that hold no array. -/
theorem Tidy.mem_free_iff (ha : a.Tidy) (i : Nat) :
    i ∈ a.free ↔ i < a.slots.size ∧ a.holds i = false := by
  rw [ha.mem_free, holds]
  by_cases hi : i < a.slots.size
  · rw [Array.getElem?_eq_getElem hi]
    rcases a.slots[i] with ⟨generation, - | es⟩ <;> simp [hi]
  · simp [hi]

/-- The free list has the empty slots in some order. -/
theorem Tidy.free_perm (ha : a.Tidy) :
    a.free.Perm (a.slots.toList.findIdxs (·.entries.isNone)) := by
  refine (List.perm_ext_iff_of_nodup ha.nodup List.nodup_findIdxs).2 fun i => ?_
  rw [ha.mem_free_iff, List.mem_findIdxs_iff_exists_getElem_pos]
  by_cases hi : i < a.slots.size <;> simp [holds, hi]

/-- A slot holds a live array or is free. -/
theorem Tidy.liveCount_add_length (ha : a.Tidy) :
    a.liveCount + a.free.length = a.slots.size := by
  have hfree : a.free.length = a.slots.toList.countP (·.entries.isNone) := by
    rw [ha.free_perm.length_eq, List.length_findIdxs]
  have hlive : a.liveCount = a.slots.toList.countP (·.entries.isSome) := by
    rw [liveCount, Array.countP_toList]
  have hnot : a.slots.toList.countP (·.entries.isNone) =
      a.slots.toList.countP fun s => decide ¬ s.entries.isSome = true :=
    List.countP_congr fun s _ => by simp
  rw [hfree, hlive, hnot, ← List.length_eq_countP_add_countP, Array.length_toList]

/-! ## Allocation -/

/-- An allocation takes a free slot or adds one. -/
theorem Tidy.size_allocate (ha : a.Tidy) :
    a.allocate.2.slots.size + a.free.length = a.slots.size + a.allocate.2.free.length + 1 := by
  cases hfree : a.free with
  | nil =>
    rw [allocate_of_free_nil hfree]
    simp [Arena.extend]
  | cons i free =>
    obtain ⟨generation, hs⟩ := (ha.mem_free i).1 (hfree ▸ List.mem_cons_self)
    rw [allocate_of_free_cons hfree hs]
    simp [Nat.add_assoc]

theorem Tidy.liveCount_allocate (ha : a.Tidy) : a.allocate.2.liveCount = a.liveCount + 1 := by
  have hsize := ha.size_allocate
  have hbefore := ha.liveCount_add_length
  have hafter := ha.allocate.liveCount_add_length
  omega

/-- The slot of a new array is that of no live one. -/
theorem Allocated.index_ne (hb : a.Allocated h b) (hk : a.isLive k = true) :
    k.index ≠ h.index := by
  intro hindex
  obtain ⟨es, hs⟩ := isLive_iff.1 hk
  exact hb.not_holds (hindex ▸ hs)

theorem Allocated.entries?_of_ne (hb : a.Allocated h b) (hk : k ≠ h) :
    b.entries? k = a.entries? k := by
  rw [hb.entries?_eq, if_neg hk]

/-! ## Collection -/

theorem size_collect (a : Arena) (roots : List Value) :
    (a.collect roots).2.slots.size = a.slots.size := by
  rw [collect, Array.size_mapIdx]

/-- The slots of the arrays that are reclaimed become free. -/
theorem Collected.length_free {roots : List Value} {count : Nat}
    (hc : a.Collected roots count b) : b.free.length = count + a.free.length := by
  obtain ⟨dead, -, -, hcount, hfree⟩ := hc.free
  rw [hfree, List.length_append, List.length_reverse, hcount]

theorem Tidy.liveCount_collect (ha : a.Tidy) (roots : List Value) :
    (a.collect roots).2.liveCount + (a.collect roots).1 = a.liveCount := by
  have hsize := size_collect a roots
  have hfree := (collected_collect a roots).length_free
  have hbefore := ha.liveCount_add_length
  have hafter := (ha.collect roots).liveCount_add_length
  omega

/-! ## Arenas with a history -/

/-- **A slot holds an array or is free.**  In every arena that comes about by operations the free
list has the slots without an array, each once, so that the live arrays and the free slots make up
all slots.  An allocation gives one live array more, under a reference that led to nothing and in a
slot that no live array has, and leaves the others as they are; a collection gives as many fewer as
it says. -/
theorem live_and_free_complementary (ops : List Operation) :
    let a := run .empty ops
    let h := a.allocate.1
    let b := a.allocate.2
    (a.free.Nodup ∧ (∀ i, i ∈ a.free ↔ i < a.slots.size ∧ a.holds i = false) ∧
      a.liveCount + a.free.length = a.slots.size) ∧
    (b.liveCount = a.liveCount + 1 ∧ a.entries? h = none ∧
      (∀ k, a.isLive k = true → k.index ≠ h.index) ∧ b.entries? h = some [] ∧
      (∀ k, k ≠ h → b.entries? k = a.entries? k) ∧
      ∀ i, i ≠ h.index → b.slots[i]? = a.slots[i]?) ∧
    ∀ roots, (a.collect roots).2.liveCount + (a.collect roots).1 = a.liveCount := by
  intro a h b
  have ha : a.Tidy := tidy_empty.run ops
  have hb : a.Allocated h b := ha.allocated.1
  have hnew : b.entries? h = some [] := by
    rw [hb.entries?_eq, if_pos rfl]
  refine ⟨⟨ha.nodup, ha.mem_free_iff, ha.liveCount_add_length⟩, ?_, ha.liveCount_collect⟩
  exact ⟨ha.liveCount_allocate, hb.entries?_new, fun k hk => hb.index_ne hk, hnew,
    fun k hk => hb.entries?_of_ne hk, hb.others⟩

end Arena

end BasicScript
