/-
  The free slots of an arena, and what each operation leaves behind a reference.

  * `Arena.Tidy a`: the free list holds the indices of the empty slots, each once.
  * `tidy_empty`, `Tidy.allocate`, `Tidy.modify`, `Tidy.collect`: the operations keep it so.
  * `Arena.Allocated a h b`: the arena `b` is `a` with an empty array in a slot that held none, and
    `h` refers to it (`Tidy.allocated`: so it is after an allocation).
  * `Allocated.entries?_eq`, `entries?_modify`, `entries?_collect`: the arrays after each operation.
-/
import BasicScript.Proofs.Arena.Collection

namespace BasicScript

namespace Arena

variable {a b : Arena} {h k : Handle}

/-- The free list holds the indices of the empty slots, each once. -/
structure Tidy (a : Arena) : Prop where
  nodup : a.free.Nodup
  mem_free : ∀ i, i ∈ a.free ↔ ∃ generation, a.slots[i]? = some ⟨generation, none⟩

theorem tidy_empty : empty.Tidy := ⟨List.nodup_nil, fun i => by simp [empty]⟩

/-! ## Allocation -/

/-- The arena `b` is `a` with an empty array in a slot that held none: a free slot, whose generation
the reference `h` carries, or a further slot of generation zero. -/
structure Allocated (a : Arena) (h : Handle) (b : Arena) : Prop where
  slot : b.slots[h.index]? = some ⟨h.generation, some []⟩
  vacant : a.slots[h.index]? = some ⟨h.generation, none⟩ ∨
    h.index = a.slots.size ∧ h.generation = 0
  others : ∀ i, i ≠ h.index → b.slots[i]? = a.slots[i]?

theorem allocate_of_free_nil (hfree : a.free = []) : a.allocate = a.extend [] := by
  simp only [allocate, hfree]

theorem allocate_of_free_cons {i : Nat} {free : List Nat} {slot : Slot} (hfree : a.free = i :: free)
    (hs : a.slots[i]? = some slot) :
    a.allocate = (⟨i, slot.generation⟩,
      ⟨a.slots.setIfInBounds i { slot with entries := some [] }, free⟩) := by
  simp only [allocate, hfree, hs]

theorem allocated_extend (a : Arena) : a.Allocated (a.extend []).1 (a.extend []).2 where
  slot := Array.getElem?_push_size
  vacant := .inr ⟨rfl, rfl⟩
  others i hi := by
    have hne : i ≠ a.slots.size := hi
    simp [extend, Array.getElem?_push, hne]

theorem Tidy.extend (ha : a.Tidy) (hfree : a.free = []) : (a.extend []).2.Tidy where
  nodup := List.nodup_nil
  mem_free i := by
    have hnone : ∀ generation, a.slots[i]? ≠ some ⟨generation, none⟩ := fun generation hs =>
      List.not_mem_nil (hfree ▸ (ha.mem_free i).2 ⟨generation, hs⟩)
    by_cases hi : i = a.slots.size <;> simp [Arena.extend, Array.getElem?_push, hi, hnone]

theorem allocated_reuse {i : Nat} {free : List Nat} {generation : UInt32}
    (hs : a.slots[i]? = some ⟨generation, none⟩) :
    a.Allocated ⟨i, generation⟩ ⟨a.slots.setIfInBounds i ⟨generation, some []⟩, free⟩ where
  slot := by
    have hi : i < a.slots.size := (Array.getElem?_eq_some_iff.1 hs).1
    simp [hi]
  vacant := .inl hs
  others j hj := by
    have hne : i ≠ j := fun h => hj h.symm
    simp [hne]

theorem Tidy.reuse {i : Nat} {free : List Nat} {generation : UInt32} (ha : a.Tidy)
    (hfree : a.free = i :: free) (hs : a.slots[i]? = some ⟨generation, none⟩) :
    Tidy ⟨a.slots.setIfInBounds i ⟨generation, some []⟩, free⟩ := by
  have hnodup := hfree ▸ ha.nodup
  have hi : i < a.slots.size := (Array.getElem?_eq_some_iff.1 hs).1
  refine ⟨(List.nodup_cons.1 hnodup).2, fun j => ?_⟩
  have hj := ha.mem_free j
  rw [hfree, List.mem_cons] at hj
  rw [Array.getElem?_setIfInBounds]
  by_cases hij : i = j
  · subst hij
    simp [hi, (List.nodup_cons.1 hnodup).1]
  · rw [if_neg hij, ← hj]
    simp [Ne.symm hij]

/-- An allocation puts an empty array into a slot that held none, and the arena stays tidy. -/
theorem Tidy.allocated (ha : a.Tidy) :
    a.Allocated a.allocate.1 a.allocate.2 ∧ a.allocate.2.Tidy := by
  cases hfree : a.free with
  | nil =>
    rw [allocate_of_free_nil hfree]
    exact ⟨allocated_extend a, ha.extend hfree⟩
  | cons i free =>
    obtain ⟨generation, hs⟩ := (ha.mem_free i).1 (hfree ▸ List.mem_cons_self)
    rw [allocate_of_free_cons hfree hs]
    exact ⟨allocated_reuse hs, ha.reuse hfree hs⟩

theorem Tidy.allocate (ha : a.Tidy) : a.allocate.2.Tidy := ha.allocated.2

/-- The slot of a new array held none before. -/
theorem Allocated.not_holds (hb : a.Allocated h b) {generation : UInt32} {es : Entries} :
    a.slots[h.index]? ≠ some ⟨generation, some es⟩ := by
  intro hs
  rcases hb.vacant with hv | ⟨hi, -⟩
  · rw [hs] at hv
    cases hv
  · have hlt := (Array.getElem?_eq_some_iff.1 hs).1
    omega

theorem Allocated.entries?_new (hb : a.Allocated h b) : a.entries? h = none := by
  cases hes : a.entries? h with
  | none => rfl
  | some es =>
    obtain ⟨es, hs⟩ := isLive_iff.1 (isLive_of_entries? hes)
    exact absurd hs hb.not_holds

/-- The arrays after an allocation. -/
theorem Allocated.entries?_eq (hb : a.Allocated h b) (k : Handle) :
    b.entries? k = if k = h then some [] else a.entries? k := by
  by_cases hi : k.index = h.index
  · by_cases hk : k = h
    · rw [if_pos hk, hk, entries?, hb.slot]
      exact if_pos rfl
    · have hg : h.generation ≠ k.generation := fun hg => hk (Handle.ext hi hg.symm)
      have hold : a.entries? k = none := by
        cases hes : a.entries? k with
        | none => rfl
        | some es =>
          obtain ⟨es, hs⟩ := isLive_iff.1 (isLive_of_entries? hes)
          exact absurd (hi ▸ hs) hb.not_holds
      rw [if_neg hk, hold, entries?, hi, hb.slot]
      exact if_neg hg
  · have hk : k ≠ h := fun hk => hi (congrArg Handle.index hk)
    rw [if_neg hk, entries?, entries?, hb.others _ hi]

/-! ## Changes of entries -/

/-- The slots after a change. -/
theorem slots_modify (a : Arena) (h : Handle) (f : Entries → Entries) (i : Nat) :
    (a.modify h f).slots[i]? = a.slots[i]?.map fun s =>
      if i = h.index ∧ s.generation = h.generation then ⟨s.generation, s.entries.map f⟩ else s := by
  rw [modify, Array.getElem?_modify]
  by_cases hi : h.index = i
  · simp only [hi, if_true, true_and]
  · have hne : ¬ i = h.index := fun h => hi h.symm
    simp [hi, hne]

theorem Tidy.modify (ha : a.Tidy) (h : Handle) (f : Entries → Entries) : (a.modify h f).Tidy where
  nodup := ha.nodup
  mem_free i := by
    rw [slots_modify]
    refine (ha.mem_free i).trans ?_
    rcases a.slots[i]? with - | ⟨generation, entries⟩
    · simp
    · by_cases hc : i = h.index ∧ generation = h.generation <;> cases entries <;> simp [hc]

/-- The arrays after a change. -/
theorem entries?_modify (a : Arena) (h k : Handle) (f : Entries → Entries) :
    (a.modify h f).entries? k = if k = h then (a.entries? h).map f else a.entries? k := by
  by_cases hk : k = h
  · rw [if_pos hk, hk, entries?_modify_self]
  · rw [if_neg hk]
    by_cases hi : k.index = h.index
    · -- the same slot, but `k` is of another generation
      have hg : h.generation ≠ k.generation := fun hg => hk (Handle.ext hi hg.symm)
      rw [entries?, entries?, slots_modify, hi]
      rcases a.slots[h.index]? with - | ⟨generation, entries⟩
      · rfl
      · by_cases hc : generation = h.generation <;> simp [hc, hg]
    · exact a.entries?_modify_of_ne f hi

/-- Changes that agree on the entries at hand come to the same. -/
theorem modify_congr {f f' : Entries → Entries} {es : Entries} (hes : a.entries? h = some es)
    (hf : f es = f' es) : a.modify h f = a.modify h f' := by
  refine congrArg (Arena.mk · a.free) (Array.ext_getElem? fun i => ?_)
  have hf' : (a.modify h f).slots[i]? = (a.modify h f').slots[i]? := by
    rw [slots_modify, slots_modify]
    by_cases hi : i = h.index
    · obtain ⟨es', hs⟩ := isLive_iff.1 (isLive_of_entries? hes)
      rw [entries?, hs] at hes
      simp_all
    · simp [hi]
  exact hf'

/-! ## Collection -/

/-- The arrays after a collection. -/
theorem Collected.entries?_eq {roots : List Value} {count : Nat} (hc : a.Collected roots count b)
    (k : Handle) : b.entries? k = if b.isLive k then a.entries? k else none := by
  by_cases hl : b.isLive k = true
  · have hnot : ¬ a.Lost roots k.index := by
      have hr := (hc.isLive_iff k).1 hl
      exact fun hlost => (lost_iff_of_isLive hr.1).1 hlost hr.2
    rw [if_pos hl, entries?, entries?, hc.kept _ hnot]
  · rw [if_neg hl]
    cases hes : b.entries? k with
    | none => rfl
    | some es => exact absurd (isLive_of_entries? hes) hl

theorem Collected.entries?_of_eq_some {roots : List Value} {count : Nat}
    (hc : a.Collected roots count b) {es : Entries} (hes : b.entries? h = some es) :
    a.entries? h = some es := by
  have hl := isLive_of_entries? hes
  rw [← hes, hc.entries?_eq, if_pos hl]

theorem Collected.tidy {roots : List Value} {count : Nat} (ha : a.Tidy)
    (hc : a.Collected roots count b) : b.Tidy := by
  obtain ⟨dead, hsorted, hmem, -, hfree⟩ := hc.free
  have hdead : ∀ i ∈ dead, i ∉ a.free := by
    rintro i hi hfree
    obtain ⟨s, hs, he, -⟩ := (hmem i).1 hi
    obtain ⟨generation, hs'⟩ := (ha.mem_free i).1 hfree
    obtain rfl : s = ⟨generation, none⟩ := Option.some.inj (hs.symm.trans hs')
    cases he
  refine ⟨?_, fun i => ?_⟩
  · rw [hfree]
    refine List.nodup_append.2 ⟨?_, ha.nodup, fun i hi j hj hij => ?_⟩
    · exact List.nodup_reverse.2 (hsorted.imp Nat.ne_of_lt)
    · exact hdead i (List.mem_reverse.1 hi) (hij ▸ hj)
  · rw [hfree, List.mem_append, List.mem_reverse, hmem]
    by_cases hlost : a.Lost roots i
    · have ⟨s, hs, _⟩ := hlost
      exact ⟨fun _ => ⟨_, hc.lost i s hs hlost⟩, fun _ => .inl hlost⟩
    · rw [hc.kept i hlost, ha.mem_free i]
      exact ⟨fun h => h.resolve_left hlost, .inr⟩

theorem Tidy.collect (ha : a.Tidy) (roots : List Value) : (a.collect roots).2.Tidy :=
  (collected_collect a roots).tidy ha

end Arena

end BasicScript
