/-
  Arrays are ordered finite maps.

  * `Operation.Canonical op`: the keys that the operation takes are those of values.
  * `Arena.Ordered a`: the entries of every array are in the order of their keys; `Ordered.run`: so
    they stay in a history that takes keys of values only.
  * `lastWrite h k ops`: the value that the history sets last under `k` through `h`, if it does not
    remove it; `find?_written`: it is what `k` leads to.
  * `arrays_are_ordered_maps`: keys are in a strict total order, and an array holds its keys in this
    order, each once and with the last value, whatever was done to it.
-/
import BasicScript.Proofs.Arena.History
import BasicScript.Proofs.Arena.KeyOrder

namespace BasicScript

namespace Arena

variable {a : Arena} {h : Handle} {k : Key}

/-! ## Histories with keys of values -/

/-- The key that an operation takes, if any, is that of a value. -/
def Operation.Canonical : Operation → Prop
  | .write _ k _ | .remove _ k => k.Canonical
  | .allocate | .collect _ => True

/-- The entries of every array are in the order of their keys. -/
def Ordered (a : Arena) : Prop := ∀ h es, a.entries? h = some es → es.Ordered

theorem ordered_empty : empty.Ordered := by
  intro h es hes
  cases hes

theorem Ordered.modify (ha : a.Ordered) (h : Handle) {f : Entries → Entries}
    (hf : ∀ es : Entries, es.Ordered → (f es).Ordered) : (a.modify h f).Ordered := by
  intro g es hes
  rw [entries?_modify] at hes
  split at hes
  · obtain ⟨es', hes', rfl⟩ := Option.map_eq_some_iff.1 hes
    exact hf _ (ha _ _ hes')
  · exact ha _ _ hes

theorem Ordered.apply (ha : a.Ordered) (htidy : a.Tidy) {op : Operation} (hop : op.Canonical) :
    (a.apply op).Ordered := by
  cases op with
  | allocate =>
    intro g es hes
    rw [Arena.apply, htidy.allocated.1.entries?_eq] at hes
    split at hes
    · cases hes
      exact Entries.ordered_nil
    · exact ha _ _ hes
  | write h k v => exact ha.modify h fun es hes => hes.insert hop v
  | remove h k => exact ha.modify h fun es hes => hes.erase k
  | collect roots =>
    intro g es hes
    exact ha _ _ ((collected_collect a roots).entries?_of_eq_some hes)

theorem Ordered.run (ha : a.Ordered) (htidy : a.Tidy) {ops : List Operation}
    (hops : ∀ op ∈ ops, op.Canonical) : (a.run ops).Ordered := by
  induction ops generalizing a with
  | nil => exact ha
  | cons op ops ih =>
    obtain ⟨hop, hops⟩ := List.forall_mem_cons.1 hops
    exact ih (ha.apply htidy hop) (htidy.apply op) hops

/-! ## What was written last -/

/-- The value under `k` in the array of `h` after an operation, `v` being the one before. -/
def lastWriteBy (h : Handle) (k : Key) (v : Option Value) : Operation → Option Value
  | .write g key w => if g = h ∧ key = k then some w else v
  | .remove g key => if g = h ∧ key = k then none else v
  | .allocate | .collect _ => v

/-- The value that is set last under `k` through `h`, if it is not removed after that. -/
def lastWrite (h : Handle) (k : Key) (ops : List Operation) : Option Value :=
  ops.foldl (lastWriteBy h k) none

theorem writtenBy_ordered {es : Entries} (hes : es.Ordered) {op : Operation}
    (hop : op.Canonical) (h : Handle) : (writtenBy h es op).Ordered := by
  cases op with
  | allocate => exact hes
  | collect roots => exact hes
  | write g key w =>
    rw [writtenBy]
    split
    · exact hes.insert hop w
    · exact hes
  | remove g key =>
    rw [writtenBy]
    split
    · exact hes.erase key
    · exact hes

theorem find?_writtenBy {op : Operation} (hop : op.Canonical) (hk : k.Canonical) (h : Handle)
    (es : Entries) : (writtenBy h es op).find? k = lastWriteBy h k (es.find? k) op := by
  cases op with
  | allocate => rfl
  | collect roots => rfl
  | write g key w =>
    rw [writtenBy, lastWriteBy]
    by_cases hg : g = h
    · by_cases hkey : key = k
      · rw [if_pos hg, if_pos ⟨hg, hkey⟩, hkey, Entries.find?_insert_self]
      · rw [if_pos hg, if_neg fun hc => hkey hc.2,
          Entries.find?_insert_of_ne hop hk (Ne.symm hkey)]
    · rw [if_neg hg, if_neg fun hc => hg hc.1]
  | remove g key =>
    rw [writtenBy, lastWriteBy]
    by_cases hg : g = h
    · by_cases hkey : key = k
      · rw [if_pos hg, if_pos ⟨hg, hkey⟩, hkey, Entries.find?_erase_self]
      · rw [if_pos hg, if_neg fun hc => hkey hc.2,
          Entries.find?_erase_of_ne hop hk (Ne.symm hkey)]
    · rw [if_neg hg, if_neg fun hc => hg hc.1]

/-- The entries that a history writes are in the order of their keys, and a key leads to the value
that was written last. -/
theorem written_spec {ops : List Operation} (hops : ∀ op ∈ ops, op.Canonical) (h : Handle)
    {es : Entries} (hes : es.Ordered) :
    (ops.foldl (writtenBy h) es).Ordered ∧ ∀ k, k.Canonical →
      (ops.foldl (writtenBy h) es).find? k = ops.foldl (lastWriteBy h k) (es.find? k) := by
  induction ops generalizing es with
  | nil => exact ⟨hes, fun _ _ => rfl⟩
  | cons op ops ih =>
    obtain ⟨hop, hops⟩ := List.forall_mem_cons.1 hops
    obtain ⟨hordered, hfind⟩ := ih hops (writtenBy_ordered hes hop h)
    refine ⟨hordered, fun k hk => ?_⟩
    rw [List.foldl_cons, List.foldl_cons, hfind k hk, find?_writtenBy hop hk]

/-! ## Arrays as maps -/

/-- The array of `h` holds exactly the entries `es`, in the order of their keys and each key once, and
its length, `HAS` and what is read from it go by them. -/
structure IsMap (a : Arena) (h : Handle) (es : Entries) : Prop where
  entries : a.entries? h = some es
  ordered : es.Ordered
  nodup : (es.map (·.1)).Nodup
  length : a.length h = es.length
  containsKey : ∀ k, k.Canonical → (a.containsKey h k = true ↔ ∃ v, (k, v) ∈ es)
  lookup : ∀ k v, k.Canonical → (k, v) ∈ es → a.lookup h k = v
  lookup_empty : ∀ k, k.Canonical → (¬ ∃ v, (k, v) ∈ es) → a.lookup h k = .empty

theorem isMap {es : Entries} (hes : a.entries? h = some es) (ho : es.Ordered) : a.IsMap h es where
  entries := hes
  ordered := ho
  nodup := by
    refine List.pairwise_map.2 (ho.ascending.imp fun {e e'} hlt heq => ?_)
    rw [heq, Key.compare_self] at hlt
    cases hlt
  length := by
    rw [Arena.length, hes]
    rfl
  containsKey k hk := by
    rw [Arena.containsKey, hes, Option.bind_some, Option.isSome_iff_exists]
    exact exists_congr fun v => ho.find?_eq_some_iff hk
  lookup k v hk hmem := by
    rw [Arena.lookup, hes, Option.bind_some, (ho.find?_eq_some_iff hk).2 hmem]
    rfl
  lookup_empty k hk hnot := by
    rw [Arena.lookup, hes, Option.bind_some]
    cases hf : es.find? k with
    | none => rfl
    | some v => exact absurd ⟨v, (ho.find?_eq_some_iff hk).1 hf⟩ hnot

/-- **Arrays are ordered finite maps.**  The value that a key stands for has that key; keys of values
are in a strict total order, truth values before integers before reals before texts, in which only a
key itself is equal to it.  While an array is not reclaimed, it holds its keys in this order, each
once and with the value that was written last, and its length, `HAS` and what is read from it go by
these entries. -/
theorem arrays_are_ordered_maps :
    (∀ v k, Key.ofValue v = .ok k → Key.ofValue k.toValue = .ok k) ∧
    IsStrictTotalOrder {k : Key // k.Canonical} (fun k k' => k.1.compare k'.1 = .lt) ∧
    (∀ k k' : Key, k.Canonical → k'.Canonical →
      (k.compare k' = .lt ↔ k.place < k'.place) ∧ (k.compare k' = .eq ↔ k = k')) ∧
    ∀ before after : List Operation, (∀ op ∈ after, op.Canonical) →
      let a := (run .empty before).allocate.2
      let h := (run .empty before).allocate.1
      reclaims h.index after a = 0 →
        ∃ es, (a.run after).IsMap h es ∧
          ∀ k v, k.Canonical → ((k, v) ∈ es ↔ lastWrite h k after = some v) := by
  refine ⟨fun v k => Key.ofValue_toValue, Key.isStrictTotalOrder, fun k k' hk hk' =>
    ⟨Key.compare_eq_lt_iff hk hk', Key.compare_eq_iff hk⟩, ?_⟩
  intro before after hafter a h hzero
  have hissued := (Issued.init (tidy_empty.run before)).run after
  rw [Nat.zero_add, hzero] at hissued
  obtain ⟨hordered, hfind⟩ := written_spec hafter h Entries.ordered_nil
  refine ⟨_, isMap hissued.entries?_of_zero hordered, fun k v hk => ?_⟩
  rw [← hordered.find?_eq_some_iff hk, hfind k hk]
  rfl

end Arena

end BasicScript
