/-
  Reclaiming the arrays that nothing refers to.

  * `mark` finds the slots of the arrays that references lead to, directly or through the entries of
    other arrays.
  * `collect` empties every other slot that holds an array, advances its generation and makes it
    free.
-/
import BasicScript.Arena.Basic

namespace BasicScript

namespace Arena

/-- A further mark leaves fewer slots without one. -/
theorem count_false_lt {marked : Array Bool} {i : Nat} (h : marked[i]? = some false) :
    (marked.setIfInBounds i true).count false < marked.count false := by
  obtain ⟨hi, hf⟩ := Array.getElem?_eq_some_iff.1 h
  have hpos : 0 < marked.count false :=
    Array.count_pos_iff.2 (hf ▸ Array.getElem_mem hi)
  rw [Array.setIfInBounds, dif_pos hi, Array.count_set]
  simp only [hf, beq_self_eq_true, if_true]
  simp only [Bool.true_eq_false, beq_iff_eq, if_false]
  omega

/-- The marks of slots, with those that the pending references lead to added. -/
def mark (a : Arena) (marked : Array Bool) : List Handle → Array Bool
  | [] => marked
  | h :: pending =>
    match a.entries? h with
    | none => mark a marked pending
    | some es =>
      if marked[h.index]? = some false then
        mark a (marked.setIfInBounds h.index true) (es.handles ++ pending)
      else mark a marked pending
termination_by pending => (marked.count false, pending.length)
decreasing_by
  · exact Prod.Lex.right _ (Nat.lt_succ_self _)
  · next hm => exact Prod.Lex.left _ _ (count_false_lt hm)
  · exact Prod.Lex.right _ (Nat.lt_succ_self _)

/-- The marks of the slots of all arrays that values lead to. -/
def reached (a : Arena) (roots : List Value) : Array Bool :=
  a.mark (Array.replicate a.slots.size false) (roots.filterMap (·.handle?))

/-- The indices of the slots whose array is not marked, ascending. -/
def unmarked (a : Arena) (marked : Array Bool) : List Nat :=
  (List.range a.slots.size).filter fun i =>
    (a.slots[i]?.bind (·.entries)).isSome && marked[i]? != some true

/-- Reclaims every array that the roots do not lead to; the number of them comes with the arena. -/
def collect (a : Arena) (roots : List Value) : Nat × Arena :=
  let marked := a.reached roots
  let dead := a.unmarked marked
  (dead.length,
    { slots := a.slots.mapIdx fun i s =>
        if s.entries.isSome && marked[i]? != some true then s.reclaimed else s
      free := dead.reverse ++ a.free })

end Arena

end BasicScript
