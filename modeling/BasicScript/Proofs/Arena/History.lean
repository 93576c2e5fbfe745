/-
  References over the history of an arena.

  * `Arena.Operation` is what may be done to an arena, `Arena.run` a history of it.
  * `reclaims i ops a`: how often slot `i` loses its array in the history `ops` of `a`.
  * `written h ops`: the entries that the history writes through the reference `h`.
  * `Arena.Issued h n es a`: what the slot of `h` looks like after `n` such losses, with the entries
    `es` written through `h` (`Issued.init`, `Issued.step`, `Issued.run`).
  * `stale_references_never_alias`: a reference resolves to the array it was issued for, as long as
    that is not reclaimed, and to nothing from then on.
-/
import BasicScript.Proofs.Arena.FreeList
import BasicScript.Proofs.Machine.Steps

namespace BasicScript

namespace Arena

/-! ## Histories -/

/-- What may be done to an arena; entries are changed through references of any origin, and any
values may be roots. -/
inductive Operation where
  | allocate
  | write (h : Handle) (k : Key) (v : Value)
  | remove (h : Handle) (k : Key)
  | collect (roots : List Value)

/-- The arena after an operation. -/
def apply (a : Arena) : Operation → Arena
  | .allocate => a.allocate.2
  | .write h k v => a.modify h (·.insert k v)
  | .remove h k => a.modify h (·.erase k)
  | .collect roots => (a.collect roots).2

/-- The arena after a history. -/
def run (a : Arena) (ops : List Operation) : Arena := ops.foldl apply a

/-- Whether slot `i` holds an array. -/
def holds (a : Arena) (i : Nat) : Bool := (a.slots[i]?.bind (·.entries)).isSome

/-- Whether slot `i` loses its array by an operation. -/
def loses (a : Arena) (op : Operation) (i : Nat) : Bool := a.holds i && !(a.apply op).holds i

/-- How often slot `i` loses its array in a history. -/
def reclaims (i : Nat) : List Operation → Arena → Nat
  | [], _ => 0
  | op :: ops, a => (a.loses op i).toNat + reclaims i ops (a.apply op)

/-- The entries of the array of `h` after an operation, if it is only changed through `h`. -/
def writtenBy (h : Handle) (es : Entries) : Operation → Entries
  | .write k key v => if k = h then es.insert key v else es
  | .remove k key => if k = h then es.erase key else es
  | .allocate | .collect _ => es

/-- The entries that a history writes through `h`. -/
def written (h : Handle) (ops : List Operation) : Entries := ops.foldl (writtenBy h) []

theorem holds_modify (a : Arena) (h : Handle) (f : Entries → Entries) (i : Nat) :
    (a.modify h f).holds i = a.holds i := by
  rw [holds, holds, slots_modify]
  rcases a.slots[i]? with - | ⟨generation, entries⟩
  · rfl
  · by_cases hc : i = h.index ∧ generation = h.generation <;> simp [hc]

theorem Allocated.holds {a b : Arena} {h : Handle} (hb : a.Allocated h b) {i : Nat}
    (hi : a.holds i = true) : b.holds i = true := by
  by_cases hne : i = h.index
  · rw [hne, Arena.holds, hb.slot]
    rfl
  · rwa [Arena.holds, hb.others i hne]

theorem loses_eq_false {a : Arena} {op : Operation} {i : Nat}
    (hop : a.holds i = true → (a.apply op).holds i = true) : a.loses op i = false := by
  cases hi : a.holds i with
  | false => rw [loses, hi, Bool.false_and]
  | true => rw [loses, hop hi, Bool.not_true, Bool.and_false]

theorem Tidy.apply {a : Arena} (ha : a.Tidy) (op : Operation) : (a.apply op).Tidy := by
  cases op with
  | allocate => exact ha.allocate
  | write h k v => exact ha.modify h _
  | remove h k => exact ha.modify h _
  | collect roots => exact ha.collect roots

/-- Every arena that comes about by operations is tidy. -/
theorem Tidy.run {a : Arena} (ha : a.Tidy) (ops : List Operation) : (a.run ops).Tidy := by
  induction ops generalizing a with
  | nil => exact ha
  | cons op ops ih => exact ih (ha.apply op)

/-! ## The slot of a reference -/

/-- After its slot has lost `n` arrays, the generation of a reference is `n` behind, and with none
lost the slot holds the entries `es`. -/
structure Issued (h : Handle) (n : Nat) (es : Entries) (a : Arena) : Prop where
  tidy : a.Tidy
  slot : ∃ entries, a.slots[h.index]? = some ⟨h.generation + UInt32.ofNat n, entries⟩ ∧
    (n = 0 → entries = some es)

theorem Issued.init {a : Arena} (ha : a.Tidy) : Issued a.allocate.1 0 [] a.allocate.2 where
  tidy := ha.allocate
  slot := by
    have hzero : a.allocate.1.generation + UInt32.ofNat 0 = a.allocate.1.generation := by simp
    refine ⟨some [], ?_, fun _ => rfl⟩
    rw [hzero]
    exact ha.allocated.1.slot

section
variable {h : Handle} {n : Nat} {es : Entries} {a : Arena}

theorem Issued.allocate (ha : Issued h n es a) : Issued h n es a.allocate.2 := by
  refine ⟨ha.tidy.allocate, ?_⟩
  have hb := ha.tidy.allocated.1
  obtain ⟨entries, hs, hzero⟩ := ha.slot
  by_cases hi : h.index = a.allocate.1.index
  · -- the slot is used again: it was empty, so that `h` is stale already
    rw [hi] at hs ⊢
    have hnone : entries = none := by
      cases entries with
      | none => rfl
      | some es => exact absurd hs hb.not_holds
    have hgeneration : a.allocate.1.generation = h.generation + UInt32.ofNat n := by
      rcases hb.vacant with hv | ⟨hsize, -⟩
      · exact (congrArg Slot.generation (Option.some.inj (hs.symm.trans hv))).symm
      · have hlt := (Array.getElem?_eq_some_iff.1 hs).1
        omega
    refine ⟨some [], hgeneration ▸ hb.slot, fun hn => ?_⟩
    cases hnone.symm.trans (hzero hn)
  · exact ⟨entries, (hb.others _ hi).trans hs, hzero⟩

/-- A change through `k` shows in the array of `h` if `k` is `h`. -/
theorem Issued.modify (ha : Issued h n es a) (k : Handle) (f : Entries → Entries) :
    Issued h n (if k = h then f es else es) (a.modify k f) := by
  refine ⟨ha.tidy.modify k f, ?_⟩
  obtain ⟨entries, hs, hzero⟩ := ha.slot
  rw [slots_modify, hs, Option.map_some]
  by_cases hc : h.index = k.index ∧ h.generation + UInt32.ofNat n = k.generation
  · rw [if_pos hc]
    refine ⟨entries.map f, rfl, fun hn => ?_⟩
    have hk : k = h := by
      subst hn
      refine Handle.ext hc.1.symm ?_
      rw [← hc.2]
      simp
    rw [hzero hn, if_pos hk, Option.map_some]
  · rw [if_neg hc]
    refine ⟨entries, rfl, fun hn => ?_⟩
    have hk : k ≠ h := by
      rintro rfl
      exact hc ⟨rfl, by simp [hn]⟩
    rw [hzero hn, if_neg hk]

/-- A collection that reclaims the array of the slot makes it one generation older. -/
theorem Issued.collect (ha : Issued h n es a) (roots : List Value) :
    Issued h (n + (a.loses (.collect roots) h.index).toNat) es (a.collect roots).2 := by
  refine ⟨ha.tidy.collect roots, ?_⟩
  have hc := collected_collect a roots
  obtain ⟨entries, hs, hzero⟩ := ha.slot
  by_cases hlost : a.Lost roots h.index
  · have hempty := hc.lost _ _ hs hlost
    have hsome : entries.isSome = true := by
      obtain ⟨s, hs', hsome, -⟩ := hlost
      obtain rfl : s = ⟨h.generation + UInt32.ofNat n, entries⟩ := Option.some.inj (hs'.symm.trans hs)
      exact hsome
    have hloses : a.loses (.collect roots) h.index = true := by
      simp [loses, apply, holds, hs, hempty, hsome]
    rw [hloses]
    refine ⟨none, ?_, fun hn => absurd hn (Nat.succ_ne_zero n)⟩
    rw [hempty, Bool.toNat_true, UInt32.ofNat_add, UInt32.add_assoc]
    rfl
  · have hsame := hc.kept _ hlost
    have hloses : a.loses (.collect roots) h.index = false :=
      loses_eq_false fun hi => by rwa [apply, holds, hsame]
    rw [hloses]
    exact ⟨entries, hsame.trans hs, hzero⟩

/-- One operation: the count goes up if the slot loses its array. -/
theorem Issued.step (ha : Issued h n es a) (op : Operation) :
    Issued h (n + (a.loses op h.index).toNat) (writtenBy h es op) (a.apply op) := by
  cases op with
  | allocate =>
    have hkept : a.loses .allocate h.index = false :=
      loses_eq_false fun hi => ha.tidy.allocated.1.holds hi
    rw [hkept]
    exact ha.allocate
  | write k key v =>
    have hkept : a.loses (.write k key v) h.index = false :=
      loses_eq_false fun hi => (holds_modify a k _ _).trans hi
    rw [hkept]
    exact ha.modify k _
  | remove k key =>
    have hkept : a.loses (.remove k key) h.index = false :=
      loses_eq_false fun hi => (holds_modify a k _ _).trans hi
    rw [hkept]
    exact ha.modify k _
  | collect roots => exact ha.collect roots

theorem Issued.run (ops : List Operation) (ha : Issued h n es a) :
    Issued h (n + reclaims h.index ops a) (ops.foldl (writtenBy h) es) (a.run ops) := by
  induction ops generalizing n es a with
  | nil => exact ha
  | cons op ops ih =>
    rw [reclaims, ← Nat.add_assoc]
    exact ih (ha.step op)

/-- Generations come back only after `UInt32.size` of them. -/
theorem add_ofNat_ne {generation : UInt32} (hpos : 0 < n) (hlt : n < UInt32.size) :
    generation + UInt32.ofNat n ≠ generation := by
  intro heq
  have hzero : UInt32.ofNat n = 0 := by simpa using heq
  have htoNat := congrArg UInt32.toNat hzero
  rw [UInt32.toNat_ofNat', Nat.mod_eq_of_lt hlt] at htoNat
  simp at htoNat
  omega

theorem Issued.entries?_of_zero (ha : Issued h 0 es a) : a.entries? h = some es := by
  obtain ⟨entries, hs, hzero⟩ := ha.slot
  simp [entries?, hs, hzero]

theorem Issued.entries?_of_pos (ha : Issued h n es a) (hpos : 0 < n) (hlt : n < UInt32.size) :
    a.entries? h = none := by
  obtain ⟨entries, hs, -⟩ := ha.slot
  rw [entries?, hs]
  exact if_neg (add_ofNat_ne hpos hlt)

end

/-- **References never alias.**  A reference that an allocation gives resolves to the array with the
entries that are written through it, until its slot loses that array; from then on it resolves to
nothing and cannot be written through, whatever the slot is used for, while fewer than `2 ^ 32`
arrays of the slot are reclaimed. -/
theorem stale_references_never_alias (before after : List Operation) :
    let a := (run .empty before).allocate.2
    let h := (run .empty before).allocate.1
    let b := a.run after
    let lost := reclaims h.index after a
    (lost = 0 → b.entries? h = some (written h after) ∧
      ∀ (σ : Type) (ctx : Context σ) line f, ctx.arrays = b →
        Machine.modifyEntries h line f ctx = .ok () { ctx with arrays := b.modify h f }) ∧
    (0 < lost → lost < UInt32.size → b.entries? h = none ∧
      (∀ (σ : Type) (ctx : Context σ) line f, ctx.arrays = b →
        Machine.modifyEntries h line f ctx = .error (.raised ⟨.type (.notAlive h), line⟩) ctx) ∧
      (∀ k, b.lookup h k = .empty) ∧ (∀ k, b.containsKey h k = false) ∧ b.length h = 0) := by
  intro a h b lost
  have hissued : Issued h (0 + lost) (written h after) b :=
    (Issued.init (tidy_empty.run before)).run after
  rw [Nat.zero_add] at hissued
  refine ⟨fun hzero => ?_, fun hpos hlt => ?_⟩
  · have hes := (hzero ▸ hissued).entries?_of_zero
    refine ⟨hes, fun σ ctx line f hctx => ?_⟩
    have hlive : ctx.arrays.isLive h = true := hctx ▸ isLive_of_entries? hes
    rw [Machine.modifyEntries_eq, if_pos hlive, hctx]
  · have hes := hissued.entries?_of_pos hpos hlt
    refine ⟨hes, fun σ ctx line f hctx => ?_, ?_⟩
    · have hdead : ¬ ctx.arrays.isLive h = true := by
        rw [hctx, isLive, hes]
        exact Bool.false_ne_true
      rw [Machine.modifyEntries_eq, if_neg hdead]
    · simp [lookup, containsKey, length, hes]

end Arena

end BasicScript
