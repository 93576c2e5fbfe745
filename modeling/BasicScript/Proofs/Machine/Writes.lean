/-
  Writing variables and entries never fails, if the free list of the arena is in order.

  * `Context.arrayOf c name`: the live array that a variable holds and the context, or a new array
    and the context in which the variable holds it.
  * `Stored name keys v c c'`: what an assignment to `name` behind these keys makes of the context.
  * `store_ok`, `clear_ok`: assignments and `DIM` succeed, since every array that they write to is
    alive: it was found alive, or it is new.
-/
import BasicScript.Proofs.Arena.Paths

namespace BasicScript

variable {σ : Type} {c c' : Context σ} {name : String} {v : Value}

namespace Context

/-- The value of a variable, `empty` if it is not set. -/
def valueOf (c : Context σ) (name : String) : Value := (c.findVariable? name).getD .empty

/-- The live array that a variable holds, which is a new one if there is none. -/
def arrayOf (c : Context σ) (name : String) : Handle × Context σ :=
  match c.arrays.array? (c.valueOf name) with
  | some h => (h, c)
  | none =>
    (c.arrays.allocate.1,
      { c.setVariable name (.array c.arrays.allocate.1) with arrays := c.arrays.allocate.2 })

theorem arrayOf_of_some {h : Handle} (hx : c.arrays.array? (c.valueOf name) = some h) :
    c.arrayOf name = (h, c) := by
  rw [arrayOf, hx]

theorem arrayOf_of_none (hx : c.arrays.array? (c.valueOf name) = none) :
    c.arrayOf name = (c.arrays.allocate.1,
      { c.setVariable name (.array c.arrays.allocate.1) with arrays := c.arrays.allocate.2 }) := by
  rw [arrayOf, hx]

theorem tidy_arrayOf (hc : c.arrays.Tidy) (name : String) : (c.arrayOf name).2.arrays.Tidy := by
  cases hx : c.arrays.array? (c.valueOf name) with
  | some h =>
    rw [arrayOf_of_some hx]
    exact hc
  | none =>
    rw [arrayOf_of_none hx]
    exact hc.allocate

theorem live_arrayOf (hc : c.arrays.Tidy) (name : String) :
    (c.arrayOf name).2.arrays.Live (c.arrayOf name).1 := by
  cases hx : c.arrays.array? (c.valueOf name) with
  | some h =>
    rw [arrayOf_of_some hx]
    exact (Arena.array?_eq_some_iff.1 hx).2
  | none =>
    rw [arrayOf_of_none hx]
    exact hc.allocated.1.live_iff.2 (.inl rfl)

end Context

namespace Machine

/-- What an assignment to a variable, or to what keys lead to from it, makes of the context. -/
inductive Stored (name : String) (v : Value) (c : Context σ) : List Key → Context σ → Prop
  | plain : Stored name v c [] (c.setVariable name v)
  | entry {k : Key} {keys : List Key} {slots : List (Handle × Key)} {b : Arena} :
      (c.arrayOf name).2.arrays.Stores v (c.arrayOf name).1 k keys slots b →
      Stored name v c (k :: keys) { (c.arrayOf name).2 with arrays := b }

theorem readVariable_eq (name : String) (c : Context σ) :
    readVariable name c = .ok (c.valueOf name) c :=
  rfl

theorem liveArray?_eq (x : Value) (c : Context σ) : liveArray? x c = .ok (c.arrays.array? x) c :=
  rfl

theorem allocate_eq (c : Context σ) :
    allocate c = .ok c.arrays.allocate.1 { c with arrays := c.arrays.allocate.2 } :=
  rfl

theorem variableArray_eq (name : String) (c : Context σ) :
    variableArray name c = .ok (c.arrayOf name).1 (c.arrayOf name).2 := by
  rw [variableArray, bind_of_ok (readVariable_eq name c), bind_of_ok (liveArray?_eq _ c)]
  cases hx : c.arrays.array? (c.valueOf name) with
  | some h =>
    rw [Context.arrayOf_of_some hx]
    rfl
  | none =>
    rw [Context.arrayOf_of_none hx]
    rfl

theorem modifyEntries_of_live {h : Handle} (hl : c.arrays.Live h) (line : Nat)
    (f : Entries → Entries) :
    modifyEntries h line f c = .ok () { c with arrays := c.arrays.modify h f } :=
  (modifyEntries_eq h line f c).trans (if_pos hl)

/-- The live array in an entry of a live array, or a new one that is put there. -/
theorem entryArray_eq {h : Handle} (hc : c.arrays.Tidy) (hl : c.arrays.Live h) (key : Key)
    (line : Nat) :
    entryArray h key line c = match c.arrays.array? (c.arrays.lookup h key) with
      | some i => .ok i c
      | none => .ok c.arrays.allocate.1 { c with
          arrays := c.arrays.allocate.2.modify h (·.insert key (.array c.arrays.allocate.1)) } := by
  rw [entryArray, bind_of_ok (m := get) rfl, bind_of_ok (liveArray?_eq _ c)]
  cases hx : c.arrays.array? (c.arrays.lookup h key) with
  | some i => rfl
  | none =>
    have hlive : c.arrays.allocate.2.Live h := hc.allocated.1.live_iff.2 (.inr hl)
    have hmodify := modifyEntries_of_live (c := { c with arrays := c.arrays.allocate.2 }) hlive line
      (·.insert key (.array c.arrays.allocate.1))
    dsimp only
    rw [bind_of_ok (allocate_eq c), bind_of_ok hmodify]
    rfl

theorem storeAt_ok (v : Value) (line : Nat) (keys : List Key) {h : Handle} (key : Key)
    (hc : c.arrays.Tidy) (hl : c.arrays.Live h) : ∃ slots b,
      c.arrays.Stores v h key keys slots b ∧
      storeAt v line h key keys c = .ok () { c with arrays := b } := by
  induction keys generalizing c h key with
  | nil => exact ⟨_, _, .last, modifyEntries_of_live hl line _⟩
  | cons k keys ih =>
    have hentry := entryArray_eq hc hl key line
    cases hx : c.arrays.array? (c.arrays.lookup h key) with
    | some i =>
      rw [hx] at hentry
      obtain ⟨slots, b, hstores, hok⟩ := ih k hc (Arena.array?_eq_some_iff.1 hx).2
      exact ⟨_, b, .through hx hstores, (bind_of_ok hentry).trans hok⟩
    | none =>
      rw [hx] at hentry
      have hlive : (c.arrays.allocate.2.modify h
          (·.insert key (.array c.arrays.allocate.1))).Live c.arrays.allocate.1 := by
        rw [Arena.live_modify]
        exact hc.allocated.1.live_iff.2 (.inl rfl)
      obtain ⟨slots, b, hstores, hok⟩ := ih k
        (c := { c with
          arrays := c.arrays.allocate.2.modify h (·.insert key (.array c.arrays.allocate.1)) })
        (hc.allocate.modify h _) hlive
      exact ⟨_, b, .create hx hstores, (bind_of_ok hentry).trans hok⟩

/-- **An assignment succeeds** once its keys and its value are there. -/
theorem store_ok (hc : c.arrays.Tidy) (name : String) (keys : List Key) (v : Value) (line : Nat) :
    ∃ c', store name keys v line c = .ok () c' ∧ Stored name v c keys c' := by
  cases keys with
  | nil => exact ⟨_, rfl, .plain⟩
  | cons k keys =>
    obtain ⟨slots, b, hstores, hok⟩ := storeAt_ok v line keys k
      (Context.tidy_arrayOf hc name) (Context.live_arrayOf hc name)
    exact ⟨_, (bind_of_ok (variableArray_eq name c)).trans hok, .entry hstores⟩

/-- **A `DIM` succeeds** once its key is there. -/
theorem clear_ok (hc : c.arrays.Tidy) (name : String) (key : Option Key) (line : Nat) :
    clear name key line c = .ok () (match key with
      | none => { c.setVariable name (.array c.arrays.allocate.1) with
          arrays := c.arrays.allocate.2 }
      | some k => { (c.arrayOf name).2 with
          arrays := (c.arrayOf name).2.arrays.modify (c.arrayOf name).1 (·.erase k) }) := by
  cases key with
  | none => rfl
  | some k =>
    have hmodify := modifyEntries_of_live (Context.live_arrayOf hc name) line (·.erase k)
    rw [clear]
    exact (bind_of_ok (variableArray_eq name c)).trans hmodify

end Machine

end BasicScript
