/-
  The arena: the arrays of a script, in slots that are used again.

  A slot carries a generation, which advances whenever its array is reclaimed; a reference is good
  only for the generation it was issued for, so it never leads to a later array of the slot.

  * `allocate` gives a new empty array, in the slot freed last if there is one.
  * `entries?` are the entries behind a reference, if its array is alive; `lookup`, `containsKey`
    and `length` read them, `modify` changes them.
-/
import BasicScript.Arena.Entries

namespace BasicScript

/-- A slot: its generation and the entries of its array, if it holds one. -/
structure Slot where
  generation : UInt32
  entries : Option Entries
  deriving DecidableEq

/-- The slot after its array is reclaimed: empty, and one generation on. -/
def Slot.reclaimed (s : Slot) : Slot := ⟨s.generation + 1, none⟩

/-- The slots, and the indices of the free ones, the next to be used first. -/
structure Arena where
  slots : Array Slot
  free : List Nat
  deriving DecidableEq

namespace Arena

/-- The arena without any slot. -/
def empty : Arena := ⟨#[], []⟩

/-- A further slot with an empty array. -/
def extend (a : Arena) (free : List Nat) : Handle × Arena :=
  (⟨a.slots.size, 0⟩, ⟨a.slots.push ⟨0, some []⟩, free⟩)

/-- A new empty array. -/
def allocate (a : Arena) : Handle × Arena :=
  match a.free with
  | [] => a.extend []
  | i :: free =>
    match a.slots[i]? with
    | some slot =>
      (⟨i, slot.generation⟩, ⟨a.slots.setIfInBounds i { slot with entries := some [] }, free⟩)
    | none => a.extend free

/-- The entries behind a reference, if its array is alive. -/
def entries? (a : Arena) (h : Handle) : Option Entries :=
  match a.slots[h.index]? with
  | some slot => if slot.generation = h.generation then slot.entries else none
  | none => none

/-- Whether the array of a reference is alive. -/
def isLive (a : Arena) (h : Handle) : Bool := (a.entries? h).isSome

/-- Changes the entries behind a reference, if its array is alive. -/
def modify (a : Arena) (h : Handle) (f : Entries → Entries) : Arena :=
  { a with slots := a.slots.modify h.index fun slot =>
      if slot.generation = h.generation then { slot with entries := slot.entries.map f }
      else slot }

/-- A change shows in the entries behind the reference. -/
theorem entries?_modify_self (a : Arena) (h : Handle) (f : Entries → Entries) :
    (a.modify h f).entries? h = (a.entries? h).map f := by
  simp only [entries?, modify, Array.getElem?_modify, if_true]
  cases a.slots[h.index]? with
  | none => rfl
  | some slot => by_cases hg : slot.generation = h.generation <;> simp [hg]

/-- A change leaves the arrays in other slots as they are. -/
theorem entries?_modify_of_ne (a : Arena) {h k : Handle} (f : Entries → Entries)
    (hk : k.index ≠ h.index) : (a.modify h f).entries? k = a.entries? k := by
  simp [entries?, modify, Array.getElem?_modify, hk.symm]

/-- The value of a key, `empty` if there is none or the array is not alive. -/
def lookup (a : Arena) (h : Handle) (k : Key) : Value :=
  ((a.entries? h).bind (·.find? k)).getD .empty

/-- Whether the array holds the key. -/
def containsKey (a : Arena) (h : Handle) (k : Key) : Bool :=
  ((a.entries? h).bind (·.find? k)).isSome

/-- The number of entries, `0` if the array is not alive. -/
def length (a : Arena) (h : Handle) : Nat := ((a.entries? h).map List.length).getD 0

/-- The number of arrays that are alive. -/
def liveCount (a : Arena) : Nat := a.slots.countP (·.entries.isSome)

end Arena

end BasicScript
