/-
  The text of a value with its arrays written out.

  * `Rendering` is a text in the making: the arrays that are open, and what is written so far.
  * `renderInto v r` writes a value, an array as its entries in key order; while they are written the
    array is open, and met again it is written as an ellipsis.  `RenderingIn visiting` says in its
    type that afterwards the arrays are open that were so before.
  * `unopened visiting` counts the live arrays that are not open; each array that is opened makes
    them fewer (`unopened_cons_lt`), which bounds the recursion.
  * `render` starts with no array open.
-/
import BasicScript.Arena.Basic

namespace BasicScript

namespace Arena

/-- What is written for an array inside itself. -/
def ellipsis : String := "\x7b...\x7d"

/-- A text in the making: the arrays whose entries are being written, and the text so far. -/
structure Rendering where
  visiting : List Handle
  text : String
  deriving DecidableEq

/-! ## Arrays that are not open -/

/-- The number of live arrays that are not open. -/
def unopened (a : Arena) (visiting : List Handle) : Nat :=
  (List.range a.slots.size).countP fun i =>
    (a.slots[i]?).any fun s => s.entries.isSome && !visiting.contains ⟨i, s.generation⟩

/-- More elements have a weaker property, if one that has it lacks the stronger one. -/
theorem countP_lt_countP {α : Type} {p q : α → Bool} {l : List α} {x : α}
    (hpq : ∀ x, p x = true → q x = true) (hx : x ∈ l) (hp : p x = false) (hq : q x = true) :
    l.countP p < l.countP q := by
  have hfilter : l.countP p = ((l.filter q).filter p).length := by
    rw [List.filter_filter, List.countP_eq_length_filter]
    congr 2
    funext x
    have hx := hpq x
    cases hp : p x <;> simp_all
  rw [hfilter, List.countP_eq_length_filter]
  exact List.length_filter_lt_length_iff_exists.2 ⟨x, List.mem_filter.2 ⟨hx, hq⟩, by simp [hp]⟩

/-- Opening a live array leaves fewer of them. -/
theorem unopened_cons_lt {a : Arena} {h : Handle} {es : Entries} {visiting : List Handle}
    (hes : a.entries? h = some es) (hh : h ∉ visiting) :
    a.unopened (h :: visiting) < a.unopened visiting := by
  have hslot : a.slots[h.index]? = some ⟨h.generation, some es⟩ := by
    unfold entries? at hes
    split at hes
    · next s hs =>
      split at hes
      · next hg => rw [hs, ← hg, ← hes]
      · cases hes
    · cases hes
  refine countP_lt_countP (x := h.index) (fun i hi => ?_) ?_ ?_ ?_
  · simp only [Option.any_eq_true] at hi ⊢
    obtain ⟨s, hs, hi⟩ := hi
    refine ⟨s, hs, ?_⟩
    simp at hi ⊢
    exact ⟨hi.1, hi.2.2⟩
  · exact List.mem_range.2 (Array.getElem?_eq_some_iff.1 hslot).1
  · simp [hslot]
  · simp [hslot, hh]

/-! ## Writing -/

/-- A text in the making, with the arrays of `visiting` open. -/
abbrev RenderingIn (visiting : List Handle) := { r : Rendering // r.visiting = visiting }

namespace RenderingIn

variable {visiting : List Handle}

/-- Writes a text. -/
def put (r : RenderingIn visiting) (s : String) : RenderingIn visiting :=
  ⟨{ r.1 with text := r.1.text ++ s }, r.2⟩

/-- Opens an array. -/
def enter (r : RenderingIn visiting) (h : Handle) : RenderingIn (h :: visiting) :=
  ⟨⟨h :: r.1.visiting, r.1.text ++ "\x7b"⟩, congrArg (h :: ·) r.2⟩

/-- Closes the array that was opened last. -/
def leave {h : Handle} (r : RenderingIn (h :: visiting)) : RenderingIn visiting :=
  ⟨⟨r.1.visiting.erase h, r.1.text ++ "\x7d"⟩, by rw [r.2, List.erase_cons_head]⟩

end RenderingIn

/-- Writes entries whose values are written by `write`, the first of them without a comma. -/
def renderItems {visiting : List Handle}
    (write : Value → RenderingIn visiting → RenderingIn visiting) (first : Bool) :
    Entries → RenderingIn visiting → RenderingIn visiting
  | [], r => r
  | e :: es, r =>
    renderItems write false es
      (write e.2 (r.put ((if first then "" else ", ") ++ e.1.toText ++ ": ")))

/-- Writes a value; at most `n` live arrays are not open. -/
def renderInto (a : Arena) (n : Nat) {visiting : List Handle} (hn : a.unopened visiting ≤ n)
    (v : Value) (r : RenderingIn visiting) : RenderingIn visiting :=
  match v with
  | .array h =>
    match hes : a.entries? h with
    | none => r.put h.text
    | some es =>
      if hh : h ∈ r.1.visiting then r.put ellipsis
      else
        have hlt := unopened_cons_lt hes (r.2 ▸ hh)
        match n, hn with
        | 0, hn => absurd hlt (by omega)
        | n + 1, hn => (renderItems (a.renderInto n (by omega)) true es (r.enter h)).leave
  | .empty | .integer _ | .real _ | .bool _ | .text _ => r.put v.toText

/-- The text of a value with its arrays written out. -/
def render (a : Arena) (v : Value) : String :=
  (a.renderInto (a.unopened []) (Nat.le_refl _) v ⟨⟨[], ""⟩, rfl⟩).1.text

end Arena

end BasicScript
