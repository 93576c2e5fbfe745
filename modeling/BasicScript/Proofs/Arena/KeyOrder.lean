/-
  The order of keys, and entries in that order.

  * `Key.ofValue_toValue`: the value that a key stands for has that key.
  * `Binary64.place`, `Key.place`: where a number lies, and where a key comes: in a linear order that
    is put together from those of the four kinds.
  * `Key.compare_eq_lt_iff`: of the keys of values, `compare` puts first what comes first;
    `isStrictTotalOrder`: so it is a strict total order on them.
  * `Entries.Ordered es`: each key is that of a value and comes before those after it;
    `Ordered.insert`, `Ordered.erase`: the operations keep it so.
  * `Entries.Ordered.find?_eq_some_iff`: a key leads to the value that it stands with.
-/
import BasicScript.Proofs.Arena.Keys
import BasicScript.Proofs.Value.Numbers
import Mathlib.Data.Int.ConditionallyCompleteOrder
import Mathlib.Data.Sum.Order
import Mathlib.Order.ConditionallyCompleteLattice.Basic
import Mathlib.Order.WithBot
import Mathlib.Data.String.Basic

namespace BasicScript

/-! ## The order of numbers -/

namespace Binary64

variable {x y : Binary64}

/-- Where a number lies: a finite one at its exact value, between the infinities. -/
def place : Binary64 → WithBot (WithTop Int)
  | infinite true => ⊥
  | finite negative mantissa shift _ => ((signed negative (size mantissa shift) : WithTop Int))
  | infinite false | nan => ((⊤ : WithTop Int))

/-- The numeric order is that of the places. -/
theorem compare?_eq_lt_iff (hx : x.isNaN = false) (hy : y.isNaN = false) :
    x.compare? y = some .lt ↔ x.place < y.place := by
  cases x with
  | nan => cases hx
  | infinite a =>
    cases y with
    | nan => cases hy
    | infinite b => cases a <;> cases b <;> simp [compare?, place]
    | finite b n t hn => cases a <;> simp [compare?, place, WithBot.bot_lt_coe]
  | finite a m s hm =>
    cases y with
    | nan => cases hy
    | infinite b =>
      cases b
      · exact iff_of_true rfl (WithBot.coe_lt_coe.2 (WithTop.coe_lt_top _))
      · simp [compare?, place]
    | finite b n t hn => simp [compare?, place, Int.compare_eq_lt]

end Binary64

/-! ## The order of keys -/

namespace Key

variable {k k' k'' : Key} {v : Value}

/-- The value that a key stands for has that key. -/
theorem ofValue_toValue (h : ofValue v = .ok k) : ofValue k.toValue = .ok k := by
  cases k with
  | real x =>
    obtain ⟨hnan, hint⟩ := Canonical.real ⟨v, h⟩
    simp [toValue, ofValue, hnan, hint]
  | _ => rfl

/-- Where a key comes: truth values first, then integers, then reals, then texts. -/
def place : Key → Bool ⊕ₗ (Int ⊕ₗ (WithBot (WithTop Int) ⊕ₗ String))
  | bool b => .inlₗ b
  | integer n => .inrₗ (.inlₗ n.toInt)
  | real x => .inrₗ (.inrₗ (.inlₗ x.place))
  | text s => .inrₗ (.inrₗ (.inrₗ s))

theorem compareReal_eq_lt_iff {x y : Binary64} (hx : x.isNaN = false) (hy : y.isNaN = false) :
    compareReal x y = .lt ↔ x.compare? y = some .lt := by
  cases x <;> cases y <;> simp_all [compareReal, Binary64.compare?, Binary64.isNaN]

/-- Of the keys of values, the one that comes first is put first. -/
theorem compare_eq_lt_iff (hk : k.Canonical) (hk' : k'.Canonical) :
    k.compare k' = .lt ↔ k.place < k'.place := by
  cases k <;> cases k'
  case bool.bool a b => cases a <;> cases b <;> simp [compare, place] <;> decide
  case integer.integer m n => simp [compare, place, Int.compare_eq_lt]
  case real.real x y =>
    have hreal := compareReal_eq_lt_iff hk.real.1 hk'.real.1
    rw [Binary64.compare?_eq_lt_iff hk.real.1 hk'.real.1] at hreal
    simpa [compare, place] using hreal
  case text.text s t =>
    have htext : Ord.compare s t = .lt ↔ s < t := compareOfLessAndEq_eq_lt
    simpa [compare, place] using htext
  all_goals simp [compare, place, rank, Nat.compare_eq_lt]

/-- Compared the other way round, keys come out the other way round. -/
theorem compare_swap (k k' : Key) : k'.compare k = (k.compare k').swap := by
  cases k <;> cases k'
  case real.real x y =>
    rw [compare, compare, compareReal, compareReal, Binary64.compare?_swap x y]
    cases x.compare? y with
    | none => exact (Nat.compare_swap _ _).symm
    | some o => rfl
  case text.text s t => exact Std.OrientedOrd.eq_swap
  case integer.integer m n => exact (Int.compare_swap _ _).symm
  all_goals exact (Nat.compare_swap _ _).symm

theorem compare_eq_gt_iff : k.compare k' = .gt ↔ k'.compare k = .lt := by
  rw [compare_swap k k']
  cases k.compare k' <;> simp

theorem compare_trans (hk : k.Canonical) (hk' : k'.Canonical) (hk'' : k''.Canonical)
    (h : k.compare k' = .lt) (h' : k'.compare k'' = .lt) : k.compare k'' = .lt := by
  rw [compare_eq_lt_iff hk hk'] at h
  rw [compare_eq_lt_iff hk' hk''] at h'
  exact (compare_eq_lt_iff hk hk'').2 (h.trans h')

/-- The keys of values are in a strict total order. -/
theorem isStrictTotalOrder :
    IsStrictTotalOrder {k : Key // k.Canonical} fun k k' => k.1.compare k'.1 = .lt where
  trichotomous k k' hlt hgt := by
    refine Subtype.ext ((compare_eq_iff k.2).1 ?_)
    cases hc : k.1.compare k'.1 with
    | eq => rfl
    | lt => exact absurd hc hlt
    | gt => exact absurd (compare_eq_gt_iff.1 hc) hgt
  irrefl k := by
    rw [compare_self]
    exact nofun
  trans k k' k'' h h' := compare_trans k.2 k'.2 k''.2 h h'

end Key

/-! ## Entries in the order of their keys -/

namespace Entries

variable {es : Entries} {e : Key × Value} {k : Key} {v : Value}

/-- Each key is that of a value, and comes before those after it. -/
structure Ordered (es : Entries) : Prop where
  canonical : ∀ e ∈ es, e.1.Canonical
  ascending : es.Pairwise fun e e' => e.1.compare e'.1 = .lt

theorem ordered_nil : Ordered [] := ⟨nofun, .nil⟩

theorem ordered_cons_iff :
    Ordered (e :: es) ↔ e.1.Canonical ∧ (∀ e' ∈ es, e.1.compare e'.1 = .lt) ∧ es.Ordered := by
  constructor
  · intro h
    obtain ⟨hlt, hes⟩ := List.pairwise_cons.1 h.ascending
    obtain ⟨hk, hcan⟩ := List.forall_mem_cons.1 h.canonical
    exact ⟨hk, hlt, hcan, hes⟩
  · rintro ⟨hk, hlt, hcan, hes⟩
    exact ⟨List.forall_mem_cons.2 ⟨hk, hcan⟩, List.pairwise_cons.2 ⟨hlt, hes⟩⟩

/-- Only the entry that is set is new. -/
theorem eq_or_mem_of_mem_insert {e' : Key × Value} (hk : k.Canonical) (h : e' ∈ es.insert k v) :
    e'.1 = k ∨ e' ∈ es := by
  induction es with
  | nil =>
    rw [insert, List.mem_singleton] at h
    exact .inl (congrArg Prod.fst h)
  | cons e es ih =>
    rw [insert] at h
    split at h
    · rcases List.mem_cons.1 h with rfl | h
      · exact .inl rfl
      · exact .inr h
    · next heq =>
      rcases List.mem_cons.1 h with rfl | h
      · exact .inl ((Key.compare_eq_iff hk).1 heq).symm
      · exact .inr (List.mem_cons_of_mem _ h)
    · rcases List.mem_cons.1 h with rfl | h
      · exact .inr List.mem_cons_self
      · exact (ih h).imp_right (List.mem_cons_of_mem _)

theorem Ordered.insert (h : es.Ordered) (hk : k.Canonical) (v : Value) :
    Ordered (es.insert k v) := by
  induction es with
  | nil => exact ordered_cons_iff.2 ⟨hk, nofun, ordered_nil⟩
  | cons e es ih =>
    obtain ⟨he, hlt, hes⟩ := ordered_cons_iff.1 h
    rw [Entries.insert]
    split
    · next hke =>
      refine ordered_cons_iff.2 ⟨hk, fun e' he' => ?_, h⟩
      rcases List.mem_cons.1 he' with rfl | he'
      · exact hke
      · exact Key.compare_trans hk he (hes.canonical _ he') hke (hlt _ he')
    · exact ordered_cons_iff.2 ⟨he, hlt, hes⟩
    · next hke =>
      refine ordered_cons_iff.2 ⟨he, fun e' he' => ?_, ih hes⟩
      rcases eq_or_mem_of_mem_insert hk he' with rfl | he'
      · exact Key.compare_eq_gt_iff.1 hke
      · exact hlt _ he'

theorem Ordered.erase (h : es.Ordered) (k : Key) : Ordered (es.erase k) where
  canonical e he := h.canonical e (List.mem_of_mem_filter he)
  ascending := h.ascending.filter _

/-- A key leads to the value that it stands with. -/
theorem Ordered.find?_eq_some_iff (h : es.Ordered) (hk : k.Canonical) :
    es.find? k = some v ↔ (k, v) ∈ es := by
  induction es with
  | nil => exact ⟨nofun, nofun⟩
  | cons e es ih =>
    obtain ⟨he, hlt, hes⟩ := ordered_cons_iff.1 h
    rw [find?_cons, if_congr (Key.compare_eq_iff hk) rfl rfl, List.mem_cons]
    by_cases hke : k = e.1
    · -- the keys behind come after `k`
      have hnot : (k, v) ∉ es := fun hmem => by
        have hself := hlt _ hmem
        rw [← hke, Key.compare_self] at hself
        cases hself
      rw [if_pos hke, or_iff_left hnot, Option.some.injEq, Prod.ext_iff]
      exact ⟨fun hv => ⟨hke, hv.symm⟩, fun hv => hv.2.symm⟩
    · have hne : (k, v) ≠ e := fun heq => hke (congrArg Prod.fst heq)
      rw [if_neg hke, ih hes, or_iff_right hne]

end Entries

end BasicScript
