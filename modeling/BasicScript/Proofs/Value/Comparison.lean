/-
  Equality and order of values.

  * `order_eq`: two values that are not both texts are ordered as the numbers they are worth.
  * `looseEq_comm`: equality is symmetric.
  * `order_swap`: ordered the other way round, values come out the other way round.
  * `EmptyBesideZero a b`: one of the values is `empty` and the other a text that reads as zero.
    `looseEq_iff_order`: this is the only way in which values are ordered as equal without being so.
  * `equality_and_order_consistent`: how the comparison operators fit together.
-/
import BasicScript.Proofs.Value.Numbers

namespace BasicScript

namespace Value

section
variable {a b : Value} {m n : Number} {o : Ordering}

/-! ## Order -/

/-- One of the values is no text. -/
def NotBothTexts (a b : Value) : Prop := a.isText = false ∨ b.isText = false

theorem order_eq (h : NotBothTexts a b) : order a b = toNumbers a b >>= fun
    | (.integer m, .integer n) => pure (compare m.toInt n.toInt)
    | (m, n) => match m.toReal.compare? n.toReal with
      | some o => pure o
      | none => throw (.type .unorderedNaN) := by
  unfold order
  split
  · simp [NotBothTexts, isText] at h
  · rfl

theorem order_of_numbers (h : NotBothTexts a b) (ha : a.toNumber = .ok m)
    (hb : b.toNumber = .ok n) : order a b =
      match m.compare? n with
      | some o => .ok o
      | none => .error (.type .unorderedNaN) := by
  have hpair : toNumbers a b = .ok (m.promote n) := by rw [toNumbers, ha, hb]; rfl
  rw [order_eq h, hpair]
  rcases Number.promote_cases m n with ⟨x, y, rfl, rfl⟩ | ⟨x, y, hreals⟩
  · rfl
  · rw [Number.compare?_of_promote hreals, hreals]
    change (match x.compare? y with
      | some o => _
      | none => _) = _
    cases x.compare? y <;> rfl

/-- What is ordered is two texts, or two values that are worth numbers, none of them `nan`. -/
theorem order_eq_ok_iff : order a b = .ok o ↔
    (∃ s t, a = .text s ∧ b = .text t ∧ compare s t = o) ∨
      (NotBothTexts a b ∧ ∃ m n, a.toNumber = .ok m ∧ b.toNumber = .ok n ∧
        m.compare? n = some o) := by
  by_cases h : NotBothTexts a b
  · have htexts : ¬ ∃ s t, a = .text s ∧ b = .text t ∧ compare s t = o := by
      rintro ⟨s, t, rfl, rfl, -⟩
      simp [NotBothTexts, isText] at h
    simp only [htexts, h, false_or, true_and]
    cases ha : a.toNumber with
    | error f =>
      rw [order_eq h, toNumbers, ha]
      simp [bind, Except.bind]
    | ok m =>
      cases hb : b.toNumber with
      | error f =>
        rw [order_eq h, toNumbers, ha, hb]
        simp [bind, Except.bind]
      | ok n =>
        rw [order_of_numbers h ha hb]
        cases ho : m.compare? n <;> simp [ho]
  · cases a <;> cases b <;> simp [NotBothTexts, isText] at h
    next s t => simp [order, NotBothTexts, isText]

theorem order_swap (h : order a b = .ok o) : order b a = .ok o.swap := by
  rw [order_eq_ok_iff] at h ⊢
  rcases h with ⟨s, t, rfl, rfl, rfl⟩ | ⟨htext, m, n, hm, hn, ho⟩
  · exact .inl ⟨t, s, rfl, rfl, Std.OrientedOrd.eq_swap⟩
  · exact .inr ⟨htext.symm, n, m, hn, hm, by rw [m.compare?_swap, ho]; rfl⟩

theorem not_array_of_order (h : order a b = .ok o) :
    (∀ g, a ≠ .array g) ∧ ∀ g, b ≠ .array g := by
  rcases order_eq_ok_iff.1 h with ⟨s, t, rfl, rfl, -⟩ | ⟨-, m, n, hm, hn, -⟩
  · exact ⟨nofun, nofun⟩
  · constructor <;> rintro g rfl
    · cases hm
    · cases hn

/-! ## Equality -/

theorem sameNumber_comm (a b : Value) : sameNumber a b = sameNumber b a := by
  unfold sameNumber
  cases a.toNumber with
  | error f => cases b.toNumber <;> rfl
  | ok m =>
    cases b.toNumber with
    | error f => rfl
    | ok n =>
      simp only [Number.same_eq]
      rw [m.compare?_swap]
      cases m.compare? n with
      | none => rfl
      | some o => cases o <;> rfl

theorem looseEq_comm (a b : Value) : looseEq a b = looseEq b a := by
  cases a <;> cases b <;> simp only [looseEq]
  case text.text s t => simp only [eq_comm]
  case array.array g h => simp only [eq_comm]
  all_goals exact sameNumber_comm _ _

/-- The value is a text that reads as zero. -/
def ReadsAsZero : Value → Prop
  | text s => ∃ n, parseNumber? s = some n ∧ n.isZero = true
  | _ => False

/-- One of the values is `empty`, and the other a text that reads as zero. -/
def EmptyBesideZero (a b : Value) : Prop := a = .empty ∧ b.ReadsAsZero ∨ a.ReadsAsZero ∧ b = .empty

theorem EmptyBesideZero.symm (h : EmptyBesideZero a b) : EmptyBesideZero b a :=
  (Or.symm h).imp And.symm And.symm

theorem parseNumber?_empty : parseNumber? "" = none := by decide +kernel

theorem toNumber_text_eq_ok {s : String} (h : (text s).toNumber = .ok m) : parseNumber? s = some m := by
  rw [toNumber] at h
  split at h
  · next n hn => rw [hn, Except.ok.inj h]
  · cases h

/-- A text is ordered as `empty` is if it reads as zero, but only the empty text equals it. -/
theorem order_text_empty {s : String} (h : order (.text s) .empty = .ok o) :
    looseEq (.text s) .empty = false ∧ (o = .eq ↔ EmptyBesideZero (.text s) .empty) := by
  rcases order_eq_ok_iff.1 h with ⟨_, t, -, ht, -⟩ | ⟨-, m, n, hm, hn, ho⟩
  · cases ht
  · have hread := toNumber_text_eq_ok hm
    obtain rfl : Number.integer 0 = n := Except.ok.inj hn
    have hne : s ≠ "" := by
      rintro rfl
      rw [parseNumber?_empty] at hread
      cases hread
    have hzero : o = .eq ↔ m.isZero = true := by
      rw [← m.compare?_zero, ho, Option.some.injEq]
    simp [looseEq, hne, hzero, EmptyBesideZero, ReadsAsZero, hread]

theorem EmptyBesideZero.order_eq (hzero : EmptyBesideZero a b) (h : order a b = .ok o) : o = .eq := by
  have htext : ∀ {a : Value} {o : Ordering}, a.ReadsAsZero → order a .empty = .ok o → o = .eq := by
    intro a o ha h
    cases a with
    | text s => exact (order_text_empty h).2.2 (.inr ⟨ha, rfl⟩)
    | _ => exact ha.elim
  rcases hzero with ⟨rfl, hb⟩ | ⟨ha, rfl⟩
  · have hswap := htext hb (order_swap h)
    cases o with
    | eq => rfl
    | lt | gt => cases hswap
  · exact htext ha h

theorem sameNumber_iff (ha : a.toNumber = .ok m) (hb : b.toNumber = .ok n) :
    sameNumber a b = true ↔ m.compare? n = some .eq := by
  rw [sameNumber, ha, hb]
  simp [Number.same_eq]

/-- Values that are ordered are equal if they are ordered as equal, unless one of them is `empty` and
the other a text that reads as zero. -/
theorem looseEq_iff_order (h : order a b = .ok o) :
    looseEq a b = true ↔ o = .eq ∧ ¬ EmptyBesideZero a b := by
  have hnumbers : NotBothTexts a b → (sameNumber a b = true ↔ o = .eq) := by
    intro htexts
    rcases order_eq_ok_iff.1 h with ⟨s, t, rfl, rfl, -⟩ | ⟨-, m, n, hm, hn, ho⟩
    · simp [NotBothTexts, isText] at htexts
    · rw [sameNumber_iff hm hn, ho, Option.some.injEq]
  cases a <;> cases b
  case text.text s t =>
    cases h
    simp [looseEq, EmptyBesideZero]
  case text.empty s =>
    obtain ⟨hne, hzero⟩ := order_text_empty h
    simp [hne, hzero]
  case empty.text s =>
    obtain ⟨hne, hzero⟩ := order_text_empty (order_swap h)
    have hswap : o.swap = .eq ↔ o = .eq := by cases o <;> simp
    rw [looseEq_comm, hne, ← hswap, hzero]
    simpa using EmptyBesideZero.symm
  case array.array | array.empty | array.bool | array.integer | array.real | array.text =>
    exact absurd rfl ((not_array_of_order h).1 _)
  case empty.array | bool.array | integer.array | real.array | text.array =>
    exact absurd rfl ((not_array_of_order h).2 _)
  -- what is left is compared as the numbers it is worth
  all_goals
    rw [looseEq, hnumbers (by simp [NotBothTexts, isText])]
    · simp [EmptyBesideZero, ReadsAsZero]
    all_goals simp

/-! ## The operators -/

/-- The operator gives `TRUE`. -/
def Holds (op : BinaryOp) (a b : Value) : Prop := binary op a b = .ok (.bool true)

theorem holds_equal : Holds .equal a b ↔ looseEq a b = true := by simp [Holds, binary, comparison]

theorem holds_less (h : order a b = .ok o) : Holds .less a b ↔ o = .lt := by
  simp [Holds, binary, comparison, h, Except.map]

theorem holds_greater (h : order a b = .ok o) : Holds .greater a b ↔ o = .gt := by
  simp [Holds, binary, comparison, h, Except.map]

theorem holds_lessEqual (h : order a b = .ok o) : Holds .lessEqual a b ↔ o ≠ .gt := by
  simp [Holds, binary, comparison, h, Except.map]

theorem holds_greaterEqual (h : order a b = .ok o) : Holds .greaterEqual a b ↔ o ≠ .lt := by
  simp [Holds, binary, comparison, h, Except.map]

theorem less_swap (h : order a b = .ok o) : binary .less b a = binary .greater a b := by
  have hswap : o.swap = .lt ↔ o = .gt := by cases o <;> simp
  simp [binary, comparison, h, order_swap h, Except.map, hswap]

/-- Of the three relations exactly one holds, if values ordered as equal are equal. -/
theorem exists_unique_holds (h : order a b = .ok o) (hzero : ¬ EmptyBesideZero a b) :
    ∃! op, op ∈ [.less, .equal, .greater] ∧ Holds op a b := by
  have hless := holds_less h
  have hgreater := holds_greater h
  have hequal : Holds .equal a b ↔ o = .eq := by
    rw [holds_equal, looseEq_iff_order h]
    exact and_iff_left hzero
  cases o
  · exact ⟨.less, by simp [hless], by simp [hequal, hgreater]⟩
  · exact ⟨.equal, by simp [hequal], by simp [hless, hgreater]⟩
  · exact ⟨.greater, by simp [hgreater], by simp [hless, hequal]⟩

end

/-- **Equality and order are consistent.**  Equality is symmetric and `!=` is its negation.  Of `<`,
`==` and `>` exactly one holds of two values that are ordered; `<=` and `>=` are what these three make
them, and `<` is `>` the other way round.  The one exception is `empty` beside a text that reads as
zero: these are ordered as equal without being so. -/
theorem equality_and_order_consistent (a b : Value) :
    binary .equal a b = binary .equal b a ∧
    (∃ r, binary .equal a b = .ok (.bool r) ∧ binary .notEqual a b = .ok (.bool !r)) ∧
    ∀ o, order a b = .ok o →
      binary .less b a = binary .greater a b ∧
      (¬ EmptyBesideZero a b →
        (∃! op, op ∈ [.less, .equal, .greater] ∧ Holds op a b) ∧
        (Holds .lessEqual a b ↔ Holds .less a b ∨ Holds .equal a b) ∧
        (Holds .greaterEqual a b ↔ Holds .greater a b ∨ Holds .equal a b)) ∧
      (EmptyBesideZero a b →
        (∀ op ∈ [.less, .equal, .greater], ¬ Holds op a b) ∧
        Holds .lessEqual a b ∧ Holds .greaterEqual a b) := by
  refine ⟨?_, ⟨looseEq a b, rfl, rfl⟩, fun o h => ⟨less_swap h, fun hzero => ⟨?_, ?_, ?_⟩,
    fun hzero => ?_⟩⟩
  · simp only [binary, comparison, looseEq_comm a b]
  · exact exists_unique_holds h hzero
  · rw [holds_lessEqual h, holds_less h, holds_equal, looseEq_iff_order h]
    cases o <;> simp [hzero]
  · rw [holds_greaterEqual h, holds_greater h, holds_equal, looseEq_iff_order h]
    cases o <;> simp [hzero]
  · obtain rfl := hzero.order_eq h
    simp [holds_lessEqual h, holds_greaterEqual h, holds_less h, holds_greater h, holds_equal,
      looseEq_iff_order h, hzero]

theorem integer_below_text_of_real :
    order (.integer 2) (.text "2.5") = .ok .lt ∧ ¬ EmptyBesideZero (.integer 2) (.text "2.5") ∧
      (∃! op, op ∈ [.less, .equal, .greater] ∧ Holds op (.integer 2) (.text "2.5")) ∧
      Holds .less (.integer 2) (.text "2.5") := by
  have horder : order (.integer 2) (.text "2.5") = .ok .lt := by decide +kernel
  have hzero : ¬ EmptyBesideZero (.integer 2) (.text "2.5") := by
    simp [EmptyBesideZero, ReadsAsZero]
  have h := (equality_and_order_consistent (.integer 2) (.text "2.5")).2.2 _ horder
  exact ⟨horder, hzero, (h.2.1 hzero).1, (holds_less horder).2 rfl⟩

/-- The text `0` and `empty` are ordered, yet neither is less than the other nor do they equal. -/
theorem zero_beside_empty_unequal :
    order (.text "0") .empty = .ok .eq ∧
      ¬ (∃! op, op ∈ [.less, .equal, .greater] ∧ Holds op (.text "0") .empty) ∧
      Holds .lessEqual (.text "0") .empty ∧ Holds .greaterEqual (.text "0") .empty := by
  have horder : order (.text "0") .empty = .ok .eq := by decide +kernel
  have hread : parseNumber? "0" = some (.integer 0) := by decide +kernel
  have hzero : EmptyBesideZero (.text "0") .empty := .inr ⟨⟨_, hread, rfl⟩, rfl⟩
  refine ⟨horder, ?_, (holds_lessEqual horder).2 nofun, (holds_greaterEqual horder).2 nofun⟩
  rintro ⟨op, ⟨hop, hholds⟩, -⟩
  have hequal : ¬ Holds .equal (.text "0") .empty := by
    rw [holds_equal, looseEq_iff_order horder]
    exact fun h => h.2 hzero
  simp only [List.mem_cons, List.not_mem_nil, or_false] at hop
  rcases hop with rfl | rfl | rfl
  · exact nomatch (holds_less horder).1 hholds
  · exact hequal hholds
  · exact nomatch (holds_greater horder).1 hholds

end Value

end BasicScript
