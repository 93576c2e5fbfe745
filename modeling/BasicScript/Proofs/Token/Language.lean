/-
  The languages of the lexemes.

  * `oneOf p`, `run p`: one character, and one or more characters, that satisfy `p`.
  * `upToCase letters`, `exponent`, `fraction`, `quotedTail quote`: the other parts of the patterns.
  * `LexemeClass.language`: the pattern of a class.
  * `Measures f L`: `f` gives the length of the longest beginning of a text that is in `L`, and
    nothing if there is none.
  * `measures_span`: so `LexemeClass.span` measures the languages of the classes.
-/
import BasicScript.Token.Lexeme
import Mathlib.Computability.Language
import Mathlib.Data.List.TakeWhile

namespace BasicScript

open scoped Computability

variable {p : Char → Bool} {L M : Language Char} {w cs rest : List Char}

/-! ## Parts of patterns -/

/-- One character that satisfies `p`. -/
def oneOf (p : Char → Bool) : Language Char := {w | ∃ c, p c = true ∧ w = [c]}

/-- One or more characters that satisfy `p`. -/
def run (p : Char → Bool) : Language Char := oneOf p * (oneOf p)∗

/-- A word, letter by letter, up to case. -/
def upToCase (letters : List Char) : Language Char :=
  {w | List.Forall₂ (fun small c => sameLetter small c = true) letters w}

/-- The mark of an exponent, an optional sign, digits. -/
def exponent : Language Char :=
  oneOf (fun c => c = 'e' ∨ c = 'E') * ((1 + oneOf fun c => c = '+' ∨ c = '-') * run Char.isDigit)

/-- A point, digits, and an optional exponent. -/
def fraction : Language Char := oneOf (· = '.') * (run Char.isDigit * (1 + exponent))

/-- What stands between quotes: a character of the line, or an escape. -/
def quotedUnit (quote : Char) : Language Char :=
  oneOf (fun c => c ≠ quote ∧ c ≠ '\\' ∧ isLineEnd c = false) +
    oneOf (· = '\\') * oneOf (· ≠ '\n')

/-- The rest of a quoted text after its opening quote. -/
def quotedTail (quote : Char) : Language Char := (quotedUnit quote)∗ * oneOf (· = quote)

theorem mem_oneOf_mul : w ∈ oneOf p * L ↔ ∃ c w', p c = true ∧ w' ∈ L ∧ w = c :: w' := by
  constructor
  · rintro ⟨_, ⟨c, hc, rfl⟩, w', hw', rfl⟩
    exact ⟨c, w', hc, hw', rfl⟩
  · rintro ⟨c, w', hc, hw', rfl⟩
    exact ⟨[c], ⟨c, hc, rfl⟩, w', hw', rfl⟩

theorem mem_kstar_oneOf : w ∈ (oneOf p)∗ ↔ ∀ c ∈ w, p c = true := by
  constructor
  · rintro ⟨ws, rfl, hws⟩ c hc
    obtain ⟨u, hu, hcu⟩ := List.mem_flatten.1 hc
    obtain ⟨d, hd, rfl⟩ := hws u hu
    rwa [List.mem_singleton.1 hcu]
  · intro h
    refine ⟨w.map ([·]), (List.flatMap_singleton' w).symm, fun u hu => ?_⟩
    obtain ⟨c, hc, rfl⟩ := List.mem_map.1 hu
    exact ⟨c, h c hc, rfl⟩

theorem mem_run : w ∈ run p ↔ w ≠ [] ∧ ∀ c ∈ w, p c = true := by
  rw [run, mem_oneOf_mul]
  constructor
  · rintro ⟨c, w', hc, hw', rfl⟩
    simp_all [mem_kstar_oneOf]
  · rintro ⟨hne, hw⟩
    obtain ⟨c, w', rfl⟩ := List.exists_cons_of_ne_nil hne
    simp_all [mem_kstar_oneOf]

/-- A quoted text is closed at once, or goes on after a character or an escape. -/
theorem quotedTail_eq (quote : Char) :
    quotedTail quote = oneOf (· = quote) + quotedUnit quote * quotedTail quote := by
  rw [quotedTail, ← mul_assoc, ← one_add_mul, Language.one_add_self_mul_kstar_eq_kstar]

/-! ## Lengths -/

/-- Where a text begins with members of `L`, `f` gives the length of the longest of them. -/
structure Measures (f : List Char → Option Nat) (L : Language Char) : Prop where
  sound : ∀ {cs n}, f cs = some n → ∃ w ∈ L, ∃ rest, cs = w ++ rest ∧ w.length = n
  longest : ∀ {w}, w ∈ L → ∀ rest, ∃ n, f (w ++ rest) = some n ∧ w.length ≤ n

/-- A run ends at the first character that does not satisfy `p`. -/
theorem takeWhile_append (hw : ∀ c ∈ w, p c = true) (hrest : ∀ c ∈ rest.head?, p c = false) :
    (w ++ rest).takeWhile p = w := by
  rw [List.takeWhile_append_of_pos hw]
  cases rest with
  | nil => simp
  | cons c cs => simp [hrest c rfl]

theorem dropWhile_append (hw : ∀ c ∈ w, p c = true) (hrest : ∀ c ∈ rest.head?, p c = false) :
    (w ++ rest).dropWhile p = rest := by
  rw [List.dropWhile_append_of_pos hw]
  cases rest with
  | nil => rfl
  | cons c cs => simp [hrest c rfl]

theorem exists_takeWhile (p : Char → Bool) (cs : List Char) :
    ∃ w rest, cs = w ++ rest ∧ (∀ c ∈ w, p c = true) ∧ cs.takeWhile p = w ∧
      ∀ c ∈ rest.head?, p c = false := by
  refine ⟨cs.takeWhile p, cs.dropWhile p, List.takeWhile_append_dropWhile.symm,
    fun c => List.mem_takeWhile_imp, rfl, fun c hc => ?_⟩
  have hnot := List.head?_dropWhile_not p cs
  rw [Option.mem_def.1 hc] at hnot
  exact hnot

namespace Measures

variable {f g : List Char → Option Nat}

theorem of_eq (hf : Measures f L) (hg : ∀ cs, g cs = f cs) : Measures g L := by
  rwa [show g = f from funext hg]

theorem kstar (p : Char → Bool) :
    Measures (fun cs => some (cs.takeWhile p).length) (oneOf p)∗ where
  sound := by
    rintro cs _ ⟨⟩
    obtain ⟨w, rest, rfl, hw, htake, -⟩ := exists_takeWhile p cs
    exact ⟨w, mem_kstar_oneOf.2 hw, rest, rfl, by rw [htake]⟩
  longest := by
    intro w hw rest
    refine ⟨_, rfl, ?_⟩
    rw [List.takeWhile_append_of_pos (mem_kstar_oneOf.1 hw), List.length_append]
    omega

theorem run (p : Char → Bool) :
    Measures (fun cs => let n := (cs.takeWhile p).length; if n = 0 then none else some n)
      (run p) where
  sound := by
    intro cs n hn
    obtain ⟨w, rest, rfl, hw, htake, -⟩ := exists_takeWhile p cs
    simp only [htake] at hn
    split at hn
    · cases hn
    · next hne =>
      cases hn
      exact ⟨w, mem_run.2 ⟨fun h => hne (by rw [h]; rfl), hw⟩, rest, rfl, rfl⟩
  longest := by
    intro w hw rest
    obtain ⟨hne, hw⟩ := mem_run.1 hw
    have hlen := List.length_pos_of_ne_nil hne
    simp only [List.takeWhile_append_of_pos hw, List.length_append]
    rw [if_neg (by omega)]
    exact ⟨_, rfl, by omega⟩

/-- One character before the rest. -/
theorem cons (hf : Measures f L) (p : Char → Bool) :
    Measures (fun cs => match cs with
      | c :: cs => if p c then (f cs).map (· + 1) else none
      | [] => none) (oneOf p * L) where
  sound := by
    intro cs n hn
    cases cs with
    | nil => cases hn
    | cons c cs =>
      simp only at hn
      split at hn
      · next hc =>
        obtain ⟨m, hm, rfl⟩ := Option.map_eq_some_iff.1 hn
        obtain ⟨w, hw, rest, rfl, rfl⟩ := hf.sound hm
        exact ⟨c :: w, mem_oneOf_mul.2 ⟨c, w, hc, hw, rfl⟩, rest, rfl, rfl⟩
      · cases hn
  longest := by
    intro w hw rest
    obtain ⟨c, w', hc, hw', rfl⟩ := mem_oneOf_mul.1 hw
    obtain ⟨n, hn, hle⟩ := hf.longest hw' rest
    refine ⟨n + 1, ?_, Nat.succ_le_succ hle⟩
    simp [hc, hn]

theorem optional (hf : Measures f L) : Measures (fun cs => some ((f cs).getD 0)) (1 + L) where
  sound := by
    rintro cs _ ⟨⟩
    cases hn : f cs with
    | none => exact ⟨[], .inl rfl, cs, rfl, rfl⟩
    | some n =>
      obtain ⟨w, hw, rest, rfl, rfl⟩ := hf.sound hn
      exact ⟨w, .inr hw, rest, rfl, rfl⟩
  longest := by
    rintro w (rfl | hw) rest
    · exact ⟨_, rfl, Nat.zero_le _⟩
    · obtain ⟨n, hn, hle⟩ := hf.longest hw rest
      refine ⟨n, ?_, hle⟩
      simp [hn]

end Measures

/-! ## Words -/

theorem beginsWith_iff {letters : List Char} :
    beginsWith letters cs = true ↔ ∃ w ∈ upToCase letters, ∃ rest, cs = w ++ rest := by
  constructor
  · intro h
    induction letters generalizing cs with
    | nil => exact ⟨[], .nil, cs, rfl⟩
    | cons small letters ih =>
      cases cs with
      | nil => cases h
      | cons c cs =>
        obtain ⟨hc, h⟩ := Bool.and_eq_true_iff.1 h
        obtain ⟨w, hw, rest, rfl⟩ := ih h
        exact ⟨c :: w, .cons hc hw, rest, rfl⟩
  · rintro ⟨w, hw, rest, rfl⟩
    induction hw with
    | nil => rfl
    | cons hc _ ih => exact Bool.and_eq_true_iff.2 ⟨hc, ih⟩

/-- A word up to case before the rest. -/
theorem Measures.upToCase_mul {f : List Char → Option Nat} (hf : Measures f L)
    (letters : List Char) :
    Measures (fun cs => if beginsWith letters cs then
      (f (cs.drop letters.length)).map (letters.length + ·) else none) (upToCase letters * L) where
  sound := by
    intro cs n hn
    split at hn
    · next hbegins =>
      obtain ⟨w, hw, rest, rfl⟩ := beginsWith_iff.1 hbegins
      obtain ⟨m, hm, rfl⟩ := Option.map_eq_some_iff.1 hn
      rw [hw.length_eq, List.drop_left] at hm
      obtain ⟨w', hw', rest, rfl, rfl⟩ := hf.sound hm
      refine ⟨w ++ w', Language.append_mem_mul hw hw', rest, (List.append_assoc ..).symm, ?_⟩
      rw [List.length_append, hw.length_eq]
    · cases hn
  longest := by
    rintro _ ⟨w, hw, w', hw', rfl⟩ rest
    obtain ⟨n, hn, hle⟩ := hf.longest hw' rest
    have hbegins : beginsWith letters (w ++ (w' ++ rest)) = true :=
      beginsWith_iff.2 ⟨w, hw, _, rfl⟩
    have hlen := hw.length_eq
    refine ⟨letters.length + n, ?_, ?_⟩
    · simp only [List.append_assoc, hbegins, if_true, hlen, List.drop_left, hn]
      rfl
    · simp only [List.length_append]
      omega

theorem Measures.upToCase (letters : List Char) :
    Measures (fun cs => if beginsWith letters cs then some letters.length else none)
      (upToCase letters) := by
  have hnil : Measures (fun _ => some 0) 1 :=
    ⟨by rintro cs _ ⟨⟩; exact ⟨[], rfl, cs, rfl, rfl⟩, by rintro _ rfl rest; exact ⟨0, rfl, le_rfl⟩⟩
  have h := hnil.upToCase_mul letters
  rwa [mul_one] at h

/-! ## Numerals -/

theorem measures_digitSpan : Measures digitSpan (run Char.isDigit) := .run _

/-- An optional sign before digits. -/
theorem measures_signedDigits :
    Measures (fun cs => match cs with
      | c :: ds => if c = '+' ∨ c = '-' then (digitSpan ds).map (· + 1) else digitSpan (c :: ds)
      | [] => none) ((1 + oneOf fun c => c = '+' ∨ c = '-') * run Char.isDigit) := by
  have hsigned := measures_digitSpan.cons fun c => c = '+' ∨ c = '-'
  rw [add_mul, one_mul]
  constructor
  · intro cs n hn
    cases cs with
    | nil => cases hn
    | cons c ds =>
      by_cases hc : c = '+' ∨ c = '-'
      · simp only [hc, if_true] at hn
        obtain ⟨m, hm, rfl⟩ := Option.map_eq_some_iff.1 hn
        obtain ⟨w, hw, rest, rfl, rfl⟩ := measures_digitSpan.sound hm
        exact ⟨c :: w, .inr (mem_oneOf_mul.2 ⟨c, w, decide_eq_true hc, hw, rfl⟩), rest, rfl, rfl⟩
      · simp only [hc, if_false] at hn
        obtain ⟨w, hw, hrest⟩ := measures_digitSpan.sound hn
        exact ⟨w, .inl hw, hrest⟩
  · rintro w (hw | hw) rest
    · obtain ⟨n, hn, hle⟩ := measures_digitSpan.longest hw rest
      obtain ⟨c, ds, hc, -, rfl⟩ := mem_oneOf_mul.1 hw
      have hsign : ¬ (c = '+' ∨ c = '-') := by
        rintro (rfl | rfl) <;> cases hc
      exact ⟨n, by simpa [hsign] using hn, hle⟩
    · obtain ⟨n, hn, hle⟩ := hsigned.longest hw rest
      obtain ⟨c, ds, hc, -, rfl⟩ := mem_oneOf_mul.1 hw
      have hsign : c = '+' ∨ c = '-' := of_decide_eq_true hc
      exact ⟨n, by simpa [hsign] using hn, hle⟩

theorem measures_exponentSpan : Measures exponentSpan exponent := by
  refine (measures_signedDigits.cons fun c => c = 'e' ∨ c = 'E').of_eq fun cs => ?_
  rcases cs with - | ⟨e, - | ⟨c, ds⟩⟩
  · rfl
  · simp [exponentSpan]
  · by_cases hc : c = '+' ∨ c = '-' <;> simp [exponentSpan, hc, Function.comp_def]

theorem digitSpan_append (hw : w ∈ run Char.isDigit) (hrest : ∀ c ∈ rest.head?, c.isDigit = false) :
    digitSpan (w ++ rest) = some w.length := by
  obtain ⟨hne, hw⟩ := mem_run.1 hw
  simp [digitSpan, takeWhile_append hw hrest, hne]

theorem exists_mark_of_mem_exponent (hw : w ∈ exponent) :
    ∃ c cs, w = c :: cs ∧ c.isDigit = false ∧ c ≠ '.' := by
  obtain ⟨c, cs, hc, -, rfl⟩ := mem_oneOf_mul.1 hw
  refine ⟨c, cs, rfl, ?_⟩
  rcases of_decide_eq_true hc with rfl | rfl <;> decide

/-- Digits and an optional exponent. -/
theorem measures_decimals :
    Measures (fun ds => (digitSpan ds).map fun n => n + (exponentSpan (ds.drop n)).getD 0)
      (run Char.isDigit * (1 + exponent)) where
  sound := by
    intro cs n hn
    obtain ⟨m, hm, rfl⟩ := Option.map_eq_some_iff.1 hn
    obtain ⟨w, hw, rest, rfl, rfl⟩ := measures_digitSpan.sound hm
    rw [List.drop_left]
    have hopt : some ((exponentSpan rest).getD 0) = some _ := rfl
    obtain ⟨w', hw', rest, rfl, hlen⟩ := measures_exponentSpan.optional.sound hopt
    refine ⟨w ++ w', Language.append_mem_mul hw hw', rest, (List.append_assoc ..).symm, ?_⟩
    rw [List.length_append, hlen]
  longest := by
    rintro _ ⟨w, hw, w', hw', rfl⟩ rest
    rw [List.append_assoc]
    rcases hw' with rfl | hw'
    · obtain ⟨n, hn, hle⟩ := measures_digitSpan.longest hw rest
      simp only [List.nil_append, List.append_nil, hn, Option.map_some, Option.some_inj]
      exact ⟨_, rfl, by omega⟩
    · obtain ⟨c, cs, rfl, hc, -⟩ := exists_mark_of_mem_exponent hw'
      obtain ⟨n, hn, hle⟩ := measures_exponentSpan.longest hw' rest
      have hdigits : digitSpan (w ++ (c :: cs ++ rest)) = some w.length := by
        refine digitSpan_append hw ?_
        rintro _ ⟨⟩
        exact hc
      refine ⟨w.length + n, ?_, ?_⟩
      · simp only [hdigits, Option.map_some, List.drop_left, hn, Option.getD_some]
      · rw [List.length_append]
        omega

/-- Digits before a point. -/
theorem realSpan_point (hw : ∀ c ∈ w, c.isDigit = true) (ds : List Char) :
    realSpan (w ++ '.' :: ds) =
      ((digitSpan ds).map fun n => n + (exponentSpan (ds.drop n)).getD 0).map
        (w.length + 1 + ·) := by
  have htake : (w ++ '.' :: ds).takeWhile Char.isDigit = w := by
    refine takeWhile_append hw ?_
    rintro _ ⟨⟩
    rfl
  rw [realSpan]
  simp only [htake, List.drop_left, Option.map_map, Function.comp_def, Nat.add_assoc]

/-- Digits before anything but a point. -/
theorem realSpan_of_not_point (hw : ∀ c ∈ w, c.isDigit = true)
    (hrest : ∀ c ∈ rest.head?, c.isDigit = false) (hpoint : ∀ ds, rest ≠ '.' :: ds) :
    realSpan (w ++ rest) = if w = [] then none else (exponentSpan rest).map (w.length + ·) := by
  have htake : (w ++ rest).takeWhile Char.isDigit = w := takeWhile_append hw hrest
  rw [realSpan]
  simp only [htake, List.drop_left, List.length_eq_zero_iff]

/-- A real numeral: digits around a point, or digits with an exponent. -/
def realNumeral : Language Char :=
  run Char.isDigit * fraction + fraction + run Char.isDigit * exponent

theorem mem_realNumeral :
    w ∈ realNumeral ↔ ∃ a b, w = a ++ b ∧ (∀ c ∈ a, c.isDigit = true) ∧
      (b ∈ fraction ∨ a ≠ [] ∧ b ∈ exponent) := by
  constructor
  · rintro ((⟨a, ha, b, hb, rfl⟩ | hb) | ⟨a, ha, b, hb, rfl⟩)
    · exact ⟨a, b, rfl, (mem_run.1 ha).2, .inl hb⟩
    · exact ⟨[], w, rfl, nofun, .inl hb⟩
    · exact ⟨a, b, rfl, (mem_run.1 ha).2, .inr ⟨(mem_run.1 ha).1, hb⟩⟩
  · rintro ⟨a, b, rfl, ha, hb | ⟨hne, hb⟩⟩
    · by_cases hne : a = []
      · subst hne
        exact .inl (.inr hb)
      · exact .inl (.inl ⟨a, mem_run.2 ⟨hne, ha⟩, b, hb, rfl⟩)
    · exact .inr ⟨a, mem_run.2 ⟨hne, ha⟩, b, hb, rfl⟩

theorem measures_realSpan : Measures realSpan realNumeral where
  sound := by
    intro cs n hn
    obtain ⟨a, b, rfl, ha, -, hb⟩ := exists_takeWhile Char.isDigit cs
    by_cases hpoint : ∃ ds, b = '.' :: ds
    · obtain ⟨ds, rfl⟩ := hpoint
      rw [realSpan_point ha] at hn
      obtain ⟨m, hm, rfl⟩ := Option.map_eq_some_iff.1 hn
      obtain ⟨w, hw, rest, rfl, rfl⟩ := measures_decimals.sound hm
      refine ⟨a ++ '.' :: w, mem_realNumeral.2 ⟨a, _, rfl, ha, .inl ?_⟩, rest, by simp, ?_⟩
      · exact mem_oneOf_mul.2 ⟨'.', w, rfl, hw, rfl⟩
      · simp only [List.length_append, List.length_cons]
        omega
    · rw [realSpan_of_not_point ha hb fun ds h => hpoint ⟨ds, h⟩] at hn
      split at hn
      · cases hn
      · next hne =>
        obtain ⟨m, hm, rfl⟩ := Option.map_eq_some_iff.1 hn
        obtain ⟨w, hw, rest, rfl, rfl⟩ := measures_exponentSpan.sound hm
        exact ⟨a ++ w, mem_realNumeral.2 ⟨a, w, rfl, ha, .inr ⟨hne, hw⟩⟩, rest, by simp, by simp⟩
  longest := by
    intro w hw rest
    obtain ⟨a, b, rfl, ha, hb | ⟨hne, hb⟩⟩ := mem_realNumeral.1 hw
    · obtain ⟨c, ds, hc, hds, rfl⟩ := mem_oneOf_mul.1 hb
      obtain rfl := of_decide_eq_true hc
      obtain ⟨n, hn, hle⟩ := measures_decimals.longest hds rest
      refine ⟨a.length + 1 + n, ?_, ?_⟩
      · rw [List.append_assoc, List.cons_append, realSpan_point ha, hn, Option.map_some]
      · simp only [List.length_append, List.length_cons]
        omega
    · obtain ⟨n, hn, hle⟩ := measures_exponentSpan.longest hb rest
      obtain ⟨c, cs, rfl, hc, hdot⟩ := exists_mark_of_mem_exponent hb
      refine ⟨a.length + n, ?_, ?_⟩
      · rw [List.append_assoc, realSpan_of_not_point ha, if_neg hne, hn, Option.map_some]
        · rintro _ ⟨⟩
          exact hc
        · rintro ds ⟨⟩
          exact hdot rfl
      · rw [List.length_append]
        omega

/-! ## Quoted texts -/

section
variable {quote : Char}

theorem mem_quotedTail_quote : [quote] ∈ quotedTail quote := by
  rw [quotedTail_eq]
  exact .inl ⟨quote, decide_eq_true rfl, rfl⟩

theorem mem_quotedTail_cons {c : Char} (hq : c ≠ quote) (he : c ≠ '\\') (hl : isLineEnd c = false)
    (hw : w ∈ quotedTail quote) : c :: w ∈ quotedTail quote := by
  rw [quotedTail_eq]
  exact .inr ⟨[c], .inl ⟨c, decide_eq_true ⟨hq, he, hl⟩, rfl⟩, w, hw, rfl⟩

theorem mem_quotedTail_escape {d : Char} (hd : d ≠ '\n') (hw : w ∈ quotedTail quote) :
    '\\' :: d :: w ∈ quotedTail quote := by
  rw [quotedTail_eq]
  refine .inr ⟨['\\', d], .inr ⟨['\\'], ⟨_, rfl, rfl⟩, [d], ⟨d, decide_eq_true hd, rfl⟩, rfl⟩,
    w, hw, rfl⟩

theorem closingSpan_cons {c : Char} {n : Nat} (hq : c ≠ quote) (he : c ≠ '\\')
    (hl : isLineEnd c = false) (hcs : closingSpan quote cs = some n) :
    closingSpan quote (c :: cs) = some (n + 1) := by
  cases cs with
  | nil => cases hcs
  | cons d cs => simp [closingSpan, hq, he, hl, hcs]

theorem closingSpan_escape {d : Char} {n : Nat} (hquote : quote ≠ '\\') (hd : d ≠ '\n')
    (hcs : closingSpan quote cs = some n) : closingSpan quote ('\\' :: d :: cs) = some (n + 2) := by
  simp [closingSpan, hquote.symm, hd, hcs]

/-- The closing quote is the first that no backslash takes. -/
theorem closingSpan_append (hquote : quote ≠ '\\') (hw : w ∈ quotedTail quote)
    (rest : List Char) : closingSpan quote (w ++ rest) = some w.length := by
  obtain ⟨_, ⟨units, rfl, hunits⟩, _, ⟨c, hc, rfl⟩, rfl⟩ := hw
  obtain rfl := of_decide_eq_true hc
  induction units with
  | nil => cases rest <;> simp [closingSpan]
  | cons u units ih =>
    have ih := ih fun u' hu' => hunits u' (List.mem_cons_of_mem u hu')
    rcases hunits u List.mem_cons_self with ⟨d, hd, rfl⟩ | ⟨_, ⟨e, he, rfl⟩, _, ⟨d, hd, rfl⟩, rfl⟩
    · obtain ⟨hq, hesc, hl⟩ := of_decide_eq_true hd
      exact closingSpan_cons hq hesc hl ih
    · obtain rfl := of_decide_eq_true he
      exact closingSpan_escape hquote (of_decide_eq_true hd) ih

theorem exists_of_closingSpan {n : Nat} (hn : closingSpan quote cs = some n) :
    ∃ w ∈ quotedTail quote, ∃ rest, cs = w ++ rest ∧ w.length = n := by
  fun_induction closingSpan quote cs generalizing n with
  | case1 => cases hn
  | case2 | case4 =>
    cases hn
    exact ⟨_, mem_quotedTail_quote, _, rfl, rfl⟩
  | case3 | case5 | case7 => cases hn
  | case6 d cs hd hq ih =>
    obtain ⟨m, hm, rfl⟩ := Option.map_eq_some_iff.1 hn
    obtain ⟨w, hw, rest, rfl, rfl⟩ := ih hm
    exact ⟨_, mem_quotedTail_escape hd hw, rest, rfl, rfl⟩
  | case8 c d cs hq he hl ih =>
    obtain ⟨m, hm, rfl⟩ := Option.map_eq_some_iff.1 hn
    obtain ⟨w, hw, rest, heq, rfl⟩ := ih hm
    refine ⟨_, mem_quotedTail_cons hq he (Bool.eq_false_iff.2 hl) hw, rest, ?_, rfl⟩
    rw [heq, List.cons_append]

theorem measures_closingSpan (hquote : quote ≠ '\\') :
    Measures (closingSpan quote) (quotedTail quote) where
  sound := exists_of_closingSpan
  longest hw rest := ⟨_, closingSpan_append hquote hw rest, Nat.le_refl _⟩

end

/-! ## Classes -/

/-- The blank between the word `REM` and the remark, and the rest of the line. -/
def remarkTail : Language Char :=
  oneOf (fun c => c = ' ' ∨ c = '\t') * (oneOf fun c => !isLineEnd c)∗

theorem measures_remarkSpan : Measures (fun cs => some (remarkSpan cs)) (1 + remarkTail) := by
  refine ((Measures.kstar fun c => !isLineEnd c).cons fun c => c = ' ' ∨ c = '\t').optional.of_eq
    fun cs => ?_
  cases cs with
  | nil => rfl
  | cons c cs => by_cases hc : c = ' ' ∨ c = '\t' <;> simp [remarkSpan, hc]

namespace LexemeClass

/-- The texts that belong to a class. -/
def language : LexemeClass → Language Char
  | word letters _ | truth letters _ => upToCase letters.toList
  | sign spelling _ => {spelling.toList}
  | remark => upToCase ['r', 'e', 'm'] * (1 + remarkTail)
  | name => oneOf isNameStart * (oneOf isNamePart)∗
  | integer => run Char.isDigit
  | real => realNumeral
  | text quote => oneOf (· = quote) * quotedTail quote
  | gap => run isGap

/-- The span of a class is the length of the longest beginning of a text in its language. -/
theorem measures_span {c : LexemeClass} (hc : ∀ quote, c = text quote → quote ≠ '\\') :
    Measures c.span c.language := by
  cases c with
  | word letters | truth letters =>
    refine (Measures.upToCase letters.toList).of_eq fun cs => ?_
    rw [span, String.length_toList]
  | sign spelling =>
    constructor
    · intro cs n hn
      simp only [span] at hn
      split at hn
      · next hbegins =>
        cases hn
        obtain ⟨rest, rfl⟩ := List.isPrefixOf_iff_prefix.1 hbegins
        exact ⟨_, rfl, rest, rfl, String.length_toList⟩
      · cases hn
    · rintro _ rfl rest
      have hbegins : spelling.toList.isPrefixOf (spelling.toList ++ rest) = true :=
        List.isPrefixOf_iff_prefix.2 (List.prefix_append _ rest)
      refine ⟨spelling.length, ?_, le_of_eq String.length_toList⟩
      rw [span, if_pos hbegins]
  | remark =>
    exact (measures_remarkSpan.upToCase_mul ['r', 'e', 'm']).of_eq fun cs => rfl
  | name =>
    refine ((Measures.kstar isNamePart).cons isNameStart).of_eq fun cs => ?_
    cases cs <;> rfl
  | integer => exact measures_digitSpan
  | real => exact measures_realSpan
  | text quote =>
    refine ((measures_closingSpan (hc quote rfl)).cons (· = quote)).of_eq fun cs => ?_
    cases cs with
    | nil => rfl
    | cons c cs => simp [span]
  | gap => exact .run isGap

end LexemeClass

end BasicScript
