/-
  Texts as longest lexemes.

  * `Lexeme.Fits`, `Lexeme.InAscii`: an integer is in range, a truth value is spelt in ASCII letters;
    `Lexeme.Formed`: both.
  * `Lexeme.read_of_formed`, `Lexeme.read_of_not_formed`: just such lexemes are no fault.
  * `Splits cs ls rest`: from left to right `cs` is the longest lexemes `ls`, and `rest` is left.
  * `placed before ls`: the tokens of lexemes behind a text, each with its line.
  * `tokensFrom_of_splits`: what `tokensFrom` makes of a text that splits.
  * `tokenize_longest_match`: `tokenize` gives the tokens of the longest lexemes, or fails on the line
    of the first that cannot be formed.
-/
import BasicScript.Proofs.Token.LongestMatch
import BasicScript.Token.Lexer

namespace BasicScript

variable {w cs rest : List Char} {l : Lexeme} {ls : List Lexeme}

/-! ## Lexemes without a fault -/

theorem splitSign_of_no_sign {d : Char} (hd : ¬ (d = '-' ∨ d = '+')) :
    splitSign (d :: cs) = (false, d :: cs) := by
  rw [not_or] at hd
  unfold splitSign
  split
  · next heq => exact absurd (List.cons.inj heq).1 hd.1
  · next heq => exact absurd (List.cons.inj heq).1 hd.2
  · rfl

theorem splitSign_of_isDigit {d : Char} (hd : d.isDigit = true) :
    splitSign (d :: cs) = (false, d :: cs) := by
  refine splitSign_of_no_sign ?_
  rintro (rfl | rfl) <;> cases hd

/-- Digits with an optional sign are read. -/
theorem isSome_readSigned? (value : List Char → Nat)
    (hw : w ∈ (1 + oneOf fun c => c = '+' ∨ c = '-') * run Char.isDigit) :
    (readSigned? value w).isSome = true := by
  obtain ⟨s, hs, ds, hds, rfl⟩ := hw
  have hsplit : (splitSign (s ++ ds)).2 = ds := by
    rcases hs with rfl | ⟨c, hc, rfl⟩
    · obtain ⟨d, ds, hd, -, rfl⟩ := mem_oneOf_mul.1 hds
      exact congrArg Prod.snd (splitSign_of_isDigit hd)
    · rcases of_decide_eq_true hc with rfl | rfl <;> rfl
  obtain ⟨hne, hdigits⟩ := mem_run.1 hds
  have hread : ds ≠ [] ∧ ds.all Char.isDigit = true := ⟨hne, List.all_eq_true.2 hdigits⟩
  simp only [readSigned?, hsplit, if_pos hread, Option.isSome_some]

theorem isSome_readExponent? (hw : w ∈ 1 + exponent) :
    (Decimal.readExponent? w).isSome = true := by
  rcases hw with rfl | hw
  · rfl
  · obtain ⟨c, cs, hc, hcs, rfl⟩ := mem_oneOf_mul.1 hw
    have hc := of_decide_eq_true hc
    rw [Decimal.readExponent?, if_pos hc]
    exact isSome_readSigned? _ hcs

theorem not_isDigit_of_mem_optional (hw : w ∈ 1 + exponent) :
    ∀ c ∈ w.head?, c.isDigit = false := by
  rcases hw with rfl | hw
  · nofun
  · obtain ⟨c, cs, rfl, hc, -⟩ := exists_mark_of_mem_exponent hw
    rintro _ ⟨⟩
    exact hc

/-- Every real numeral is read. -/
theorem isSome_read? (hw : w ∈ realNumeral) : (Decimal.read? w).isSome = true := by
  obtain ⟨a, b, rfl, ha, hb⟩ := mem_realNumeral.1 hw
  rcases hb with hb | ⟨hne, hb⟩
  · obtain ⟨_, _, hc, ⟨d, hd, e, he, rfl⟩, rfl⟩ := mem_oneOf_mul.1 hb
    obtain rfl := of_decide_eq_true hc
    obtain ⟨hne, hd⟩ := mem_run.1 hd
    have hpoint : ∀ c ∈ ('.' :: (d ++ e)).head?, c.isDigit = false := by
      rintro _ ⟨⟩
      rfl
    have hhead := not_isDigit_of_mem_optional he
    simp only [Decimal.read?, takeWhile_append ha hpoint, dropWhile_append ha hpoint,
      takeWhile_append hd hhead, dropWhile_append hd hhead, List.append_eq_nil_iff, hne, and_false,
      if_false, Option.isSome_map]
    exact isSome_readExponent? he
  · obtain ⟨c, cs, rfl, hc, hdot⟩ := exists_mark_of_mem_exponent hb
    have hhead := not_isDigit_of_mem_optional (.inr hb)
    have hpoint : ∀ ds, c :: cs ≠ '.' :: ds := by
      rintro ds ⟨⟩
      exact hdot rfl
    simp only [Decimal.read?, takeWhile_append ha hhead, dropWhile_append ha hhead,
      List.append_nil, hne, if_false, Option.isSome_map]
    exact isSome_readExponent? (.inr hb)

/-- A number of digits is in range if it is not too large. -/
theorem checked_isSome_iff (n : Nat) :
    (checked n).isSome = true ↔ (n : Int) ≤ Int64.maxValue.toInt := by
  have hmin : Int64.minValue.toInt ≤ n := le_trans (by decide) (Int.natCast_nonneg n)
  rw [checked]
  split
  · next h => exact ⟨fun _ => h.2, fun _ => rfl⟩
  · next h => exact ⟨nofun, fun hn => absurd ⟨hmin, hn⟩ h⟩

theorem lt_of_isAlpha {c : Char} (hc : c.isAlpha = true) : c.toNat < 128 := by
  have hstart : isNameStart c = true := by rw [isNameStart, hc, Bool.true_or]
  rcases isNameStart_iff.1 hstart with h | h | rfl
  · omega
  · omega
  · decide

/-- A word up to case is that word in capital or small letters if its characters are in ASCII. -/
theorem map_toLower_eq_iff {letters : List Char} (hw : w ∈ upToCase letters)
    (hl : ∀ c ∈ letters, c.isLower = true) :
    w.map Char.toLower = letters ↔ ∀ c ∈ w, c.toNat < 128 := by
  induction hw with
  | nil => exact ⟨fun _ => nofun, fun _ => rfl⟩
  | @cons small c letters w hc _ ih =>
    simp only [List.mem_cons, forall_eq_or_imp] at hl
    have hhead : c.toLower = small ↔ c.toNat < 128 := by
      constructor
      · rintro rfl
        exact lt_of_isAlpha (isAlpha_of_isLower_toLower hl.1)
      · intro hlt
        rcases sameLetter_iff.1 hc with h | ⟨-, rfl⟩ | ⟨-, rfl⟩
        · exact h
        · exact absurd hlt (by decide)
        · exact absurd hlt (by decide)
    rw [List.map_cons, List.cons.injEq, hhead, ih hl.2]
    simp

namespace Lexeme

/-- An integer is in range. -/
def Fits (l : Lexeme) : Prop :=
  l.lexemeClass = .integer → (ofDigits l.text : Int) ≤ Int64.maxValue.toInt

/-- A truth value is spelt in ASCII letters. -/
def InAscii (l : Lexeme) : Prop :=
  ∀ letters value, l.lexemeClass = .truth letters value → ∀ c ∈ l.text, c.toNat < 128

/-- The lexeme can be formed. -/
def Formed (l : Lexeme) : Prop := l.Fits ∧ l.InAscii

/-- The token of a lexeme, if it denotes one. -/
def token? (l : Lexeme) : Option Token :=
  match l.lexemeClass.read l.text with
  | .token t => some t
  | _ => none

variable {l : Lexeme} (hc : l.lexemeClass ∈ LexemeClass.all) (hw : l.text ∈ l.lexemeClass.language)
include hc hw

/-- What can be formed is a token, but for the blanks. -/
theorem read_of_formed (h : l.Formed) :
    l.lexemeClass = .gap ∧ l.lexemeClass.read l.text = .nothing ∨
    l.lexemeClass ≠ .gap ∧ ∃ t, l.lexemeClass.read l.text = .token t := by
  obtain ⟨c, w⟩ := l
  have hspelt := LexemeClass.wellSpelt_of_mem c hc
  cases c with
  | gap => exact .inl ⟨rfl, rfl⟩
  | truth letters value =>
    have hlower := (map_toLower_eq_iff hw (List.all_eq_true.1 hspelt.2)).2 (h.2 letters value rfl)
    exact .inr ⟨nofun, .bool value, if_pos hlower⟩
  | integer =>
    obtain ⟨n, hn⟩ := Option.isSome_iff_exists.1 ((checked_isSome_iff _).2 (h.1 rfl))
    refine .inr ⟨nofun, .integer n, ?_⟩
    simp only [LexemeClass.read, hn]
  | real =>
    obtain ⟨d, hd⟩ := Option.isSome_iff_exists.1 (isSome_read? hw)
    refine .inr ⟨nofun, .real (d.toBinary64 false), ?_⟩
    simp only [LexemeClass.read, hd]
  | _ => exact .inr ⟨nofun, _, rfl⟩

theorem token?_eq_none_iff (h : l.Formed) : l.token? = none ↔ l.lexemeClass = .gap := by
  rcases l.read_of_formed hc hw h with ⟨hgap, hread⟩ | ⟨hgap, t, hread⟩
  · rw [token?, hread]
    exact ⟨fun _ => hgap, fun _ => rfl⟩
  · rw [token?, hread]
    exact ⟨nofun, fun h => absurd h hgap⟩

/-- What cannot be formed is a fault. -/
theorem read_of_not_formed (h : ¬ l.Formed) :
    ∃ fault, l.lexemeClass.read l.text = .fault fault := by
  obtain ⟨c, w⟩ := l
  have hspelt := LexemeClass.wellSpelt_of_mem c hc
  cases c with
  | truth letters value =>
    have hlower : w.map Char.toLower ≠ letters.toList := by
      intro heq
      refine h ⟨nofun, ?_⟩
      rintro _ _ ⟨⟩
      exact (map_toLower_eq_iff hw (List.all_eq_true.1 hspelt.2)).1 heq
    exact ⟨_, if_neg hlower⟩
  | integer =>
    have hchecked : checked (ofDigits w) = none := by
      rw [← Option.not_isSome_iff_eq_none, checked_isSome_iff]
      exact fun hle => h ⟨fun _ => hle, nofun⟩
    refine ⟨.literalTooLarge, ?_⟩
    simp only [LexemeClass.read, hchecked]
  | _ => exact absurd ⟨nofun, nofun⟩ h

end Lexeme

/-! ## Texts that split -/

/-- From left to right the text is these longest lexemes, and the rest is left of it. -/
inductive Splits : List Char → List Lexeme → List Char → Prop
  | nil (cs : List Char) : Splits cs [] cs
  | cons {l : Lexeme} {ls : List Lexeme} {cs rest : List Char} : l.Begins (l.text ++ cs) →
      Splits cs ls rest → Splits (l.text ++ cs) (l :: ls) rest

/-- The lexeme that is found is the first of the text. -/
theorem Splits.of_longest? {m : Match} (h : longest? cs = some m)
    (hs : Splits (cs.drop m.length) ls rest) :
    Splits cs (⟨m.lexemeClass, cs.take m.length⟩ :: ls) rest := by
  have hbegins := (begins_of_longest? h).1
  have hcs : cs.take m.length ++ cs.drop m.length = cs := List.take_append_drop m.length cs
  have hsplits := Splits.cons (l := ⟨m.lexemeClass, cs.take m.length⟩) (hcs.symm ▸ hbegins) hs
  rwa [hcs] at hsplits

/-- There is a rest, and no lexeme that can be formed begins it. -/
def Stuck (rest : List Char) : Prop := rest ≠ [] ∧ ∀ l : Lexeme, l.Begins rest → ¬ l.Formed

/-- The tokens of lexemes behind a text: each on the line after as many as end in the text before
its lexeme. -/
def placed (before : List Char) : List Lexeme → List PlacedToken
  | [] => []
  | l :: ls =>
    match l.token? with
    | some t => ⟨t, 1 + before.count '\n'⟩ :: placed (before ++ l.text) ls
    | none => placed (before ++ l.text) ls

/-- The text of lexemes. -/
def Lexeme.texts (ls : List Lexeme) : List Char := ls.flatMap (·.text)

/-- Each text splits into lexemes that can be formed, up to its end or to where it is stuck. -/
theorem exists_splits (cs : List Char) :
    ∃ ls rest, Splits cs ls rest ∧ (∀ l ∈ ls, l.Formed) ∧ (rest = [] ∨ Stuck rest) := by
  induction hlen : cs.length using Nat.strong_induction_on generalizing cs with
  | h n ih =>
    by_cases hbegins : ∃ l : Lexeme, l.Begins cs ∧ l.Formed
    · obtain ⟨l, hl, hformed⟩ := hbegins
      obtain ⟨rest, rfl⟩ := hl.begins
      have hpos := List.length_pos_of_ne_nil (LexemeClass.ne_nil_of_mem hl.mem_all hl.mem)
      rw [List.length_append] at hlen
      obtain ⟨ls, rest', hsplits, hls, hrest⟩ := ih rest.length (by omega) rest rfl
      refine ⟨l :: ls, rest', .cons hl hsplits, ?_, hrest⟩
      rintro l' hl'
      rcases List.mem_cons.1 hl' with rfl | hl'
      · exact hformed
      · exact hls l' hl'
    · refine ⟨[], cs, .nil cs, nofun, ?_⟩
      by_cases hne : cs = []
      · exact .inl hne
      · exact .inr ⟨hne, fun l hl hformed => hbegins ⟨l, hl, hformed⟩⟩

/-- Only blanks denote no token. -/
theorem Splits.token?_eq_none_iff (h : Splits cs ls rest) (hls : ∀ l ∈ ls, l.Formed) :
    ∀ l ∈ ls, l.token? = none ↔ l.lexemeClass = .gap := by
  induction h with
  | nil => nofun
  | @cons l ls _ _ hl _ ih =>
    intro l' hl'
    rcases List.mem_cons.1 hl' with rfl | hl'
    · exact l'.token?_eq_none_iff hl.mem_all hl.mem (hls l' List.mem_cons_self)
    · exact ih (fun l'' hl'' => hls l'' (List.mem_cons_of_mem l hl'')) l' hl'

/-! ## Tokens -/

/-- The first lexeme is read, and the rest of the text behind it. -/
theorem tokensFrom_append (line : Nat) (h : l.Begins (l.text ++ cs)) :
    tokensFrom line (l.text ++ cs) = match l.lexemeClass.read l.text with
      | .fault fault => .error ⟨fault, line⟩
      | .nothing => tokensFrom (line + l.text.count '\n') cs
      | .token t => (tokensFrom (line + l.text.count '\n') cs).map (⟨t, line⟩ :: ·) := by
  have hlongest := longest?_of_begins h
  obtain ⟨c, text⟩ := l
  obtain ⟨x, xs, rfl⟩ := List.exists_cons_of_ne_nil (LexemeClass.ne_nil_of_mem h.mem_all h.mem)
  simp only [List.cons_append] at hlongest ⊢
  rw [tokensFrom, hlongest]
  cases hread : c.read (x :: xs) <;> simp [hread]

/-- Where no lexeme begins nothing is read. -/
theorem tokensFrom_of_not_begins (line : Nat) (hne : cs ≠ []) (h : ∀ l : Lexeme, ¬ l.Begins cs) :
    tokensFrom line cs = .error ⟨strayFault cs, line⟩ := by
  obtain ⟨x, xs, rfl⟩ := List.exists_cons_of_ne_nil hne
  have hlongest : longest? (x :: xs) = none := by
    rw [Option.eq_none_iff_forall_ne_some]
    exact fun m hm => h _ (begins_of_longest? hm).1
  rw [tokensFrom, hlongest]

/-- A text that is stuck is refused on its first line. -/
theorem tokensFrom_of_stuck (line : Nat) (h : Stuck cs) :
    ∃ fault, tokensFrom line cs = .error ⟨fault, line⟩ := by
  by_cases hbegins : ∃ l : Lexeme, l.Begins cs
  · obtain ⟨l, hl⟩ := hbegins
    obtain ⟨rest, rfl⟩ := hl.begins
    obtain ⟨fault, hfault⟩ := Lexeme.read_of_not_formed hl.mem_all hl.mem (h.2 l hl)
    exact ⟨fault, by rw [tokensFrom_append line hl, hfault]⟩
  · exact ⟨_, tokensFrom_of_not_begins line h.1 fun l hl => hbegins ⟨l, hl⟩⟩

/-- The tokens of a text that splits: those of its lexemes, and then those of the rest. -/
theorem tokensFrom_of_splits (h : Splits cs ls rest) (hls : ∀ l ∈ ls, l.Formed)
    (before : List Char) :
    tokensFrom (1 + before.count '\n') cs =
      (tokensFrom (1 + (before ++ Lexeme.texts ls).count '\n') rest).map (placed before ls ++ ·) := by
  induction h generalizing before with
  | nil cs =>
    rw [Lexeme.texts, List.flatMap_nil, List.append_nil]
    cases tokensFrom (1 + before.count '\n') cs <;> rfl
  | @cons l ls cs rest hl hsplits ih =>
    have ih := ih (fun l' hl' => hls l' (List.mem_cons_of_mem l hl')) (before ++ l.text)
    have hline : 1 + before.count '\n' + l.text.count '\n' =
        1 + (before ++ l.text).count '\n' := by
      rw [List.count_append, Nat.add_assoc]
    have htexts : before ++ l.text ++ Lexeme.texts ls = before ++ Lexeme.texts (l :: ls) := by
      rw [Lexeme.texts, Lexeme.texts, List.flatMap_cons, List.append_assoc]
    rw [tokensFrom_append _ hl, hline, ih, htexts]
    generalize tokensFrom (1 + (before ++ Lexeme.texts (l :: ls)).count '\n') rest = r
    rcases Lexeme.read_of_formed hl.mem_all hl.mem (hls l List.mem_cons_self) with
      ⟨-, hread⟩ | ⟨-, t, hread⟩
    · simp only [hread, placed, Lexeme.token?]
    · cases r <;> simp [hread, placed, Lexeme.token?, Except.map]

section
variable {source : String} (hsplits : Splits source.toList ls rest) (hls : ∀ l ∈ ls, l.Formed)
include hsplits hls

/-- A source that splits to its end gives the tokens of its lexemes. -/
theorem tokenize_of_splits (hrest : rest = []) : tokenize source = .ok (placed [] ls) := by
  subst hrest
  have h := tokensFrom_of_splits hsplits hls []
  rw [tokensFrom] at h
  rw [tokenize]
  simpa [Except.map] using h

/-- A source that is stuck is refused on the line where it is. -/
theorem tokenize_of_stuck (hrest : Stuck rest) :
    ∃ fault, tokenize source = .error ⟨fault, 1 + (Lexeme.texts ls).count '\n'⟩ := by
  obtain ⟨fault, hfault⟩ := tokensFrom_of_stuck (1 + (Lexeme.texts ls).count '\n') hrest
  refine ⟨fault, ?_⟩
  have h := tokensFrom_of_splits hsplits hls []
  rw [List.nil_append, hfault] at h
  exact h

end

/-- **Tokenizing is longest match.**  A source gives tokens just if it splits into longest lexemes
that can all be formed, and these are the tokens of its lexemes but the blanks, each on the line
after as many as end before it.  Otherwise it is refused on the line of the first lexeme that cannot
be formed. -/
theorem tokenize_longest_match (source : String) :
    (∀ ts, tokenize source = .ok ts ↔
      ∃ ls, Splits source.toList ls [] ∧ (∀ l ∈ ls, l.Formed) ∧ ts = placed [] ls) ∧
    (∀ ls rest, Splits source.toList ls rest → (∀ l ∈ ls, l.Formed) →
      ∀ l ∈ ls, l.token? = none ↔ l.lexemeClass = .gap) ∧
    ∀ e, tokenize source = .error e → ∃ ls rest, Splits source.toList ls rest ∧
      (∀ l ∈ ls, l.Formed) ∧ Stuck rest ∧ e.line = 1 + (Lexeme.texts ls).count '\n' := by
  obtain ⟨ls, rest, hsplits, hls, hrest⟩ := exists_splits source.toList
  refine ⟨fun ts => ⟨fun hts => ?_, ?_⟩, fun ls rest h hls => h.token?_eq_none_iff hls,
    fun e he => ?_⟩
  · rcases hrest with rfl | hrest
    · rw [tokenize_of_splits hsplits hls rfl] at hts
      cases hts
      exact ⟨ls, hsplits, hls, rfl⟩
    · obtain ⟨fault, hfault⟩ := tokenize_of_stuck hsplits hls hrest
      rw [hfault] at hts
      cases hts
  · rintro ⟨ls, hsplits, hls, rfl⟩
    exact tokenize_of_splits hsplits hls rfl
  · rcases hrest with rfl | hrest
    · rw [tokenize_of_splits hsplits hls rfl] at he
      cases he
    · obtain ⟨fault, hfault⟩ := tokenize_of_stuck hsplits hls hrest
      rw [hfault] at he
      cases he
      exact ⟨ls, rest, hsplits, hls, hrest, rfl⟩

/-- By the simple case folding of Unicode the long s is an `s`, so that this text is a lexeme, but it
is no truth value. -/
theorem truth_value_with_long_s_refused :
    (∃ ls, Splits "fal\u017fe".toList ls [] ∧ ∀ l ∈ ls, l.Fits) ∧
      tokenize "fal\u017fe" = .error ⟨.invalidCharacter "fal\u017fe", 1⟩ := by
  have hlongest : longest? "fal\u017fe".toList = some ⟨.truth "false" false, 5⟩ := rfl
  let l : Lexeme := ⟨.truth "false" false, "fal\u017fe".toList⟩
  have hbegins : l.Begins (l.text ++ []) := (begins_of_longest? hlongest).1
  constructor
  · refine ⟨[l], .cons hbegins (.nil []), ?_⟩
    rintro _ (_ | ⟨_, ⟨⟩⟩)
    exact nofun
  · have hread : l.lexemeClass.read l.text = .fault (.invalidCharacter "fal\u017fe") := rfl
    have htokens := tokensFrom_append 1 hbegins
    rw [hread] at htokens
    exact htokens

end BasicScript
