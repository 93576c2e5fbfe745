/-
  Numbers written as texts, and infinity.

  * `Number.isFinite`: an integer, or a finite real; `isFinite_of_parseNumber?`: what a text is worth
    in arithmetic.
  * `tokenize_lexeme`: a source that is one lexeme.
  * `RealLiteral w d x`: the numeral `w` is read as the decimal `d` and denotes the real `x`, which is
    infinite if the decimal is too large.
  * `Lexeme.RealFits`: a real numeral is not too large; `reals_finite_iff`: all real tokens are finite
    if all real numerals are so.
  * `numbers_of_texts`: texts never give anything but finite numbers, and literals never but for real
    numerals that are too large.
-/
import Mathlib.Algebra.Order.Field.Basic
import BasicScript.Proofs.Token.Lines
import BasicScript.Proofs.Token.QuotedTexts
import BasicScript.Proofs.Number.Decimals
import BasicScript.Value.Coercion

namespace BasicScript

variable {w : List Char} {x : Binary64} {d : Decimal} {l : Lexeme}

/-! ## What a text is worth -/

/-- The number is an integer or a finite real. -/
def Number.isFinite : Number → Bool
  | integer _ => true
  | real x => x.isFinite

theorem isFinite_of_readReal? {cs : List Char} (h : readReal? cs = some x) : x.isFinite = true := by
  unfold readReal? at h
  exact (Option.filter_eq_some_iff.1 h).2

theorem isFinite_of_parseNumber? {s : String} {n : Number} (h : parseNumber? s = some n) :
    n.isFinite = true := by
  simp only [parseNumber?] at h
  split at h
  · cases h
    rfl
  · obtain ⟨x, hx, rfl⟩ := Option.map_eq_some_iff.1 h
    exact isFinite_of_readReal? hx

theorem isFinite_of_toNumber_text {s : String} {n : Number} (h : (Value.text s).toNumber = .ok n) :
    n.isFinite = true := by
  rw [Value.toNumber] at h
  split at h
  · next m hm =>
    cases h
    exact isFinite_of_parseNumber? hm
  · cases h

/-! ## Numerals -/

/-- A source that is one lexeme, other than a name, is read as this lexeme. -/
theorem tokenize_lexeme (hc : l.lexemeClass ∈ LexemeClass.all)
    (hmem : l.text ∈ l.lexemeClass.language) (hname : l.lexemeClass ≠ .name) :
    tokenize (String.ofList l.text) = match l.lexemeClass.read l.text with
      | .fault fault => .error ⟨fault, 1⟩
      | .nothing => .ok []
      | .token t => .ok [⟨t, 1⟩] := by
  have htokens := tokensFrom_append 1 (l.begins_self hc hmem hname)
  rw [List.append_nil, tokensFrom] at htokens
  rw [tokenize, String.toList_ofList, htokens]
  cases l.lexemeClass.read l.text <;> rfl

/-- The numeral `w` is read as the decimal `d`, and `x` is the real nearest to it, which is infinite
if the decimal reaches the limit. -/
structure RealLiteral (w : List Char) (d : Decimal) (x : Binary64) : Prop where
  numeral : w ∈ realNumeral
  read : Decimal.read? w = some d
  nearest : x = d.toBinary64 false
  isFinite_iff : x.isFinite = true ↔ d.value < overflowLimit
  infinite : overflowLimit ≤ d.value → x = .infinite false

theorem exists_realLiteral (hw : w ∈ realNumeral) :
    ∃ d, RealLiteral w d (d.toBinary64 false) := by
  obtain ⟨d, hd⟩ := Option.isSome_iff_exists.1 (isSome_read? hw)
  exact ⟨d, hw, hd, rfl, Decimal.isFinite_toBinary64_iff, Decimal.toBinary64_of_overflow⟩

theorem read_real (h : RealLiteral w d x) : LexemeClass.real.read w = .token (.real x) := by
  rw [LexemeClass.read, h.read, h.nearest]

/-- The token is a real. -/
def Token.isReal : Token → Bool
  | real _ => true
  | _ => false

theorem LexemeClass.isReal_of_ownToken? : ∀ c ∈ all, ∀ t ∈ c.ownToken?, t.isReal = false := by
  decide +kernel

/-- Only real numerals are read as reals. -/
theorem LexemeClass.eq_real_of_read {c : LexemeClass} (hc : c ∈ all)
    (h : c.read w = .token (.real x)) : c = real := by
  have hown := isReal_of_ownToken? c hc
  cases c with
  | word letters t | sign spelling t =>
    cases h
    exact nomatch hown _ rfl
  | truth | integer =>
    rw [read] at h
    split at h <;> cases h
  | real => rfl
  | _ => cases h

/-- A token that is a real comes from a lexeme that is a real numeral. -/
theorem exists_realLiteral_of_mem {cs rest before : List Char} {ls : List Lexeme} {t : PlacedToken}
    (h : Splits cs ls rest) (ht : t ∈ placed before ls) (hx : t.token = .real x) :
    ∃ l ∈ ls, ∃ d, l.lexemeClass = .real ∧ RealLiteral l.text d x := by
  obtain ⟨first, l, last, rfl, htoken, -⟩ := exists_of_mem_placed ht
  have hl : l ∈ first ++ l :: last := List.mem_append_right _ List.mem_cons_self
  obtain ⟨rest, hbegins⟩ := h.begins hl
  have hread := Lexeme.read_of_token? htoken
  have hreal := LexemeClass.eq_real_of_read hbegins.mem_all (hx ▸ hread)
  have hmem := hbegins.mem
  rw [hreal] at hmem
  obtain ⟨d, hd⟩ := exists_realLiteral hmem
  rw [hreal, read_real hd, hx] at hread
  cases hread
  exact ⟨l, hl, d, hreal, hd⟩

theorem mem_placed_of_token? {t : Token} {ls : List Lexeme} (hl : l ∈ ls) (h : l.token? = some t)
    (before : List Char) : ∃ line, ⟨t, line⟩ ∈ placed before ls := by
  induction ls generalizing before with
  | nil => cases hl
  | cons l' ls ih =>
    rw [placed]
    rcases List.mem_cons.1 hl with rfl | hl
    · rw [h]
      exact ⟨_, List.mem_cons_self⟩
    · obtain ⟨line, hline⟩ := ih hl (before ++ l'.text)
      split
      · exact ⟨line, List.mem_cons_of_mem _ hline⟩
      · exact ⟨line, hline⟩

/-- A real numeral is below the limit. -/
def Lexeme.RealFits (l : Lexeme) : Prop :=
  l.lexemeClass = .real → ∀ d ∈ Decimal.read? l.text, d.value < overflowLimit

/-- The real tokens of lexemes are finite if the real numerals among these are below the limit. -/
theorem reals_finite_iff {cs rest before : List Char} {ls : List Lexeme} (h : Splits cs ls rest) :
    (∀ t ∈ placed before ls, ∀ x, t.token = .real x → x.isFinite = true) ↔
      ∀ l ∈ ls, l.RealFits := by
  constructor
  · intro hfinite l hl hreal d hd
    have htoken : l.token? = some (.real (d.toBinary64 false)) := by
      rw [Lexeme.token?, hreal, LexemeClass.read, Option.mem_def.1 hd]
    obtain ⟨line, hline⟩ := mem_placed_of_token? hl htoken before
    exact Decimal.isFinite_toBinary64_iff.1 (hfinite _ hline _ rfl)
  · intro hfits t ht x hx
    obtain ⟨l, hl, d, hreal, hd⟩ := exists_realLiteral_of_mem h ht hx
    exact hd.isFinite_iff.2 (hfits l hl hreal d hd.read)

theorem LexemeClass.integer_mem_all : integer ∈ all := by decide +kernel

theorem LexemeClass.real_mem_all : real ∈ all := by decide +kernel

theorem tokenize_integer (hw : w ∈ run Char.isDigit) :
    tokenize (String.ofList w) = match checked (ofDigits w) with
      | some n => .ok [⟨.integer n, 1⟩]
      | none => .error ⟨.literalTooLarge, 1⟩ := by
  have htokens := tokenize_lexeme (l := ⟨.integer, w⟩) LexemeClass.integer_mem_all hw nofun
  rw [LexemeClass.read] at htokens
  rw [htokens]
  cases checked (ofDigits w) <;> rfl

theorem tokenize_real (h : RealLiteral w d x) : tokenize (String.ofList w) = .ok [⟨.real x, 1⟩] := by
  have htokens := tokenize_lexeme (l := ⟨.real, w⟩) LexemeClass.real_mem_all h.numeral nofun
  rwa [read_real h] at htokens

/-- **Numbers written as texts.**  What a text is worth in arithmetic is an integer or a finite real.
Of a source that is read all integers fit, and its real tokens are those of its real numerals: the
reals nearest to them, and from `2^1024 - 2^970` on infinity.  So they are all finite exactly if no
real numeral is too large.  Digits alone are an integer, or refused as too large, whereas a real
numeral is never refused. -/
theorem numbers_of_texts (source : String) :
    (∀ n, parseNumber? source = some n → n.isFinite = true) ∧
    (∀ n, (Value.text source).toNumber = .ok n → n.isFinite = true) ∧
    (∀ ts, tokenize source = .ok ts → ∃ ls, Splits source.toList ls [] ∧ (∀ l ∈ ls, l.Fits) ∧
      (∀ t ∈ ts, ∀ x, t.token = .real x →
        ∃ l ∈ ls, ∃ d, l.lexemeClass = .real ∧ RealLiteral l.text d x) ∧
      ((∀ t ∈ ts, ∀ x, t.token = .real x → x.isFinite = true) ↔ ∀ l ∈ ls, l.RealFits)) ∧
    (source.toList ∈ run Char.isDigit → tokenize source = match checked (ofDigits source.toList) with
      | some n => .ok [⟨.integer n, 1⟩]
      | none => .error ⟨.literalTooLarge, 1⟩) ∧
    (source.toList ∈ realNumeral → ∃ d x, RealLiteral source.toList d x ∧
      tokenize source = .ok [⟨.real x, 1⟩]) := by
  refine ⟨fun n => isFinite_of_parseNumber?, fun n => isFinite_of_toNumber_text, fun ts hts => ?_,
    fun hw => ?_, fun hw => ?_⟩
  · obtain ⟨ls, hsplits, hformed, rfl⟩ := exists_placed_of_tokenize hts
    exact ⟨ls, hsplits, fun l hl => (hformed l hl).1,
      fun t ht x => exists_realLiteral_of_mem hsplits ht, reals_finite_iff hsplits⟩
  · rw [← tokenize_integer hw, String.ofList_toList]
  · obtain ⟨d, hd⟩ := exists_realLiteral hw
    have htokens := tokenize_real hd
    rw [String.ofList_toList] at htokens
    exact ⟨d, _, hd, htokens⟩

theorem mem_realNumeral_of_realSpan (h : realSpan w = some w.length) : w ∈ realNumeral := by
  obtain ⟨u, hu, rest, rfl, hlen⟩ := measures_realSpan.sound h
  have hrest : rest = [] := by
    rw [List.length_append] at hlen
    exact List.eq_nil_of_length_eq_zero (by omega)
  rwa [hrest, List.append_nil]

/-- A small real numeral, and a text of digits with a point. -/
theorem numbers_of_texts_half :
    (∃ x, tokenize ".5" = .ok [⟨.real x, 1⟩] ∧ x.isFinite = true) ∧
      (parseNumber? " 2.5" = some (.real (.finite false 5629499534213120 1023 (by decide))) ∧
        (Number.real (.finite false 5629499534213120 1023 (by decide))).isFinite = true) := by
  have hw : ".5".toList ∈ realNumeral := mem_realNumeral_of_realSpan (by decide)
  obtain ⟨d, x, hx, htokens⟩ := (numbers_of_texts ".5").2.2.2.2 hw
  have hd : d = ⟨5, -1⟩ := by
    have hread : Decimal.read? ".5".toList = some ⟨5, -1⟩ := by decide +kernel
    exact Option.some.inj (hx.read.symm.trans hread)
  have hparse : parseNumber? " 2.5" =
      some (.real (.finite false 5629499534213120 1023 (by decide))) := by decide +kernel
  have hvalue : d.value = 1 / 2 := by
    rw [hd]
    norm_num [Decimal.value]
  refine ⟨⟨x, htokens, hx.isFinite_iff.2 ?_⟩, hparse, (numbers_of_texts _).1 _ hparse⟩
  rw [hvalue]
  exact one_half_lt_one.trans_le one_le_overflowLimit

/-- A real numeral that is too large is no fault, but infinity, whereas the same text is worth no
number. -/
theorem real_numeral_infinite :
    tokenize "1e999" = .ok [⟨.real (.infinite false), 1⟩] ∧
      (Binary64.infinite false).isFinite = false ∧ parseNumber? "1e999" = none := by
  have hw : "1e999".toList ∈ realNumeral := mem_realNumeral_of_realSpan (by decide)
  have hread : LexemeClass.real.read "1e999".toList = .token (.real (.infinite false)) := rfl
  have htokens := tokenize_lexeme (l := ⟨.real, "1e999".toList⟩) LexemeClass.real_mem_all hw nofun
  rw [hread] at htokens
  exact ⟨htokens, rfl, by decide +kernel⟩

end BasicScript
