/-
  The case of letters.

  * `SameLetters w w'`: two texts differ at most in the case of their ASCII letters.
  * `Caseless L`: such texts are both in the language or both not; `LexemeClass.caseless_of_mem`:
    so it is with the lexemes of each class.
  * `Lexeme.Respelt l w`: `w` is the lexeme with letters in another case, but for those in quotes
    and those of a remark after its `REM`; `Respelling source source'`: all lexemes are respelt.
  * `Lexeme.Begins.respelt`, `Lexeme.Respelt.read_eq`: a respelt lexeme is the longest one as well,
    and denotes the same.
  * `letter_case_ignored`: a respelt source has the same tokens and is the same program.
-/
import BasicScript.Proofs.Token.Lines
import BasicScript.Parser.Program

namespace BasicScript

open scoped Computability

variable {w w' cs cs' : List Char} {c d : Char}

/-! ## Letters in small and in capitals -/

/-- What holds of the 26 capital letters one by one. -/
theorem of_isUpper {P : Char → Prop} (h : ∀ n < 26, P (Char.ofNat (65 + n)))
    (hc : c.isUpper = true) : P c := by
  obtain ⟨hlow, hhigh⟩ := isUpper_iff.1 hc
  have hP := h (c.toNat - 65) (by omega)
  rwa [show 65 + (c.toNat - 65) = c.toNat by omega, Char.ofNat_toNat] at hP

theorem toLower_of_not_isUpper (hc : ¬ c.isUpper = true) : c.toLower = c :=
  dif_neg fun h => hc (isUpper_iff.2 h)

/-- The function treats each of the 26 capital letters as the small one. -/
abbrev IgnoresCase {α : Type} (f : Char → α) : Prop :=
  ∀ n < 26, f (Char.ofNat (65 + n)).toLower = f (Char.ofNat (65 + n))

/-- So it treats all characters. -/
theorem apply_toLower {α : Type} {f : Char → α} (h : IgnoresCase f) (c : Char) :
    f c.toLower = f c := by
  by_cases hc : c.isUpper = true
  · exact of_isUpper (P := fun c => f c.toLower = f c) h hc
  · rw [toLower_of_not_isUpper hc]

theorem isLower_toLower (hc : c.isUpper = true) : c.toLower.isLower = true :=
  of_isUpper (P := fun c => c.toLower.isLower = true) (by decide) hc

/-- Only letters come in two cases. -/
theorem eq_of_toLower_eq (hc : c.isAlpha = false) (h : c.toLower = d.toLower) : c = d := by
  have hcu : ¬ c.isUpper = true := by
    intro hu
    rw [isAlpha_iff.2 (.inl hu)] at hc
    cases hc
  rw [toLower_of_not_isUpper hcu] at h
  by_cases hdu : d.isUpper = true
  · rw [isAlpha_iff.2 (.inr (h ▸ isLower_toLower hdu))] at hc
    cases hc
  · rw [h, toLower_of_not_isUpper hdu]

theorem sameLetter_toLower (small c : Char) : sameLetter small c.toLower = sameLetter small c := by
  have hlower := apply_toLower (f := Char.toLower) (by decide) c
  have hs := apply_toLower (f := (· == '\u017f')) (by decide) c
  have hk := apply_toLower (f := (· == '\u212a')) (by decide) c
  simp only [sameLetter, hlower, hs, hk]

/-- Two texts are the same up to the case of ASCII letters. -/
def SameLetters (w w' : List Char) : Prop := w.map Char.toLower = w'.map Char.toLower

namespace SameLetters

theorem symm (h : SameLetters w w') : SameLetters w' w := Eq.symm h

theorem eq_nil (h : SameLetters [] w') : w' = [] := List.map_eq_nil_iff.1 (Eq.symm h)

theorem length_eq (h : SameLetters w w') : w.length = w'.length := by
  simpa using congrArg List.length h

theorem append (h : SameLetters w w') (h' : SameLetters cs cs') :
    SameLetters (w ++ cs) (w' ++ cs') := by
  rw [SameLetters, List.map_append, List.map_append, h, h']

theorem take (h : SameLetters w w') (n : Nat) : SameLetters (w.take n) (w'.take n) := by
  rw [SameLetters, List.map_take, List.map_take, h]

theorem exists_append (h : SameLetters (w ++ cs) w') :
    ∃ u v, w' = u ++ v ∧ SameLetters w u ∧ SameLetters cs v := by
  rw [SameLetters, List.map_append] at h
  obtain ⟨u, v, rfl, hu, hv⟩ := List.map_eq_append_iff.1 h.symm
  exact ⟨u, v, rfl, hu.symm, hv.symm⟩

theorem exists_cons (h : SameLetters (c :: cs) w') :
    ∃ d v, w' = d :: v ∧ c.toLower = d.toLower ∧ SameLetters cs v := by
  obtain ⟨d, v, rfl, hd, hv⟩ := List.map_eq_cons_iff.1 h.symm
  exact ⟨d, v, rfl, hd.symm, hv.symm⟩

section
variable {p : Char → Bool} (hp : IgnoresCase p)
include hp

theorem takeWhile (h : SameLetters w w') : SameLetters (w.takeWhile p) (w'.takeWhile p) := by
  have hmap : p ∘ Char.toLower = p := funext (apply_toLower hp)
  rw [SameLetters, ← hmap, ← List.takeWhile_map, ← List.takeWhile_map, h]

theorem dropWhile (h : SameLetters w w') : SameLetters (w.dropWhile p) (w'.dropWhile p) := by
  have hmap : p ∘ Char.toLower = p := funext (apply_toLower hp)
  rw [SameLetters, ← hmap, ← List.dropWhile_map, ← List.dropWhile_map, h]

end

/-- What a function that ignores the case makes of the texts. -/
theorem map_eq {α : Type} {f : Char → α} (h : SameLetters w w') (hf : IgnoresCase f) :
    w.map f = w'.map f := by
  have hmap : ∀ cs : List Char, (cs.map Char.toLower).map f = cs.map f := fun cs => by
    rw [List.map_map]
    exact List.map_congr_left fun c _ => apply_toLower hf c
  rw [← hmap, h, hmap]

theorem count_eq (h : SameLetters w w') : w.count '\n' = w'.count '\n' := by
  have hbits := h.map_eq (f := (· == '\n')) (by decide)
  have hcount : ∀ cs : List Char, cs.count '\n' = (cs.map (· == '\n')).countP id := fun cs => by
    rw [List.countP_map, List.count_eq_countP]
    rfl
  rw [hcount, hbits, ← hcount]

/-- A text without letters has one spelling. -/
theorem eq_of_no_letters (h : SameLetters w w') (hw : ∀ c ∈ w, c.isAlpha = false) : w = w' := by
  induction w generalizing w' with
  | nil => exact h.eq_nil.symm
  | cons c cs ih =>
    obtain ⟨d, v, rfl, hd, hv⟩ := h.exists_cons
    rw [List.forall_mem_cons] at hw
    rw [eq_of_toLower_eq hw.1 hd, ih hv hw.2]

end SameLetters

/-! ## Languages -/

/-- The language does not tell texts apart that are the same up to the case of letters. -/
def Caseless (L : Language Char) : Prop := ∀ w ∈ L, ∀ w', SameLetters w w' → w' ∈ L

section
variable {p : Char → Bool} {L M : Language Char}

theorem caseless_one : Caseless 1 := by
  rintro _ rfl w' h
  exact h.eq_nil

theorem caseless_oneOf (hp : IgnoresCase p) : Caseless (oneOf p) := by
  rintro _ ⟨c, hc, rfl⟩ w' h
  obtain ⟨d, v, rfl, hd, hv⟩ := h.exists_cons
  obtain rfl := hv.eq_nil
  exact ⟨d, by rw [← apply_toLower hp, ← hd, apply_toLower hp, hc], rfl⟩

theorem Caseless.add (hL : Caseless L) (hM : Caseless M) : Caseless (L + M) := by
  rintro w (hw | hw) w' h
  · exact .inl (hL w hw w' h)
  · exact .inr (hM w hw w' h)

theorem Caseless.mul (hL : Caseless L) (hM : Caseless M) : Caseless (L * M) := by
  rintro _ ⟨u, hu, v, hv, rfl⟩ w' h
  obtain ⟨u', v', rfl, hu', hv'⟩ := h.exists_append
  exact Language.append_mem_mul (hL u hu u' hu') (hM v hv v' hv')

theorem Caseless.kstar (hL : Caseless L) : Caseless L∗ := by
  rintro _ ⟨ws, rfl, hws⟩ w' h
  induction ws generalizing w' with
  | nil => exact ⟨[], SameLetters.eq_nil h, nofun⟩
  | cons u ws ih =>
    obtain ⟨u', v', rfl, hu', hv'⟩ := h.exists_append
    rw [List.forall_mem_cons] at hws
    obtain ⟨vs, rfl, hvs⟩ := ih hws.2 v' hv'
    exact ⟨u' :: vs, rfl, List.forall_mem_cons.2 ⟨hL u hws.1 u' hu', hvs⟩⟩

theorem caseless_run (hp : IgnoresCase p) : Caseless (run p) :=
  (caseless_oneOf hp).mul (caseless_oneOf hp).kstar

theorem caseless_upToCase (letters : List Char) : Caseless (upToCase letters) := by
  intro w hw
  induction hw with
  | nil =>
    intro w' h
    obtain rfl := h.eq_nil
    exact .nil
  | cons hc _ ih =>
    intro w' h
    obtain ⟨d, v, rfl, hd, hv⟩ := h.exists_cons
    refine .cons ?_ (ih v hv)
    rw [← sameLetter_toLower, ← hd, sameLetter_toLower, hc]

theorem caseless_exponent : Caseless exponent := by
  have hmark := caseless_oneOf (p := fun c => c = 'e' ∨ c = 'E') (by decide)
  have hsign := caseless_oneOf (p := fun c => c = '+' ∨ c = '-') (by decide)
  exact hmark.mul ((caseless_one.add hsign).mul (caseless_run (by decide)))

theorem caseless_realNumeral : Caseless realNumeral := by
  have hdigits : Caseless (run Char.isDigit) := caseless_run (by decide)
  have hpoint := caseless_oneOf (p := (· = '.')) (by decide)
  have hfraction : Caseless fraction :=
    hpoint.mul (hdigits.mul (caseless_one.add caseless_exponent))
  exact ((hdigits.mul hfraction).add hfraction).add (hdigits.mul caseless_exponent)

theorem caseless_quotedTail {quote : Char} (hquote : quote = '"' ∨ quote = '\'') :
    Caseless (oneOf (· = quote) * quotedTail quote) := by
  have hclosing : Caseless (oneOf (· = quote)) := by
    rcases hquote with rfl | rfl <;> exact caseless_oneOf (by decide)
  have hplain : Caseless (oneOf fun c => c ≠ quote ∧ c ≠ '\\' ∧ isLineEnd c = false) := by
    rcases hquote with rfl | rfl <;> exact caseless_oneOf (by decide)
  have hescape : Caseless (oneOf (· = '\\') * oneOf (· ≠ '\n')) :=
    (caseless_oneOf (by decide)).mul (caseless_oneOf (by decide))
  exact hclosing.mul ((hplain.add hescape).kstar.mul hclosing)

end

namespace LexemeClass

theorem not_isAlpha_of_spelling :
    ∀ c ∈ all, ∀ spelling ∈ c.spelling?, spelling.all (!·.isAlpha) = true := by decide +kernel

/-- The lexemes of a class may be spelt in small letters and in capitals. -/
theorem caseless_of_mem {c : LexemeClass} (hc : c ∈ all) : Caseless c.language := by
  cases c with
  | word letters | truth letters => exact caseless_upToCase letters.toList
  | sign spelling =>
    rintro _ rfl w' h
    have hletters := List.all_eq_true.1 (not_isAlpha_of_spelling _ hc _ rfl)
    exact (h.eq_of_no_letters fun x hx => by simpa using hletters x hx).symm
  | remark =>
    have hblank := caseless_oneOf (p := fun c => c = ' ' ∨ c = '\t') (by decide)
    have hrest := caseless_oneOf (p := fun c => !isLineEnd c) (by decide)
    exact (caseless_upToCase _).mul (caseless_one.add (hblank.mul hrest.kstar))
  | name =>
    exact (caseless_oneOf (by decide)).mul (caseless_oneOf (by decide)).kstar
  | integer => exact caseless_run (by decide)
  | real => exact caseless_realNumeral
  | text quote => exact caseless_quotedTail (wellSpelt_of_mem _ hc)
  | gap => exact caseless_run (by decide)

end LexemeClass

/-! ## Numerals -/

theorem not_isAlpha_of_isDigit (hc : c.isDigit = true) : c.isAlpha = false := by
  by_contra hne
  have hstart : isNameStart c = true := by rw [isNameStart, Bool.eq_true_of_not_eq_false hne]; rfl
  have hletter : startOf c = .letter := if_pos (.inl hstart)
  rw [startOf_of_isDigit hc] at hletter
  cases hletter

theorem SameLetters.eq_of_digits (h : SameLetters w w') (hw : w.all Char.isDigit = true) :
    w = w' :=
  h.eq_of_no_letters fun c hc => not_isAlpha_of_isDigit (List.all_eq_true.1 hw c hc)

theorem SameLetters.of_splitSign (h : SameLetters w w') :
    (splitSign w).1 = (splitSign w').1 ∧ SameLetters (splitSign w).2 (splitSign w').2 := by
  cases w with
  | nil =>
    obtain rfl := h.eq_nil
    exact ⟨rfl, rfl⟩
  | cons c cs =>
    obtain ⟨d, v, rfl, hd, hv⟩ := h.exists_cons
    by_cases hc : c = '-' ∨ c = '+'
    · have halpha : c.isAlpha = false := by rcases hc with rfl | rfl <;> rfl
      obtain rfl := eq_of_toLower_eq halpha hd
      rcases hc with rfl | rfl <;> exact ⟨rfl, hv⟩
    · have hd' : ¬ (d = '-' ∨ d = '+') := by
        intro hsign
        have halpha : d.isAlpha = false := by rcases hsign with rfl | rfl <;> rfl
        exact hc (eq_of_toLower_eq halpha hd.symm ▸ hsign)
      rw [splitSign_of_no_sign hc, splitSign_of_no_sign hd']
      exact ⟨rfl, h⟩

/-- A number is read from its digits, which have one spelling. -/
theorem SameLetters.readSigned?_eq (h : SameLetters w w') (value : List Char → Nat) :
    readSigned? value w = readSigned? value w' := by
  obtain ⟨hsign, hrest⟩ := h.of_splitSign
  by_cases hall : (splitSign w).2.all Char.isDigit = true
  · have heq : splitSign w = splitSign w' :=
      Prod.ext hsign (hrest.eq_of_digits hall)
    rw [readSigned?, readSigned?, heq]
  · have hall' : ¬ (splitSign w').2.all Char.isDigit = true := fun hall' =>
      hall (hrest.symm.eq_of_digits hall' ▸ hall')
    simp only [readSigned?]
    rw [if_neg fun h => hall h.2, if_neg fun h => hall' h.2]

theorem SameLetters.readExponent?_eq (h : SameLetters w w') :
    Decimal.readExponent? w = Decimal.readExponent? w' := by
  cases w with
  | nil =>
    obtain rfl := h.eq_nil
    rfl
  | cons c cs =>
    obtain ⟨d, v, rfl, hd, hv⟩ := h.exists_cons
    have hignores : IgnoresCase fun c => decide (c = 'e' ∨ c = 'E') := by decide
    have hmark : decide (c = 'e' ∨ c = 'E') = decide (d = 'e' ∨ d = 'E') := by
      rw [← apply_toLower hignores c, hd, apply_toLower hignores d]
    simp only [Decimal.readExponent?, decide_eq_decide.1 hmark, hv.readSigned?_eq]

/-- The two cases of the mark of an exponent make no difference to a numeral. -/
theorem SameLetters.read?_eq (h : SameLetters w w') : Decimal.read? w = Decimal.read? w' := by
  have hdigits : ∀ {u v}, SameLetters u v → u.takeWhile Char.isDigit = v.takeWhile Char.isDigit :=
    fun h => (h.takeWhile (by decide)).eq_of_digits List.all_takeWhile
  have hrest := h.dropWhile (p := Char.isDigit) (by decide)
  simp only [Decimal.read?, hdigits h]
  generalize w.dropWhile Char.isDigit = b at hrest
  generalize w'.dropWhile Char.isDigit = b' at hrest
  cases b with
  | nil =>
    obtain rfl := hrest.eq_nil
    rfl
  | cons c ds =>
    obtain ⟨d, ds', rfl, hd, hds⟩ := hrest.exists_cons
    by_cases hc : c = '.'
    · subst hc
      obtain rfl := eq_of_toLower_eq rfl hd
      simp only [hdigits hds, (hds.dropWhile (p := Char.isDigit) (by decide)).readExponent?_eq]
    · have hd' : d ≠ '.' := by
        rintro rfl
        exact hc (eq_of_toLower_eq rfl hd.symm).symm
      simp [hc, hd', hrest.readExponent?_eq]

/-! ## Lexemes -/

namespace Lexeme

/-- The number of characters at the beginning of a lexeme whose case does not count: none if it
stands in quotes, those of `REM` in a remark, and all otherwise. -/
def caseFree (l : Lexeme) : Nat :=
  match l.lexemeClass with
  | .text _ => 0
  | .remark => 3
  | _ => l.text.length

/-- The text is the lexeme with letters in another case, where the case does not count. -/
structure Respelt (l : Lexeme) (w : List Char) : Prop where
  sameLetters : SameLetters l.text w
  kept : w.drop l.caseFree = l.text.drop l.caseFree

variable {l : Lexeme}

/-- A respelt lexeme is the longest one before a rest with the same letters. -/
theorem Begins.respelt (h : l.Begins (l.text ++ cs)) (hw : SameLetters l.text w)
    (hcs : SameLetters cs cs') : Begins ⟨l.lexemeClass, w⟩ (w ++ cs') where
  mem_all := h.mem_all
  mem := LexemeClass.caseless_of_mem h.mem_all _ h.mem w hw
  begins := List.prefix_append w cs'
  longest := by
    -- a longer lexeme of the respelt text would be one of the text as well
    intro c hc u hu hprefix
    have hsame : SameLetters (w ++ cs') (l.text ++ cs) := (hw.append hcs).symm
    rw [List.prefix_iff_eq_take.1 hprefix] at hu
    have hu' := LexemeClass.caseless_of_mem hc _ hu _ (hsame.take u.length)
    have hle := h.longest c hc _ hu' (List.take_prefix _ _)
    have hlen := hprefix.length_le
    have hlen' := hsame.length_eq
    have hlen'' := hw.length_eq
    rw [List.length_take] at hle
    show u.length ≤ w.length
    omega
  tie := by
    intro hname c hc hmem
    have hall := LexemeClass.reserved_subset_all hc
    exact h.tie hname c hc (LexemeClass.caseless_of_mem hall _ hmem _ hw.symm)

/-- A lexeme without a fault denotes the same however it is respelt. -/
theorem Respelt.read_eq (h : l.Respelt w) (hc : l.lexemeClass ∈ LexemeClass.all)
    (hl : l.text ∈ l.lexemeClass.language)
    (hread : ∀ fault, l.lexemeClass.read l.text ≠ .fault fault) :
    l.lexemeClass.read w = l.lexemeClass.read l.text := by
  obtain ⟨c, v⟩ := l
  obtain ⟨hsame, hkept⟩ := h
  cases c with
  | word | sign | gap => rfl
  | truth letters value =>
    have hv : v.map Char.toLower = letters.toList := by
      by_contra hne
      exact hread _ (if_neg hne)
    have hw : w.map Char.toLower = letters.toList := hsame.symm.trans hv
    rw [LexemeClass.read, LexemeClass.read, if_pos hv, if_pos hw]
  | remark =>
    have hw : w.drop 3 = v.drop 3 := hkept
    simp only [LexemeClass.read, hw]
  | name =>
    simp only [LexemeClass.read]
    rw [hsame.map_eq (f := Char.toUpper) (by decide)]
  | integer =>
    obtain rfl := hsame.eq_of_digits (List.all_eq_true.2 (mem_run.1 hl).2)
    rfl
  | real =>
    simp only [LexemeClass.read]
    rw [hsame.read?_eq]
  | text quote =>
    have hw : w = v := hkept
    rw [hw]

end Lexeme

/-! ## Sources -/

/-- The second source is the first with letters in another case, but for those in quotes and those
of remarks. -/
def Respelling (source source' : String) : Prop :=
  ∃ ls ws, Splits source.toList ls [] ∧ List.Forall₂ Lexeme.Respelt ls ws ∧
    source'.toList = ws.flatten

variable {ls : List Lexeme} {ws : List (List Char)}

theorem sameLetters_flatten (h : List.Forall₂ Lexeme.Respelt ls ws) :
    SameLetters (Lexeme.texts ls) ws.flatten := by
  induction h with
  | nil => rfl
  | cons hw _ ih => exact hw.sameLetters.append ih

/-- Where lexemes are tokens they are the same tokens when they are respelt. -/
theorem tokensFrom_respelt {ts : List PlacedToken} {line : Nat} (h : Splits cs ls [])
    (hws : List.Forall₂ Lexeme.Respelt ls ws) (hts : tokensFrom line cs = .ok ts) :
    tokensFrom line ws.flatten = .ok ts := by
  induction hws generalizing cs line ts with
  | nil =>
    cases h
    exact hts
  | @cons l w ls ws hw hws ih =>
    cases h with
    | @cons _ _ cs' _ hl hsplits =>
      have hrest : SameLetters cs' ws.flatten := by
        rw [hsplits.eq_append, List.append_nil]
        exact sameLetters_flatten hws
      have hl' := hl.respelt hw.sameLetters hrest
      have hread := hw.read_eq hl.mem_all hl.mem
      have hws' := tokensFrom_append line hl'
      rw [tokensFrom_append line hl] at hts
      cases hclass : l.lexemeClass.read l.text with
      | fault fault =>
        simp only [hclass] at hts
        cases hts
      | nothing =>
        simp only [hclass] at hts hread
        have hsame := hread (by rintro _ ⟨⟩)
        simp only [hsame, ← hw.sameLetters.count_eq] at hws'
        rw [List.flatten_cons, hws']
        exact ih hsplits hts
      | token t =>
        simp only [hclass] at hts hread
        have hsame := hread (by rintro _ ⟨⟩)
        simp only [hsame, ← hw.sameLetters.count_eq] at hws'
        rw [List.flatten_cons, hws']
        cases hrest : tokensFrom (line + l.text.count '\n') cs' with
        | error e =>
          rw [hrest] at hts
          cases hts
        | ok ts' =>
          rw [hrest] at hts
          rw [ih hsplits hrest]
          exact hts

/-- **The case of letters does not matter.** A source that has tokens has the same tokens on the same
lines when letters that stand neither in quotes nor behind `REM` are written in another case, and it
is the same program or is refused with the same error. -/
theorem letter_case_ignored {source source' : String} {ts : List PlacedToken}
    (h : tokenize source = .ok ts) (hs : Respelling source source') :
    tokenize source' = .ok ts ∧ Program.parse source' = Program.parse source := by
  obtain ⟨ls, ws, hsplits, hws, hsource⟩ := hs
  have hts : tokenize source' = .ok ts := by
    rw [tokenize, hsource]
    exact tokensFrom_respelt hsplits hws h
  refine ⟨hts, ?_⟩
  rw [Program.parse, Program.parse, hts, h]

/-- `REM`, a name, the mark of an exponent and a reserved word in capitals. -/
theorem letter_case_ignored_capitals :
    tokenize "rem Ab\nx=1e2:print\"Cd\"" = .ok [⟨.remark "Ab", 1⟩, ⟨.symbol .newLine, 1⟩,
      ⟨.name "X", 2⟩, ⟨.symbol .equals, 2⟩, ⟨.real ((Decimal.mk 1 2).toBinary64 false), 2⟩,
      ⟨.symbol .colon, 2⟩, ⟨.keyword .print, 2⟩, ⟨.text "Cd", 2⟩] ∧
    Respelling "rem Ab\nx=1e2:print\"Cd\"" "REM Ab\nX=1E2:PRINT\"Cd\"" ∧
    Program.parse "REM Ab\nX=1E2:PRINT\"Cd\"" = Program.parse "rem Ab\nx=1e2:print\"Cd\"" := by
  let ls : List Lexeme := [⟨.remark, "rem Ab".toList⟩, ⟨.sign "\n" (.symbol .newLine), ['\n']⟩,
    ⟨.name, ['x']⟩, ⟨.sign "=" (.symbol .equals), ['=']⟩, ⟨.real, "1e2".toList⟩,
    ⟨.sign ":" (.symbol .colon), [':']⟩, ⟨.word "print" (.keyword .print), "print".toList⟩,
    ⟨.text '"', "\"Cd\"".toList⟩]
  let ws : List (List Char) := ["REM Ab".toList, ['\n'], ['X'], ['='], "1E2".toList, [':'],
    "PRINT".toList, "\"Cd\"".toList]
  have hsplits : Splits "rem Ab\nx=1e2:print\"Cd\"".toList ls [] :=
    .of_longest? (m := ⟨_, 6⟩) rfl <| .of_longest? (m := ⟨_, 1⟩) rfl <|
    .of_longest? (m := ⟨_, 1⟩) rfl <| .of_longest? (m := ⟨_, 1⟩) rfl <|
    .of_longest? (m := ⟨_, 3⟩) rfl <| .of_longest? (m := ⟨_, 1⟩) rfl <|
    .of_longest? (m := ⟨_, 5⟩) rfl <| .of_longest? (m := ⟨_, 4⟩) rfl <| .nil []
  have hformed : ∀ l ∈ ls, l.Formed := by
    simp only [ls, List.forall_mem_cons]
    refine ⟨?_, ?_, ?_, ?_, ?_, ?_, ?_, ?_, nofun⟩ <;> exact ⟨nofun, nofun⟩
  have hws : List.Forall₂ Lexeme.Respelt ls ws := by
    simp only [ls, ws, List.forall₂_cons, List.forall₂_nil_left_iff]
    refine ⟨?_, ?_, ?_, ?_, ?_, ?_, ?_, ?_, trivial⟩ <;> exact ⟨rfl, rfl⟩
  have htokens := tokenize_of_splits hsplits hformed rfl
  have hrespelt : Respelling _ "REM Ab\nX=1E2:PRINT\"Cd\"" := ⟨ls, ws, hsplits, hws, rfl⟩
  exact ⟨htokens, hrespelt, (letter_case_ignored htokens hrespelt).2⟩

end BasicScript
