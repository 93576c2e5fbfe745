/-
  The longest lexeme at the beginning of a text.

  * `Lexeme.Begins l cs`: no class has a longer beginning of the text than `l`, and `l` is no name if
    it is a reserved word, a truth value or a remark as well.
  * `LexemeClass.start`: the kind of character that the lexemes of a class begin with.
  * `eq_newLine_of_mem`: the only lexeme with a line feed is the line feed.
  * `only_names_tie`: a text is in the languages of two classes only if one of them is that of the
    names, so that there is one such lexeme (`Begins.unique`).
  * `begins_of_longest?`, `longest?_of_begins`: it is the lexeme that `longest?` finds.
-/
import BasicScript.Proofs.Token.Language

namespace BasicScript

open scoped Computability

variable {w cs rest : List Char}

/-! ## Letters -/

theorem sameLetter_iff {small c : Char} :
    sameLetter small c = true ↔
      c.toLower = small ∨ small = 's' ∧ c = '\u017f' ∨ small = 'k' ∧ c = '\u212a' := by
  simp [sameLetter, or_assoc]

/-- A character is one small letter at most. -/
theorem eq_of_sameLetter {a b c : Char} (ha : a.isLower = true) (hb : b.isLower = true)
    (hac : sameLetter a c = true) (hbc : sameLetter b c = true) : a = b := by
  rcases sameLetter_iff.1 hac with rfl | ⟨rfl, rfl⟩ | ⟨rfl, rfl⟩ <;>
    rcases sameLetter_iff.1 hbc with rfl | ⟨rfl, hc⟩ | ⟨rfl, hc⟩
  · rfl
  · rw [hc] at ha; cases ha
  · rw [hc] at ha; cases ha
  · cases hb
  · rfl
  · cases hc
  · cases hb
  · cases hc
  · rfl

/-- A text is one word of small letters at most. -/
theorem eq_of_mem_upToCase {letters letters' : List Char} (hw : w ∈ upToCase letters)
    (hw' : w ∈ upToCase letters') (hl : ∀ c ∈ letters, c.isLower = true)
    (hl' : ∀ c ∈ letters', c.isLower = true) : letters = letters' := by
  induction hw generalizing letters' with
  | nil => cases hw'; rfl
  | cons hc _ ih =>
    cases hw' with
    | cons hc' hw' =>
      simp only [List.mem_cons, forall_eq_or_imp] at hl hl'
      rw [eq_of_sameLetter hl.1 hl'.1 hc hc', ih hw' hl.2 hl'.2]

/-- A text that begins with a word is no other word than one that begins so. -/
theorem isPrefix_of_mem_upToCase {u v letters letters' : List Char} (hu : u ∈ upToCase letters)
    (hw : u ++ v ∈ upToCase letters') (hl : ∀ c ∈ letters, c.isLower = true)
    (hl' : ∀ c ∈ letters', c.isLower = true) : letters <+: letters' := by
  have htake : u ∈ upToCase (letters'.take u.length) := List.forall₂_take_append _ _ _ hw
  rw [eq_of_mem_upToCase hu htake hl fun c hc => hl' c (List.mem_of_mem_take hc)]
  exact List.take_prefix _ _

/-! ## How lexemes begin -/

/-- The kinds of characters that lexemes begin with. -/
inductive Start where
  | letter | digit | quote | gap | sign
  deriving DecidableEq

/-- The kind of a character. -/
def startOf (c : Char) : Start :=
  if isNameStart c = true ∨ c = '\u017f' ∨ c = '\u212a' then .letter
  else if c.isDigit = true ∨ c = '.' then .digit
  else if c = '"' ∨ c = '\'' then .quote
  else if isGap c = true then .gap
  else .sign

theorem isUpper_iff {c : Char} : c.isUpper = true ↔ 65 ≤ c.toNat ∧ c.toNat ≤ 90 := by
  change decide (c.val ≥ 'A'.val ∧ c.val ≤ 'Z'.val) = true ↔ _
  simp [UInt32.le_iff_toNat_le, ← Char.toNat_val]

theorem isLower_iff {c : Char} : c.isLower = true ↔ 97 ≤ c.toNat ∧ c.toNat ≤ 122 := by
  change (decide (c.val ≥ 'a'.val) && decide (c.val ≤ 'z'.val)) = true ↔ _
  simp [UInt32.le_iff_toNat_le, ← Char.toNat_val]

theorem isAlpha_iff {c : Char} : c.isAlpha = true ↔ c.isUpper = true ∨ c.isLower = true :=
  Bool.or_eq_true_iff

theorem isAlpha_of_isLower_toLower {c : Char} (h : c.toLower.isLower = true) :
    c.isAlpha = true := by
  rw [isAlpha_iff]
  by_cases hu : c.isUpper = true
  · exact .inl hu
  · have hlower : c.toLower = c := dif_neg fun h => hu (isUpper_iff.2 h)
    rw [hlower] at h
    exact .inr h

theorem isNameStart_iff {c : Char} :
    isNameStart c = true ↔
      65 ≤ c.toNat ∧ c.toNat ≤ 90 ∨ 97 ≤ c.toNat ∧ c.toNat ≤ 122 ∨ c = '_' := by
  rw [isNameStart, Bool.or_eq_true, isAlpha_iff, isUpper_iff, isLower_iff, beq_iff_eq, or_assoc]

theorem startOf_of_sameLetter {small c : Char} (hs : small.isLower = true)
    (hc : sameLetter small c = true) : startOf c = .letter := by
  refine if_pos ?_
  rcases sameLetter_iff.1 hc with rfl | ⟨-, rfl⟩ | ⟨-, rfl⟩
  · left
    rw [isNameStart, isAlpha_of_isLower_toLower hs, Bool.true_or]
  · exact .inr (.inl rfl)
  · exact .inr (.inr rfl)

theorem exists_letter_of_mem_upToCase {letters : List Char} (hne : letters ≠ [])
    (hlower : ∀ c ∈ letters, c.isLower = true) (hw : w ∈ upToCase letters) :
    ∃ x xs, w = x :: xs ∧ startOf x = .letter := by
  cases hw with
  | nil => exact absurd rfl hne
  | cons hx _ => exact ⟨_, _, rfl, startOf_of_sameLetter (hlower _ List.mem_cons_self) hx⟩

theorem startOf_of_isDigit {c : Char} (hc : c.isDigit = true) : startOf c = .digit := by
  have hrange : 48 ≤ c.toNat ∧ c.toNat ≤ 57 := Char.isDigit_iff_toNat.1 hc
  have hletter : ¬ (isNameStart c = true ∨ c = '\u017f' ∨ c = '\u212a') := by
    rw [isNameStart_iff]
    rintro ((h | h | rfl) | rfl | rfl)
    · omega
    · omega
    all_goals exact absurd hc (by decide)
  rw [startOf, if_neg hletter, if_pos (.inl hc)]

theorem startOf_of_isGap {c : Char} (hc : isGap c = true) : startOf c = .gap := by
  simp only [isGap, Bool.or_eq_true, beq_iff_eq] at hc
  rcases hc with ((rfl | rfl) | rfl) | rfl <;> decide

namespace LexemeClass

/-- The kind of character that the lexemes of the class begin with. -/
def start : LexemeClass → Start
  | word .. | truth .. | remark | name => .letter
  | sign .. => .sign
  | integer | real => .digit
  | text _ => .quote
  | gap => .gap

/-- The letters of a reserved word or of a truth value. -/
def letters? : LexemeClass → Option (List Char)
  | word letters _ | truth letters _ => some letters.toList
  | _ => none

/-- The characters of a sign. -/
def spelling? : LexemeClass → Option (List Char)
  | sign spelling _ => some spelling.toList
  | _ => none

/-- The spelling of a class is one that its start fits. -/
def WellSpelt : LexemeClass → Prop
  | word letters _ | truth letters _ =>
    letters.toList ≠ [] ∧ letters.toList.all Char.isLower = true
  | sign spelling _ => spelling.toList.head?.map startOf = some .sign
  | text quote => quote = '"' ∨ quote = '\''
  | _ => True

instance (c : LexemeClass) : Decidable c.WellSpelt := by
  cases c <;> unfold WellSpelt <;> infer_instance

theorem wellSpelt_of_mem : ∀ c ∈ all, c.WellSpelt := by decide +kernel

theorem measures_of_mem {c : LexemeClass} (hc : c ∈ all) : Measures c.span c.language := by
  refine measures_span ?_
  rintro quote rfl
  rcases wellSpelt_of_mem _ hc with rfl | rfl <;> decide

theorem isLower_rem : ∀ c ∈ ['r', 'e', 'm'], c.isLower = true := List.all_eq_true.1 (by decide)

/-- The lexemes of a class begin with a character of its kind. -/
theorem start_of_mem {c : LexemeClass} (hc : c ∈ all) (hw : w ∈ c.language) :
    ∃ x xs, w = x :: xs ∧ startOf x = c.start := by
  have hspelt := wellSpelt_of_mem c hc
  cases c with
  | word letters | truth letters =>
    exact exists_letter_of_mem_upToCase hspelt.1 (List.all_eq_true.1 hspelt.2) hw
  | sign spelling =>
    obtain rfl : w = spelling.toList := hw
    obtain ⟨x, hx, hstart⟩ := Option.map_eq_some_iff.1 hspelt
    obtain ⟨xs, hxs⟩ := List.head?_eq_some_iff.1 hx
    exact ⟨x, xs, hxs, hstart⟩
  | remark =>
    obtain ⟨u, hu, v, -, rfl⟩ := hw
    obtain ⟨x, xs, rfl, hx⟩ := exists_letter_of_mem_upToCase (by decide) isLower_rem hu
    exact ⟨x, xs ++ v, rfl, hx⟩
  | name =>
    obtain ⟨x, xs, hx, -, rfl⟩ := mem_oneOf_mul.1 hw
    exact ⟨x, xs, rfl, if_pos (.inl hx)⟩
  | integer =>
    obtain ⟨x, xs, hx, -, rfl⟩ := mem_oneOf_mul.1 hw
    exact ⟨x, xs, rfl, startOf_of_isDigit hx⟩
  | real =>
    obtain ⟨a, b, rfl, ha, hb⟩ := mem_realNumeral.1 hw
    cases a with
    | cons x xs => exact ⟨x, xs ++ b, rfl, startOf_of_isDigit (ha x List.mem_cons_self)⟩
    | nil =>
      rcases hb with hb | ⟨hne, -⟩
      · obtain ⟨x, xs, hx, -, rfl⟩ := mem_oneOf_mul.1 hb
        obtain rfl := of_decide_eq_true hx
        exact ⟨_, xs, rfl, rfl⟩
      · exact absurd rfl hne
  | text quote =>
    obtain ⟨x, xs, hx, -, rfl⟩ := mem_oneOf_mul.1 hw
    obtain rfl := of_decide_eq_true hx
    refine ⟨x, xs, rfl, ?_⟩
    rcases hspelt with rfl | rfl <;> decide
  | gap =>
    obtain ⟨x, xs, hx, -, rfl⟩ := mem_oneOf_mul.1 hw
    exact ⟨x, xs, rfl, startOf_of_isGap hx⟩

theorem ne_nil_of_mem {c : LexemeClass} (hc : c ∈ all) (hw : w ∈ c.language) : w ≠ [] := by
  obtain ⟨x, xs, rfl, -⟩ := start_of_mem hc hw
  exact List.cons_ne_nil x xs

end LexemeClass

/-! ## Line feeds -/

/-- No text of the language holds a line feed. -/
def OnOneLine (L : Language Char) : Prop := ∀ w ∈ L, '\n' ∉ w

section
variable {p : Char → Bool} {L M : Language Char}

theorem onOneLine_one : OnOneLine 1 := by
  rintro _ rfl
  exact List.not_mem_nil

theorem onOneLine_oneOf (hp : p '\n' = false) : OnOneLine (oneOf p) := by
  rintro _ ⟨c, hc, rfl⟩ hmem
  rw [← List.mem_singleton.1 hmem, hp] at hc
  cases hc

theorem OnOneLine.add (hL : OnOneLine L) (hM : OnOneLine M) : OnOneLine (L + M) := by
  rintro w (hw | hw)
  · exact hL w hw
  · exact hM w hw

theorem OnOneLine.mul (hL : OnOneLine L) (hM : OnOneLine M) : OnOneLine (L * M) := by
  rintro _ ⟨u, hu, v, hv, rfl⟩ hmem
  rcases List.mem_append.1 hmem with hmem | hmem
  · exact hL u hu hmem
  · exact hM v hv hmem

theorem OnOneLine.kstar (hL : OnOneLine L) : OnOneLine L∗ := by
  rintro _ ⟨ws, rfl, hws⟩ hmem
  obtain ⟨u, hu, hmem⟩ := List.mem_flatten.1 hmem
  exact hL u (hws u hu) hmem

theorem onOneLine_run (hp : p '\n' = false) : OnOneLine (run p) :=
  (onOneLine_oneOf hp).mul (onOneLine_oneOf hp).kstar

theorem onOneLine_upToCase {letters : List Char} (hl : ∀ c ∈ letters, c.isLower = true) :
    OnOneLine (upToCase letters) := by
  intro w hw
  induction hw with
  | nil => exact List.not_mem_nil
  | cons hc _ ih =>
    simp only [List.mem_cons, forall_eq_or_imp] at hl
    rw [List.mem_cons, not_or]
    refine ⟨?_, ih hl.2⟩
    rintro rfl
    exact absurd (startOf_of_sameLetter hl.1 hc) (by decide)

theorem onOneLine_exponent : OnOneLine exponent :=
  (onOneLine_oneOf rfl).mul ((onOneLine_one.add (onOneLine_oneOf rfl)).mul (onOneLine_run rfl))

theorem onOneLine_realNumeral : OnOneLine realNumeral := by
  have hfraction : OnOneLine fraction :=
    (onOneLine_oneOf rfl).mul ((onOneLine_run rfl).mul (onOneLine_one.add onOneLine_exponent))
  have hdigits : OnOneLine (run Char.isDigit) := onOneLine_run rfl
  exact ((hdigits.mul hfraction).add hfraction).add (hdigits.mul onOneLine_exponent)

theorem onOneLine_quotedTail {quote : Char} (hquote : quote ≠ '\n') :
    OnOneLine (quotedTail quote) := by
  have hclosing : OnOneLine (oneOf (· = quote)) :=
    onOneLine_oneOf (decide_eq_false hquote.symm)
  have hplain : OnOneLine (oneOf fun c => c ≠ quote ∧ c ≠ '\\' ∧ isLineEnd c = false) :=
    onOneLine_oneOf (decide_eq_false fun h => Bool.noConfusion h.2.2)
  have hescape : OnOneLine (oneOf (· = '\\') * oneOf (· ≠ '\n')) :=
    (onOneLine_oneOf rfl).mul (onOneLine_oneOf rfl)
  exact (hplain.add hescape).kstar.mul hclosing

end

namespace LexemeClass

theorem mem_signs_of_spelling : ∀ c ∈ all, c.spelling? ≠ none → c ∈ signs := by decide +kernel

theorem sign_of_newLine : ∀ c ∈ signs, ∀ spelling ∈ c.spelling?, '\n' ∈ spelling →
    c = sign "\n" (.symbol .newLine) := by decide +kernel

/-- A line feed is a lexeme by itself, so that no other lexeme goes over the end of a line. -/
theorem eq_newLine_of_mem {c : LexemeClass} (hc : c ∈ all) (hw : w ∈ c.language)
    (hmem : '\n' ∈ w) : c = sign "\n" (.symbol .newLine) := by
  have hspelt := wellSpelt_of_mem c hc
  cases c with
  | sign spelling =>
    obtain rfl : w = spelling.toList := hw
    exact sign_of_newLine _ (mem_signs_of_spelling _ hc nofun) _ rfl hmem
  | word letters | truth letters =>
    exact absurd hmem (onOneLine_upToCase (List.all_eq_true.1 hspelt.2) w hw)
  | remark =>
    have htail : OnOneLine remarkTail := (onOneLine_oneOf rfl).mul (onOneLine_oneOf rfl).kstar
    have hremark := (onOneLine_upToCase isLower_rem).mul (onOneLine_one.add htail)
    exact absurd hmem (hremark w hw)
  | name =>
    have hname : OnOneLine (oneOf isNameStart * (oneOf isNamePart)∗) :=
      (onOneLine_oneOf rfl).mul (onOneLine_oneOf rfl).kstar
    exact absurd hmem (hname w hw)
  | integer => exact absurd hmem (onOneLine_run rfl w hw)
  | real => exact absurd hmem (onOneLine_realNumeral w hw)
  | text quote =>
    have hquote : quote ≠ '\n' := by
      rcases hspelt with rfl | rfl <;> decide
    have hopening : OnOneLine (oneOf (· = quote)) :=
      onOneLine_oneOf (decide_eq_false hquote.symm)
    exact absurd hmem (hopening.mul (onOneLine_quotedTail hquote) w hw)
  | gap => exact absurd hmem (onOneLine_run rfl w hw)

/-! ## Ties -/

/-- The classes that win a tie over a name: reserved words, truth values and the remark. -/
def reserved : List LexemeClass := words ++ [remark]

theorem reserved_subset_all : reserved ⊆ all := by
  intro c hc
  rcases List.mem_append.1 hc with hc | hc
  · exact List.mem_append_left _ (List.mem_append_left _ hc)
  · rw [List.mem_singleton.1 hc]
    decide +kernel

-- What follows is about the list of classes itself: whatever has letters is a reserved word, no two
-- words and no two signs are spelt alike, and no word begins with `REM`.

theorem mem_words_of_letters : ∀ c ∈ all, c.letters? ≠ none → c ∈ words := by decide +kernel

theorem eq_of_letters :
    ∀ c ∈ words, ∀ c' ∈ words, c.letters? = c'.letters? → c = c' := by decide +kernel

theorem eq_of_spelling :
    ∀ c ∈ signs, ∀ c' ∈ signs, c.spelling? = c'.spelling? → c = c' := by decide +kernel

theorem letters_ne_rem : ∀ c ∈ words, ∀ letters ∈ c.letters?, ¬ ['r', 'e', 'm'] <+: letters := by
  decide +kernel

theorem language_of_letters {c : LexemeClass} (hc : c ∈ all) {letters : List Char}
    (hl : c.letters? = some letters) :
    c.language = upToCase letters ∧ (∀ x ∈ letters, x.isLower = true) ∧ c.start = .letter := by
  have hspelt := wellSpelt_of_mem c hc
  cases c <;> cases hl <;> exact ⟨rfl, List.all_eq_true.1 hspelt.2, rfl⟩

/-- A text that is a reserved word or a truth value is no lexeme of another class but the names. -/
theorem eq_or_name_of_letters {c c' : LexemeClass} (hc : c ∈ all) (hc' : c' ∈ all)
    (hletters : c.letters? ≠ none) (hw : w ∈ c.language) (hw' : w ∈ c'.language)
    (hstart : c.start = c'.start) : c = c' ∨ c' = name ∧ c ∈ reserved := by
  have hword := mem_words_of_letters c hc hletters
  obtain ⟨letters, hl⟩ := Option.ne_none_iff_exists'.1 hletters
  obtain ⟨hlang, hlower, hletter⟩ := language_of_letters hc hl
  rw [hlang] at hw
  rw [hletter] at hstart
  cases hl' : c'.letters? with
  | some letters' =>
    obtain ⟨hlang', hlower', -⟩ := language_of_letters hc' hl'
    rw [hlang'] at hw'
    have hword' := mem_words_of_letters c' hc' (by simp [hl'])
    left
    refine eq_of_letters c hword c' hword' ?_
    rw [hl, hl', eq_of_mem_upToCase hw hw' hlower hlower']
  | none =>
    cases c' with
    | word | truth => cases hl'
    | name => exact .inr ⟨rfl, List.mem_append_left _ hword⟩
    | remark =>
      obtain ⟨u, hu, v, -, rfl⟩ := hw'
      exact absurd (isPrefix_of_mem_upToCase hu hw isLower_rem hlower)
        (letters_ne_rem c hword letters hl)
    | _ => cases hstart

theorem not_mem_real_of_mem_integer (hw : w ∈ integer.language) : w ∉ real.language := by
  intro hw'
  obtain ⟨-, hdigits⟩ := mem_run.1 hw
  obtain ⟨a, b, rfl, -, hb⟩ := mem_realNumeral.1 hw'
  have hhead : ∃ x xs, b = x :: xs ∧ x.isDigit = false := by
    rcases hb with hb | ⟨-, hb⟩
    · obtain ⟨x, xs, hx, -, rfl⟩ := mem_oneOf_mul.1 hb
      obtain rfl := of_decide_eq_true hx
      exact ⟨_, xs, rfl, rfl⟩
    · obtain ⟨x, xs, rfl, hx, -⟩ := exists_mark_of_mem_exponent hb
      exact ⟨x, xs, rfl, hx⟩
  obtain ⟨x, xs, rfl, hx⟩ := hhead
  rw [hdigits x (by simp)] at hx
  cases hx

/-- The classes without letters begin in different ways, or a character of the lexeme tells them
apart. -/
theorem eq_or_name_of_no_letters {c c' : LexemeClass} (hc : c ∈ all) (hc' : c' ∈ all)
    (hl : c.letters? = none) (hl' : c'.letters? = none) (hw : w ∈ c.language)
    (hw' : w ∈ c'.language) (hstart : c.start = c'.start) :
    c = c' ∨ c = name ∧ c' ∈ reserved ∨ c' = name ∧ c ∈ reserved := by
  cases c with
  | word | truth => cases hl
  | sign =>
    cases c' with
    | sign =>
      have hsigns := mem_signs_of_spelling _ hc nofun
      have hsigns' := mem_signs_of_spelling _ hc' nofun
      exact .inl (eq_of_spelling _ hsigns _ hsigns' (congrArg some (hw.symm.trans hw')))
    | _ => cases hstart
  | remark =>
    cases c' with
    | remark => exact .inl rfl
    | name => exact .inr (.inr ⟨rfl, by decide⟩)
    | word | truth => cases hl'
    | _ => cases hstart
  | name =>
    cases c' with
    | remark => exact .inr (.inl ⟨rfl, by decide⟩)
    | name => exact .inl rfl
    | word | truth => cases hl'
    | _ => cases hstart
  | integer =>
    cases c' with
    | integer => exact .inl rfl
    | real => exact absurd hw' (not_mem_real_of_mem_integer hw)
    | _ => cases hstart
  | real =>
    cases c' with
    | real => exact .inl rfl
    | integer => exact absurd hw (not_mem_real_of_mem_integer hw')
    | _ => cases hstart
  | text =>
    cases c' with
    | text =>
      obtain ⟨x, xs, hx, -, rfl⟩ := mem_oneOf_mul.1 hw
      obtain ⟨_, _, hx', -, ⟨⟩⟩ := mem_oneOf_mul.1 hw'
      left
      rw [← of_decide_eq_true hx, ← of_decide_eq_true hx']
    | _ => cases hstart
  | gap =>
    cases c' with
    | gap => exact .inl rfl
    | _ => cases hstart

/-- No text is a lexeme of two classes, but for names that are reserved words, truth values or
remarks. -/
theorem only_names_tie {c c' : LexemeClass} (hc : c ∈ all) (hc' : c' ∈ all)
    (hw : w ∈ c.language) (hw' : w ∈ c'.language) :
    c = c' ∨ c = name ∧ c' ∈ reserved ∨ c' = name ∧ c ∈ reserved := by
  have hstart : c.start = c'.start := by
    obtain ⟨x, xs, rfl, hx⟩ := start_of_mem hc hw
    obtain ⟨_, _, ⟨⟩, hx'⟩ := start_of_mem hc' hw'
    rw [← hx, hx']
  by_cases hl : c.letters? = none
  · by_cases hl' : c'.letters? = none
    · exact eq_or_name_of_no_letters hc hc' hl hl' hw hw' hstart
    · rcases eq_or_name_of_letters hc' hc hl' hw' hw hstart.symm with rfl | h
      · exact .inl rfl
      · exact .inr (.inl h)
  · exact (eq_or_name_of_letters hc hc' hl hw hw' hstart).imp_right .inr

end LexemeClass

/-! ## The longest lexeme -/

/-- A lexeme: a text and the class it belongs to. -/
structure Lexeme where
  lexemeClass : LexemeClass
  text : List Char

/-- The lexeme is the longest one at the beginning of a text; reserved words, truth values and
remarks are no names. -/
structure Lexeme.Begins (l : Lexeme) (cs : List Char) : Prop where
  mem_all : l.lexemeClass ∈ LexemeClass.all
  mem : l.text ∈ l.lexemeClass.language
  begins : l.text <+: cs
  longest : ∀ c ∈ LexemeClass.all, ∀ w ∈ c.language, w <+: cs → w.length ≤ l.text.length
  tie : l.lexemeClass = .name → ∀ c ∈ LexemeClass.reserved, l.text ∉ c.language

/-- There is one longest lexeme at most. -/
theorem Lexeme.Begins.unique {l l' : Lexeme} (h : l.Begins cs) (h' : l'.Begins cs) : l = l' := by
  have htext : l.text = l'.text := by
    have hle := h.longest _ h'.mem_all _ h'.mem h'.begins
    have hle' := h'.longest _ h.mem_all _ h.mem h.begins
    have hbegins := List.prefix_of_prefix_length_le h.begins h'.begins hle'
    exact hbegins.eq_of_length (Nat.le_antisymm hle' hle)
  have hclass : l.lexemeClass = l'.lexemeClass := by
    rcases LexemeClass.only_names_tie h.mem_all h'.mem_all h.mem (htext ▸ h'.mem) with
      heq | ⟨hname, hc⟩ | ⟨hname, hc⟩
    · exact heq
    · exact absurd (htext ▸ h'.mem) (h.tie hname _ hc)
    · exact absurd (htext ▸ h.mem) (h'.tie hname _ hc)
  cases l
  cases l'
  simp_all

namespace Match

variable {best : Option Match} {c : LexemeClass} {m : Match}

theorem better_eq (cs : List Char) (best : Option Match) (c : LexemeClass) :
    (better cs best c = best ∧ ∀ n ∈ c.span cs, ∃ b ∈ best, n ≤ b.length) ∨
    ∃ n ∈ c.span cs, better cs best c = some ⟨c, n⟩ ∧ ∀ b ∈ best, b.length < n := by
  cases hn : c.span cs with
  | none => exact .inl ⟨by simp only [better, hn], nofun⟩
  | some n =>
    cases best with
    | none => exact .inr ⟨n, rfl, by simp only [better, hn], nofun⟩
    | some b =>
      by_cases hlt : b.length < n
      · refine .inr ⟨n, rfl, ?_, ?_⟩
        · simp only [better, hn, hlt, if_true]
        · rintro _ ⟨⟩
          exact hlt
      · refine .inl ⟨?_, ?_⟩
        · simp only [better, hn, hlt, if_false]
        · rintro _ ⟨⟩
          exact ⟨b, rfl, Nat.not_lt.1 hlt⟩

/-- The best match among classes is one of them that is longer than the best before, or that; and
none of them is longer. -/
theorem foldl_better_eq_some {classes : List LexemeClass}
    (h : classes.foldl (better cs) best = some m) :
    (best = some m ∨ m.lexemeClass ∈ classes ∧ m.length ∈ m.lexemeClass.span cs ∧
      ∀ b ∈ best, b.length < m.length) ∧
    ∀ c ∈ classes, ∀ n ∈ c.span cs, n ≤ m.length := by
  induction classes generalizing best with
  | nil => exact ⟨.inl h, nofun⟩
  | cons c classes ih =>
    obtain ⟨hm, hle⟩ := ih h
    rcases better_eq cs best c with ⟨heq, hspan⟩ | ⟨n, hn, heq, hlt⟩
    · rw [heq] at hm
      have hbest : ∀ b ∈ best, b.length ≤ m.length := by
        intro b hb
        rcases hm with rfl | ⟨-, -, hlt⟩
        · rw [Option.mem_some.1 hb]
        · exact Nat.le_of_lt (hlt b hb)
      refine ⟨hm.imp_right fun ⟨hmem, hspan⟩ => ⟨List.mem_cons_of_mem c hmem, hspan⟩, ?_⟩
      rintro c' hc' n hn
      rcases List.mem_cons.1 hc' with rfl | hc'
      · obtain ⟨b, hb, hnb⟩ := hspan n hn
        exact Nat.le_trans hnb (hbest b hb)
      · exact hle c' hc' n hn
    · rw [heq] at hm
      have hnm : n ≤ m.length := by
        rcases hm with ⟨⟨⟩⟩ | ⟨-, -, hlt⟩
        · exact Nat.le_refl n
        · exact Nat.le_of_lt (hlt _ rfl)
      refine ⟨.inr ?_, ?_⟩
      · rcases hm with ⟨⟨⟩⟩ | ⟨hmem, hspan, hlt'⟩
        · exact ⟨List.mem_cons_self, hn, hlt⟩
        · exact ⟨List.mem_cons_of_mem c hmem, hspan,
            fun b hb => Nat.lt_trans (hlt b hb) (hlt' _ rfl)⟩
      · rintro c' hc' n' hn'
        rcases List.mem_cons.1 hc' with rfl | hc'
        · rwa [Option.mem_unique hn' hn]
        · exact hle c' hc' n' hn'

theorem foldl_better_eq_none {classes : List LexemeClass}
    (h : classes.foldl (better cs) best = none) : best = none ∧ ∀ c ∈ classes, c.span cs = none := by
  induction classes generalizing best with
  | nil => exact ⟨h, nofun⟩
  | cons c classes ih =>
    obtain ⟨hbest, hclasses⟩ := ih h
    rcases better_eq cs best c with ⟨heq, hspan⟩ | ⟨n, -, heq, -⟩
    · rw [heq] at hbest
      subst hbest
      refine ⟨rfl, ?_⟩
      rintro c' hc'
      rcases List.mem_cons.1 hc' with rfl | hc'
      · cases hn : c'.span cs with
        | none => rfl
        | some n =>
          obtain ⟨b, hb, -⟩ := hspan n hn
          cases hb
      · exact hclasses c' hc'
    · rw [heq] at hbest
      cases hbest

end Match

/-- A name that is found is longer than any reserved word or remark that the text begins with: these
classes come before that of the names. -/
theorem lt_of_longest?_name {m : Match} (h : longest? cs = some m) (hname : m.lexemeClass = .name)
    {c : LexemeClass} (hc : c ∈ LexemeClass.reserved) : ∀ n ∈ c.span cs, n < m.length := by
  have hall : LexemeClass.all = (LexemeClass.words ++ LexemeClass.signs ++ [LexemeClass.remark]) ++
      [.name, .integer, .real, .text '"', .text '\'', .gap] := rfl
  have hearly : c ∈ LexemeClass.words ++ LexemeClass.signs ++ [LexemeClass.remark] := by
    rcases List.mem_append.1 hc with hc | hc
    · exact List.mem_append_left _ (List.mem_append_left _ hc)
    · exact List.mem_append_right _ hc
  rw [longest?, hall, List.foldl_append] at h
  intro n hn
  cases hbest : (LexemeClass.words ++ LexemeClass.signs ++ [LexemeClass.remark]).foldl
      (Match.better cs) none with
  | none =>
    have hnone := (Match.foldl_better_eq_none hbest).2 c hearly
    rw [hnone] at hn
    cases hn
  | some b =>
    rw [hbest] at h
    obtain ⟨hb, hle⟩ := Match.foldl_better_eq_some hbest
    refine Nat.lt_of_le_of_lt (hle c hearly n hn) ?_
    rcases (Match.foldl_better_eq_some h).1 with heq | ⟨-, -, hlt⟩
    · cases heq
      have hmem := (hb.resolve_left nofun).1
      rw [hname] at hmem
      exact absurd hmem (by decide +kernel)
    · exact hlt b rfl

/-- What is found is a longest lexeme. -/
theorem begins_of_longest? {m : Match} (h : longest? cs = some m) :
    Lexeme.Begins ⟨m.lexemeClass, cs.take m.length⟩ cs ∧ m.length ≤ cs.length := by
  obtain ⟨hm, hle⟩ := Match.foldl_better_eq_some h
  obtain ⟨hmem, hspan, -⟩ := hm.resolve_left nofun
  obtain ⟨w, hw, rest, rfl, hlen⟩ := (LexemeClass.measures_of_mem hmem).sound hspan
  rw [← hlen, List.take_left]
  refine ⟨⟨hmem, hw, List.prefix_append w rest, ?_, ?_⟩, by simp⟩
  · rintro c hc _ hw' ⟨rest', heq⟩
    obtain ⟨n, hn, hle'⟩ := (LexemeClass.measures_of_mem hc).longest hw' rest'
    rw [heq] at hn
    exact le_of_le_of_eq (hle'.trans (hle c hc n hn)) hlen.symm
  · rintro hname c hc hw'
    obtain ⟨n, hn, hle'⟩ :=
      (LexemeClass.measures_of_mem (LexemeClass.reserved_subset_all hc)).longest hw' rest
    have hlt := lt_of_longest?_name h hname hc n hn
    have hlen' : w.length ≤ n := hle'
    omega

theorem not_begins_of_longest?_eq_none (h : longest? cs = none) :
    ∀ c ∈ LexemeClass.all, ∀ w ∈ c.language, ¬ w <+: cs := by
  rintro c hc w hw ⟨rest, rfl⟩
  obtain ⟨n, hn, -⟩ := (LexemeClass.measures_of_mem hc).longest hw rest
  rw [(Match.foldl_better_eq_none h).2 c hc] at hn
  cases hn

/-- The lexeme that is found is the longest one. -/
theorem longest?_of_begins {l : Lexeme} (h : l.Begins cs) :
    longest? cs = some ⟨l.lexemeClass, l.text.length⟩ := by
  cases hm : longest? cs with
  | none => exact absurd h.begins (not_begins_of_longest?_eq_none hm _ h.mem_all _ h.mem)
  | some m =>
    obtain ⟨hbegins, hle⟩ := begins_of_longest? hm
    have heq := h.unique hbegins
    rw [heq]
    simp [hle]

end BasicScript
