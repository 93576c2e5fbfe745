/-
  The lines of a source text and those that its tokens stand on.

  * `lineCount cs` is the number of lines of a text.
  * `Within cs line`: the line is one that a position in the text, its end included, can have.
  * `tokenize_within`, `tokenize_error_within`: tokens and errors stand on such lines.
  * `le_lineCount_of_tokenize`: a token that is no end of line stands on one of the lines of the
    text.
  * `tokenize_pairwise`: tokens stand on the lines in their order, and none behind the end of a line on
    that line.
-/
import BasicScript.Proofs.Token.Tokens

namespace BasicScript

variable {cs rest : List Char} {l : Lexeme} {ls : List Lexeme}

/-! ## Lines of a text -/

/-- The number of lines of a text; a line feed at its end begins no further line. -/
def lineCount (cs : List Char) : Nat :=
  cs.count '\n' + if cs.getLast?.all (· = '\n') then 0 else 1

/-- The line is the first one or begins behind one of the line feeds. -/
def Within (cs : List Char) (line : Nat) : Prop := 1 ≤ line ∧ line ≤ 1 + cs.count '\n'

theorem within_one (cs : List Char) : Within cs 1 := ⟨le_rfl, Nat.le_add_right 1 _⟩

/-- The line behind a beginning of the text. -/
theorem within_append (before rest : List Char) :
    Within (before ++ rest) (1 + before.count '\n') := by
  rw [Within, List.count_append]
  omega

/-- The line of a word without line feeds is one of the lines of the text. -/
theorem le_lineCount_append {before w after : List Char} (hne : w ≠ []) (hw : '\n' ∉ w) :
    1 + before.count '\n' ≤ lineCount (before ++ w ++ after) := by
  have hcount : (before ++ w ++ after).count '\n' = before.count '\n' + after.count '\n' := by
    rw [List.count_append, List.count_append, List.count_eq_zero.2 hw, Nat.add_zero]
  rw [lineCount, hcount]
  split
  · next hlast =>
    -- The text ends with a line feed, which stands behind the word.
    have hafter : '\n' ∈ after := by
      rw [List.append_assoc, List.getLast?_append_of_ne_nil _ (by simp [hne])] at hlast
      rcases List.eq_nil_or_concat after with rfl | ⟨cs, c, rfl⟩
      · rw [List.append_nil, List.getLast?_eq_some_getLast hne] at hlast
        have hc : w.getLast hne = '\n' := by simpa using hlast
        exact absurd (hc ▸ List.getLast_mem hne) hw
      · have hc : c = '\n' := by simpa using hlast
        simp [hc]
    have hpos := List.count_pos_iff.2 hafter
    omega
  · omega

/-! ## Lines of tokens -/

theorem Splits.eq_append (h : Splits cs ls rest) : cs = Lexeme.texts ls ++ rest := by
  induction h with
  | nil => rfl
  | cons _ _ ih => rw [ih, Lexeme.texts, Lexeme.texts, List.flatMap_cons, List.append_assoc]

/-- A token comes from a lexeme and stands on the line behind the text before it. -/
theorem exists_of_mem_placed {t : PlacedToken} {before : List Char} (ht : t ∈ placed before ls) :
    ∃ first l last, ls = first ++ l :: last ∧ l.token? = some t.token ∧
      t.line = 1 + (before ++ Lexeme.texts first).count '\n' := by
  induction ls generalizing before with
  | nil => cases ht
  | cons l ls ih =>
    have htail : t ∈ placed (before ++ l.text) ls → ∃ first l' last, l :: ls = first ++ l' :: last ∧
        l'.token? = some t.token ∧ t.line = 1 + (before ++ Lexeme.texts first).count '\n' := by
      intro ht
      obtain ⟨first, l', last, rfl, htoken, hline⟩ := ih ht
      refine ⟨l :: first, l', last, rfl, htoken, ?_⟩
      rw [hline, Lexeme.texts, Lexeme.texts, List.flatMap_cons, List.append_assoc]
    rw [placed] at ht
    split at ht
    · next token htoken =>
      rcases List.mem_cons.1 ht with rfl | ht
      · refine ⟨[], l, ls, rfl, htoken, ?_⟩
        rw [Lexeme.texts, List.flatMap_nil, List.append_nil]
      · exact htail ht
    · exact htail ht

/-- Each lexeme of a text that splits begins a rest of it. -/
theorem Splits.begins (h : Splits cs ls rest) (hl : l ∈ ls) : ∃ cs, l.Begins cs := by
  induction h with
  | nil => cases hl
  | cons hbegins _ ih =>
    rcases List.mem_cons.1 hl with rfl | hl
    · exact ⟨_, hbegins⟩
    · exact ih hl

/-- The token of a reserved word or a sign. -/
def LexemeClass.ownToken? : LexemeClass → Option Token
  | word _ token | sign _ token => some token
  | _ => none

theorem LexemeClass.eq_newLine_of_ownToken? :
    ∀ c ∈ all, c.ownToken? = some (.symbol .newLine) → c = sign "\n" (.symbol .newLine) := by
  decide +kernel

theorem Lexeme.read_of_token? {t : Token} (h : l.token? = some t) :
    l.lexemeClass.read l.text = .token t := by
  rw [Lexeme.token?] at h
  split at h
  · next hread => rw [hread, Option.some.inj h]
  · cases h

/-- The token of a line feed is that of a lexeme that ends a line. -/
theorem mem_text_of_newLine (hl : l.Begins cs) (h : l.token? = some (.symbol .newLine)) :
    '\n' ∈ l.text := by
  have hclass : l.lexemeClass = .sign "\n" (.symbol .newLine) := by
    refine LexemeClass.eq_newLine_of_ownToken? _ hl.mem_all ?_
    have hread := Lexeme.read_of_token? h
    cases hc : l.lexemeClass with
    | word | sign =>
      rw [hc] at hread
      exact congrArg some (Reading.token.inj hread)
    | truth | integer | real =>
      rw [hc, LexemeClass.read] at hread
      split at hread <;> cases hread
    | _ =>
      rw [hc] at hread
      cases hread
  have hmem := hl.mem
  rw [hclass] at hmem
  rw [show l.text = ['\n'] from hmem]
  exact List.mem_singleton_self _

/-- Behind the end of a line no token stands on it. -/
theorem pairwise_placed (before : List Char) (h : Splits cs ls rest) :
    (placed before ls).Pairwise fun t u =>
      t.line ≤ u.line ∧ (t.token = .symbol .newLine → t.line < u.line) := by
  induction h generalizing before with
  | nil => exact .nil
  | @cons l ls cs rest hl _ ih =>
    rw [placed]
    split
    · next token htoken =>
      refine List.pairwise_cons.2 ⟨fun u hu => ?_, ih (before ++ l.text)⟩
      obtain ⟨first, -, -, -, -, hline⟩ := exists_of_mem_placed hu
      have hle : 1 + before.count '\n' + l.text.count '\n' ≤ u.line := by
        rw [hline, List.count_append, List.count_append]
        omega
      refine ⟨(Nat.le_add_right _ _).trans hle, ?_⟩
      rintro rfl
      have hpos := List.count_pos_iff.2 (mem_text_of_newLine hl htoken)
      exact Nat.lt_of_lt_of_le (Nat.lt_add_of_pos_right hpos) hle
    · exact ih (before ++ l.text)

section
variable {source : String}

/-- A source splits to its end and gives the tokens of its lexemes, or it is refused on the line that
the lexemes before the fault lead to. -/
theorem tokenize_cases (source : String) :
    (∃ ls, Splits source.toList ls [] ∧ (∀ l ∈ ls, l.Formed) ∧
      tokenize source = .ok (placed [] ls)) ∨
    ∃ ls rest fault, Splits source.toList ls rest ∧
      tokenize source = .error ⟨fault, 1 + (Lexeme.texts ls).count '\n'⟩ := by
  obtain ⟨ls, rest, hsplits, hls, hrest⟩ := exists_splits source.toList
  rcases hrest with rfl | hrest
  · exact .inl ⟨ls, hsplits, hls, tokenize_of_splits hsplits hls rfl⟩
  · obtain ⟨fault, hfault⟩ := tokenize_of_stuck hsplits hls hrest
    exact .inr ⟨ls, rest, fault, hsplits, hfault⟩

/-- The tokens of a source are those of lexemes. -/
theorem exists_placed_of_tokenize {ts : List PlacedToken} (h : tokenize source = .ok ts) :
    ∃ ls, Splits source.toList ls [] ∧ (∀ l ∈ ls, l.Formed) ∧ ts = placed [] ls := by
  rcases tokenize_cases source with ⟨ls, hsplits, hls, hok⟩ | ⟨ls, rest, fault, -, herror⟩
  · rw [hok] at h
    cases h
    exact ⟨ls, hsplits, hls, rfl⟩
  · rw [herror] at h
    cases h

/-- The text around a token. -/
theorem exists_of_mem_tokenize {ts : List PlacedToken} {t : PlacedToken}
    (h : tokenize source = .ok ts) (ht : t ∈ ts) :
    ∃ before w after, source.toList = before ++ w ++ after ∧ t.line = 1 + before.count '\n' ∧
      w ≠ [] ∧ (t.token ≠ .symbol .newLine → '\n' ∉ w) := by
  obtain ⟨ls, hsplits, -, rfl⟩ := exists_placed_of_tokenize h
  obtain ⟨first, l, last, rfl, htoken, hline⟩ := exists_of_mem_placed ht
  obtain ⟨cs, hbegins⟩ := hsplits.begins (l := l) (by simp)
  refine ⟨Lexeme.texts first, l.text, Lexeme.texts last, ?_, hline,
    LexemeClass.ne_nil_of_mem hbegins.mem_all hbegins.mem, fun hne hw => ?_⟩
  · rw [hsplits.eq_append, List.append_nil]
    simp [Lexeme.texts]
  · have hclass := LexemeClass.eq_newLine_of_mem hbegins.mem_all hbegins.mem hw
    rw [Lexeme.token?, hclass] at htoken
    exact hne (Option.some.inj htoken).symm

/-- Tokens stand on the lines in their order, and an end of line ends its line. -/
theorem tokenize_pairwise {ts : List PlacedToken} (h : tokenize source = .ok ts) :
    ts.Pairwise fun t u => t.line ≤ u.line ∧ (t.token = .symbol .newLine → t.line < u.line) := by
  obtain ⟨ls, hsplits, -, rfl⟩ := exists_placed_of_tokenize h
  exact pairwise_placed [] hsplits

theorem tokenize_within {ts : List PlacedToken} (h : tokenize source = .ok ts) :
    ∀ t ∈ ts, Within source.toList t.line := by
  intro t ht
  obtain ⟨before, w, after, hsource, hline, -, -⟩ := exists_of_mem_tokenize h ht
  rw [hsource, hline, List.append_assoc]
  exact within_append before _

theorem le_lineCount_of_tokenize {ts : List PlacedToken} (h : tokenize source = .ok ts) :
    ∀ t ∈ ts, t.token ≠ .symbol .newLine → t.line ≤ lineCount source.toList := by
  intro t ht hne
  obtain ⟨before, w, after, hsource, hline, hw, hone⟩ := exists_of_mem_tokenize h ht
  rw [hsource, hline]
  exact le_lineCount_append hw (hone hne)

theorem tokenize_error_within {e : ParseError} (h : tokenize source = .error e) :
    Within source.toList e.line := by
  rcases tokenize_cases source with ⟨ls, -, -, hok⟩ | ⟨ls, rest, fault, hsplits, herror⟩
  · rw [hok] at h
    cases h
  · rw [herror] at h
    cases h
    rw [hsplits.eq_append]
    exact within_append _ rest

end

end BasicScript
