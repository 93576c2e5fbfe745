/-
  Texts in quotes.

  * `escape quote c`: how a character is written between quotes; `inQuotes quote s`: how a string is.
  * `unescape_flatMap_escape`: reading takes the backslashes away again.
  * `flatMap_escape_mem`: the quote at the end is the first that closes the text.
  * `quoted_text_denotes_itself`: `inQuotes quote s` is the one token of the text `s`.
-/
import BasicScript.Proofs.Token.Tokens

namespace BasicScript

variable {quote c : Char} {w cs : List Char}

/-- A character between quotes: a backslash goes before a backslash and the quote, and `n` and `t`
behind one stand for a line feed and a tab. -/
def escape (quote c : Char) : List Char :=
  if c = '\\' ∨ c = quote then ['\\', c]
  else if c = '\n' then ['\\', 'n']
  else if c = '\t' then ['\\', 't']
  else [c]

/-- A string between quotes. -/
def inQuotes (quote : Char) (s : String) : String :=
  String.ofList (quote :: s.toList.flatMap (escape quote) ++ [quote])

theorem unescape_cons_of_ne (hc : c ≠ '\\') : unescape (c :: cs) = c :: unescape cs := by
  cases cs with
  | nil => rfl
  | cons d cs => rw [unescape, if_neg hc]

section
variable (hquote : quote = '"' ∨ quote = '\'')
include hquote

/-- The character is read back, whatever follows. -/
theorem unescape_escape_append (c : Char) (cs : List Char) :
    unescape (escape quote c ++ cs) = c :: unescape cs := by
  rw [escape]
  split_ifs with hsign hline htab
  · have hc : c = '\\' ∨ c = '"' ∨ c = '\'' := by
      rcases hsign with rfl | rfl
      · exact .inl rfl
      · exact .inr hquote
    rcases hc with rfl | rfl | rfl <;> rfl
  · rw [hline]
    rfl
  · rw [htab]
    rfl
  · exact unescape_cons_of_ne fun hc => hsign (.inl hc)

theorem unescape_flatMap_escape (cs : List Char) : unescape (cs.flatMap (escape quote)) = cs := by
  induction cs with
  | nil => rfl
  | cons c cs ih => rw [List.flatMap_cons, unescape_escape_append hquote, ih]

/-- A character other than a carriage return does not close the text. -/
theorem escape_append_mem (hc : c ≠ '\r') (hw : w ∈ quotedTail quote) :
    escape quote c ++ w ∈ quotedTail quote := by
  rw [escape]
  split_ifs with hsign hline htab
  · refine mem_quotedTail_escape ?_ hw
    rintro rfl
    rcases hquote with rfl | rfl <;> simp at hsign
  · exact mem_quotedTail_escape (by decide) hw
  · exact mem_quotedTail_escape (by decide) hw
  · rw [not_or] at hsign
    exact mem_quotedTail_cons hsign.2 hsign.1 (by simp [isLineEnd, hline, hc]) hw

theorem flatMap_escape_mem (hcs : '\r' ∉ cs) :
    cs.flatMap (escape quote) ++ [quote] ∈ quotedTail quote := by
  induction cs with
  | nil => exact mem_quotedTail_quote
  | cons c cs ih =>
    rw [List.mem_cons, not_or] at hcs
    rw [List.flatMap_cons, List.append_assoc]
    exact escape_append_mem hquote (Ne.symm hcs.1) (ih hcs.2)

theorem LexemeClass.text_mem_all : text quote ∈ all := by
  rcases hquote with rfl | rfl <;> decide +kernel

end

/-- A lexeme that is the whole text is the longest one. -/
theorem Lexeme.begins_self {l : Lexeme} (hc : l.lexemeClass ∈ LexemeClass.all)
    (hmem : l.text ∈ l.lexemeClass.language) (hname : l.lexemeClass ≠ .name) :
    l.Begins (l.text ++ []) where
  mem_all := hc
  mem := hmem
  begins := List.prefix_append _ _
  longest := by
    intro c _ w _ hw
    rw [List.append_nil] at hw
    exact hw.length_le
  tie h := absurd h hname

/-- **Every string without carriage returns can be written in quotes**, in those of either kind: such
a source is one token, the text of the string. -/
theorem quoted_text_denotes_itself {s : String} (hquote : quote = '"' ∨ quote = '\'')
    (hs : '\r' ∉ s.toList) : tokenize (inQuotes quote s) = .ok [⟨.text s, 1⟩] := by
  let l : Lexeme := ⟨.text quote, quote :: s.toList.flatMap (escape quote) ++ [quote]⟩
  have hmem : l.text ∈ l.lexemeClass.language :=
    mem_oneOf_mul.2 ⟨quote, _, decide_eq_true rfl, flatMap_escape_mem hquote hs, rfl⟩
  have hbegins := Lexeme.begins_self (LexemeClass.text_mem_all hquote) hmem nofun
  have hread : l.lexemeClass.read l.text = .token (.text s) := by
    simp [l, LexemeClass.read, unescape_flatMap_escape hquote]
  have htokens := tokensFrom_append 1 hbegins
  rw [hread, List.append_nil, tokensFrom] at htokens
  rw [tokenize, inQuotes, String.toList_ofList]
  exact htokens

/-- A text with quotes of both kinds that ends with a backslash. -/
theorem quoted_text_denotes_itself_backslash :
    tokenize "\"'\\\"\\n\\t\\\\\"" = .ok [⟨.text "'\"\n\t\\", 1⟩] ∧
      tokenize "'\\'\"\\n\\t\\\\'" = .ok [⟨.text "'\"\n\t\\", 1⟩] := by
  have hdouble : inQuotes '"' "'\"\n\t\\" = "\"'\\\"\\n\\t\\\\\"" := by decide
  have hsingle : inQuotes '\'' "'\"\n\t\\" = "'\\'\"\\n\\t\\\\'" := by decide
  rw [← hdouble, ← hsingle]
  exact ⟨quoted_text_denotes_itself (.inl rfl) (by decide),
    quoted_text_denotes_itself (.inr rfl) (by decide)⟩

end BasicScript
