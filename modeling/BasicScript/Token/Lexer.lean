/-
  Tokens of a source text.

  * `tokensFrom line cs` splits a text into its longest lexemes from left to right; a token carries
    the line on which its lexeme begins.
  * `tokenize` does so for a whole source, from line 1.
-/
import BasicScript.Token.Lexeme

namespace BasicScript

/-- The tokens of a text whose first character stands on `line`. -/
def tokensFrom (line : Nat) : List Char → Except ParseError (List PlacedToken)
  | [] => .ok []
  | c :: cs =>
    match longest? (c :: cs) with
    | none => .error ⟨strayFault (c :: cs), line⟩
    | some found =>
      let lexeme := c :: cs.take (found.length - 1)
      let rest := cs.drop (found.length - 1)
      let nextLine := line + lexeme.count '\n'
      match found.lexemeClass.read lexeme with
      | .fault fault => .error ⟨fault, line⟩
      | .nothing => tokensFrom nextLine rest
      | .token token => (tokensFrom nextLine rest).map (⟨token, line⟩ :: ·)
termination_by cs => cs.length
decreasing_by
  all_goals
    show (cs.drop (found.length - 1)).length < (c :: cs).length
    rw [List.length_drop, List.length_cons]
    omega

/-- The tokens of a source text. -/
def tokenize (source : String) : Except ParseError (List PlacedToken) := tokensFrom 1 source.toList

end BasicScript
