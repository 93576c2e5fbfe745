/-
  Reading programs.

  * `subroutine` reads `SUB name(params) ... ENDSUB`.
  * `topLevel` reads statements and subroutines up to the end of input; two subroutines of one name
    and number of parameters are refused.
  * `program` does so with a line for every error; `Program.parse` starts from the source text.
-/
import BasicScript.Parser.Statement
import BasicScript.Token.Lexer

namespace BasicScript

namespace Parser

/-- `SUB name(params) ... ENDSUB`; without parameters the parentheses may be left out. -/
def subroutine : Parser Subroutine := do
  let line ← peekLine 1
  expect (.keyword .sub) line
  let name ← nameToken
  let params ←
    if ← accept (.symbol .leftParen) then commaList nameToken (.symbol .rightParen) line
    else pure []
  let (statements, _) ← body (fun t => t = .keyword .endSub) line
  pure ⟨name, params, statements, line⟩

/-- The statements and subroutines up to the end of input; `known` are the keys defined so far. -/
def topLevel (known : List CallKey) : List PlacedToken → Parser Program
  | [] => pure ⟨[], []⟩
  | _ :: bound => do
    skipSeparators
    match ← peek? with
    | none => pure ⟨[], []⟩
    | some ⟨.keyword .sub, _⟩ => do
      let s ← subroutine
      if s.key ∈ known then fail (.duplicateSubroutine s.name s.params.length) s.line
      else do
        let p ← topLevel (s.key :: known) bound
        pure { p with subroutines := s :: p.subroutines }
    | some _ => do
      let ss ← itemWith body
      let p ← topLevel known bound
      pure { p with statements := ss ++ p.statements }

/-- The error of a whole program: an end of input without a place is on the line of the last
token. -/
def placeEnd (lastLine : Nat) (e : ParseError) : ParseError :=
  if e.fault = .unexpectedEnd ∧ e.line = 0 then { e with line := lastLine } else e

/-- A program, from all its tokens. -/
def program : Parser Program := do
  let tokens ← remaining
  let lastLine := (tokens.getLast?.map (·.line)).getD 1
  tryCatch (topLevel [] tokens) fun e => throw (placeEnd lastLine e)

/-- What a parser reads from the front of a list of tokens, with the tokens left over. -/
def parseTokens {α : Type} (p : Parser α) (tokens : List PlacedToken) :
    Except ParseError (α × List PlacedToken) :=
  match p ⟨tokens, 0⟩ with
  | .ok a s => .ok (a, s.rest)
  | .error e _ => .error e

end Parser

/-- The program of a source text. -/
def Program.parse (source : String) : Except ParseError Program := do
  let tokens ← tokenize source
  let (p, _) ← Parser.program.parseTokens tokens
  pure p

end BasicScript
