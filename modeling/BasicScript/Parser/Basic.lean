/-
  Reading trees from tokens: the state and the steps that all parsers share.

  A parser reads from the front of the remaining tokens and counts the levels of nesting that are
  open.  Loops over the tokens are bounded by the list of the tokens in sight when they start, since
  every round reads at least one.

  * `nested p` runs `p` one level deeper; at most `maxNesting` levels may be open.
  * `expect` reads one given token, `nameToken` a name, `commaList` a list in parentheses.
  * `expectStatementEnd` requires a separator, the end of input or a word that closes a body.
-/
import BasicScript.Script.Program
import BasicScript.ParseError

namespace BasicScript

/-- The state of a parser: the tokens not yet read and the number of open levels. -/
structure ParserState where
  rest : List PlacedToken
  depth : Nat

/-- A parser of trees of type `α`. -/
abbrev Parser := EStateM ParseError ParserState

namespace Parser

variable {α : Type}

/-- Fails with a fault on a line. -/
def fail (fault : ParseFault) (line : Nat) : Parser α := throw ⟨fault, line⟩

/-- Fails with a token that stands where it cannot. -/
def unexpected (what : Unexpected) (line : Nat) : Parser α := fail (.unexpectedToken what) line

/-- Fails at the end of input where no opening line is at hand. -/
def ranOut : Parser α := fail .unexpectedEnd 0

/-- The tokens not yet read. -/
def remaining : Parser (List PlacedToken) := return (← get).rest

/-- The next token, which stays unread. -/
def peek? : Parser (Option PlacedToken) := return (← get).rest.head?

/-- Reads the next token, if there is one. -/
def next? : Parser (Option PlacedToken) :=
  modifyGet fun s => (s.rest.head?, { s with rest := s.rest.tail })

/-- Passes over the next token. -/
def advance : Parser Unit := modify fun s => { s with rest := s.rest.tail }

/-! ## Nesting -/

/-- The number of levels that may be open at once. -/
def maxNesting : Nat := 256

/-- Runs a parser one level deeper and closes the level again, whatever comes out.  At the end of
input no level is opened. -/
def nested (p : Parser α) : Parser α := fun s =>
  match s.rest with
  | [] => p s
  | t :: _ =>
    if s.depth < maxNesting then
      match p { s with depth := s.depth + 1 } with
      | .ok a s' => .ok a { s' with depth := s'.depth - 1 }
      | .error e s' => .error e { s' with depth := s'.depth - 1 }
    else .error ⟨.nestingTooDeep, t.line⟩ s

/-! ## Single tokens -/

/-- Reads the token that is due; `line` is reported at the end of input. -/
def expect (expected : Token) (line : Nat) : Parser Unit := do
  match ← next? with
  | none => fail .unexpectedEnd line
  | some t =>
    if t.token = expected then pure () else unexpected (.insteadOf expected t.token) t.line

/-- Passes over the next token if it is the given one, and tells whether it was. -/
def accept (token : Token) : Parser Bool := do
  match ← peek? with
  | some t => if t.token = token then do advance; pure true else pure false
  | none => pure false

/-- Reads a name. -/
def nameToken : Parser String := do
  match ← next? with
  | some ⟨.name s, _⟩ => pure s
  | some t => unexpected (.insteadOfName t.token) t.line
  | none => ranOut

/-- The line of the next token, or `fallback` at the end of input. -/
def peekLine (fallback : Nat) : Parser Nat := return ((← peek?).map (·.line)).getD fallback

/-! ## Lists -/

/-- The items after the first: each behind a comma, up to the closing token. -/
def commaTail (item : Parser α) (closing : Token) (line : Nat) :
    List PlacedToken → Parser (List α)
  | [] => fail .unexpectedEnd line
  | _ :: bound => do
    match ← next? with
    | none => fail .unexpectedEnd line
    | some t =>
      if t.token = .symbol .comma then do
        let a ← item
        let as ← commaTail item closing line bound
        pure (a :: as)
      else if t.token = closing then pure []
      else unexpected (.insteadOfCommaOr closing t.token) t.line

/-- Items between commas up to the closing token, which may come at once; `line` is reported if the
input ends before. -/
def commaList (item : Parser α) (closing : Token) (line : Nat) : Parser (List α) := do
  if ← accept closing then pure []
  else do
    let a ← item
    let as ← commaTail item closing line (← remaining)
    pure (a :: as)

/-! ## Statement ends -/

/-- Passes over separators. -/
def skipSeparators : Parser Unit :=
  modify fun s => { s with rest := s.rest.dropWhile (·.token.isSeparator) }

/-- The tokens that end a statement: separators and the words that close a body. -/
def endsStatement : Token → Bool
  | .symbol .colon | .symbol .newLine | .keyword .else_ | .keyword .endIf | .keyword .next_
  | .keyword .wend | .keyword .endSub => true
  | _ => false

/-- Whether the statement ends here. -/
def atStatementEnd : Parser Bool := return ((← peek?).map (endsStatement ·.token)).getD true

/-- Requires the statement to end here. -/
def expectStatementEnd : Parser Unit := do
  match ← peek? with
  | none => pure ()
  | some t =>
    if endsStatement t.token then pure () else unexpected (.insteadOfStatementEnd t.token) t.line

end Parser

end BasicScript
