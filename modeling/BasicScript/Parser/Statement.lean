/-
  Reading statements.

  * `statementWith body` reads a statement, its bodies by `body`.
  * `bodyAt n` reads the statements of a body up to the word that closes it, with at most `n` levels
    of nesting inside; each body is one level.
  * `statement`, `body` and `letStatement` read one statement, one body, and a `LET` with its list
    of assignments.
-/
import BasicScript.Parser.Expression

namespace BasicScript

namespace Parser

/-! ## Parts of statements -/

/-- A reader of bodies: the tokens that close the body and the line reported if the input ends give
the statements and the closing token. -/
abbrev BodyParser := (Token → Bool) → Nat → Parser (List Statement × PlacedToken)

/-- The indices of an assignment. -/
def targetIndices : List PlacedToken → Parser (List Expr)
  | [] => pure []
  | _ :: bound => do
    match ← peek? with
    | some ⟨.symbol .leftBracket, line⟩ => do
      advance
      let key ← expression
      expect (.symbol .rightBracket) line
      let keys ← targetIndices bound
      pure (key :: keys)
    | _ => pure []

/-- `name[i]...[j] = value` -/
def assignment (line : Nat) : Parser Statement := do
  let name ← nameToken
  let keys ← targetIndices (← remaining)
  match ← next? with
  | some ⟨.symbol .equals, _⟩ => do
    let value ← expression
    pure (.assign name keys value line)
  | some t => unexpected (.insteadOfAssignment t.token) t.line
  | none => fail .unexpectedEnd line

/-- `name` or `name(arguments)` -/
def invocation (line : Nat) : Parser (String × List Expr) := do
  let name ← nameToken
  if ← accept (.symbol .leftParen) then do
    let arguments ← commaList expression (.symbol .rightParen) line
    pure (name, arguments)
  else pure (name, [])

/-- Expressions behind commas. -/
def printTail : List PlacedToken → Parser (List Expr)
  | [] => pure []
  | _ :: bound => do
    if ← accept (.symbol .comma) then do
      let e ← expression
      let es ← printTail bound
      pure (e :: es)
    else pure []

/-- An expression if the word is there. -/
def clause? (word : Keyword) : Parser (Option Expr) := do
  if ← accept (.keyword word) then some <$> expression else pure none

/-! ## Statements -/

/-- `PRINT arguments`, the word being read. -/
def printStatement (line : Nat) : Parser Statement := do
  if ← atStatementEnd then pure (.print [] line)
  else do
    let e ← expression
    let es ← printTail (← remaining)
    pure (.print (e :: es) line)

/-- `DIM name` or `DIM name[key]`, the word being read. -/
def dimStatement (line : Nat) : Parser Statement := do
  let name ← nameToken
  if ← accept (.symbol .leftBracket) then do
    let key ← expression
    expect (.symbol .rightBracket) line
    pure (.dim name (some key) line)
  else pure (.dim name none line)

/-- `IF condition THEN ... [ELSE ...] ENDIF`, the word being read. -/
def ifStatement (body : BodyParser) (line : Nat) : Parser Statement := do
  let condition ← expression
  expect (.keyword .then_) line
  let (thenBody, stop) ← body (fun t => t = .keyword .else_ || t = .keyword .endIf) line
  if stop.token = .keyword .else_ then do
    let (elseBody, _) ← body (fun t => t = .keyword .endIf) stop.line
    pure (.if_ condition thenBody (some elseBody) line)
  else pure (.if_ condition thenBody none line)

/-- `FOR counter = first TO last [STEP step] ... NEXT [counter]`, the word being read. -/
def forStatement (body : BodyParser) (line : Nat) : Parser Statement := do
  let counter ← nameToken
  expect (.symbol .equals) line
  let first ← expression
  expect (.keyword .to_) line
  let last ← expression
  let step ← clause? .step
  let (statements, stop) ← body (fun t => t = .keyword .next_) line
  match ← peek? with
  | some ⟨.name found, _⟩ =>
    if found = counter then advance else fail (.mismatchedNext counter found) stop.line
  | _ => pure ()
  pure (.for_ counter first last step statements line)

/-- `WHILE condition ... WEND`, the word being read. -/
def whileStatement (body : BodyParser) (line : Nat) : Parser Statement := do
  let condition ← expression
  let (statements, _) ← body (fun t => t = .keyword .wend) line
  pure (.while_ condition statements line)

/-- `RETURN [value]`, the word being read. -/
def returnStatement (line : Nat) : Parser Statement := do
  if ← atStatementEnd then pure (.return_ none line)
  else do
    let value ← expression
    pure (.return_ (some value) line)

/-- A statement that begins with a name: a call if a parenthesis follows, an assignment
otherwise. -/
def nameStatement (line : Nat) : Parser Statement := do
  match ← remaining with
  | _ :: ⟨.symbol .leftParen, _⟩ :: _ => do
    let (name, arguments) ← invocation line
    pure (.call name arguments line)
  | _ => assignment line

/-- A statement without the check of its end; its form is chosen by the first token. -/
def statementForm (body : BodyParser) : Parser Statement := do
  match ← peek? with
  | none => ranOut
  | some ⟨token, line⟩ =>
    match token with
    | .keyword .print => advance; printStatement line
    | .keyword .dim => advance; dimStatement line
    | .keyword .if_ => advance; ifStatement body line
    | .keyword .for_ => advance; forStatement body line
    | .keyword .while_ => advance; whileStatement body line
    | .keyword .return_ => advance; returnStatement line
    | .keyword .call => do
      advance
      let (name, arguments) ← invocation line
      pure (.call name arguments line)
    | .keyword .command => do
      advance
      let (name, arguments) ← invocation line
      pure (.command name arguments line)
    | .keyword .abort => advance; pure (.abort line)
    | .remark content => advance; pure (.remark content line)
    | .keyword .sub => fail .nestedSubroutine line
    | .name _ => nameStatement line
    | .integer _ | .real _ | .text _ | .bool _ | .symbol .leftParen | .symbol .minus
    | .keyword .not_ => fail .invalidTarget line
    | _ => unexpected (.found token) line

/-- A statement and its end. -/
def statementWith (body : BodyParser) : Parser Statement := do
  let s ← statementForm body
  expectStatementEnd
  pure s

/-- Further assignments of a `LET`, each behind a comma and on the line of its first token. -/
def letTail (line : Nat) : List PlacedToken → Parser (List Statement)
  | [] => pure []
  | _ :: bound => do
    if ← accept (.symbol .comma) then do
      let s ← assignment (← peekLine line)
      let ss ← letTail line bound
      pure (s :: ss)
    else pure []

/-- `LET target = value, ..., target = value`, one assignment for each. -/
def letStatement : Parser (List Statement) := do
  let line ← peekLine 1
  expect (.keyword .let_) line
  let s ← assignment line
  let ss ← letTail line (← remaining)
  expectStatementEnd
  pure (s :: ss)

/-- A `LET` or another statement. -/
def itemWith (body : BodyParser) : Parser (List Statement) := do
  match ← peek? with
  | some ⟨.keyword .let_, _⟩ => letStatement
  | _ => do
    let s ← statementWith body
    pure [s]

/-! ## Bodies -/

/-- Statements up to a closing token, which is read. -/
def itemsUntil (item : Parser (List Statement)) (closes : Token → Bool) (line : Nat) :
    List PlacedToken → Parser (List Statement × PlacedToken)
  | [] => fail .unexpectedEnd line
  | _ :: bound => do
    skipSeparators
    match ← peek? with
    | none => fail .unexpectedEnd line
    | some t =>
      if closes t.token then do
        advance
        pure ([], t)
      else do
        let ss ← item
        let (more, stop) ← itemsUntil item closes line bound
        pure (ss ++ more, stop)

/-- A body with at most `n` levels of nesting inside. -/
def bodyAt : Nat → BodyParser
  | 0, _, line => fail .unexpectedEnd line
  | n + 1, closes, line => do
    itemsUntil (itemWith fun closes line => nested (bodyAt n closes line)) closes line (← remaining)

/-- A body, one level deeper than the statement it belongs to. -/
def body : BodyParser := fun closes line => nested (bodyAt (maxNesting + 1) closes line)

/-- A single statement. -/
def statement : Parser Statement := statementWith body

end Parser

end BasicScript
