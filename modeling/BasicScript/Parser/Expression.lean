/-
  Reading expressions.

  * `atRank operand n` reads operands joined by the binary operators of the `n` tightest ranks;
    operators of one rank associate to the left.
  * `operandAt n` reads an operand, a sign in front of it and the indices behind it included, with
    at most `n` levels of nesting inside.
  * `expression` reads a full expression; it is one level of nesting, as is each expression in
    parentheses, each index, each argument and the operand of each sign.
-/
import BasicScript.Parser.Basic

namespace BasicScript

/-- The binary operator of a token. -/
def Token.binaryOp? : Token → Option BinaryOp
  | .symbol .plus => some .add
  | .symbol .minus => some .sub
  | .symbol .star => some .mul
  | .symbol .slash => some .div
  | .symbol .percent => some .mod
  | .symbol .less => some .less
  | .symbol .greater => some .greater
  | .symbol .lessEqual => some .lessEqual
  | .symbol .greaterEqual => some .greaterEqual
  | .symbol .equals | .symbol .equalEqual => some .equal
  | .symbol .bangEqual => some .notEqual
  | .keyword .and_ => some .and_
  | .keyword .or_ => some .or_
  | .keyword .xor => some .xor
  | _ => none

/-- The unary operator of a token. -/
def Token.unaryOp? : Token → Option UnaryOp
  | .symbol .minus => some .negate
  | .keyword .not_ => some .not_
  | _ => none

/-- The literal of a token. -/
def Token.literal? : Token → Option Literal
  | .integer n => some (.integer n)
  | .real x => some (.real x)
  | .bool b => some (.bool b)
  | .text s => some (.text s)
  | _ => none

namespace Parser

/-! ## Binary operators -/

/-- The operator of a rank that comes next, with its line; it stays unread. -/
def peekOperator? (rank : Nat) : Parser (Option (BinaryOp × Nat)) := do
  match ← peek? with
  | none => pure none
  | some t =>
    pure <| match t.token.binaryOp? with
      | some op => if op.rank = rank then some (op, t.line) else none
      | none => none

/-- Joins further operands of a rank to the left operand read so far. -/
def chain (operand : Parser Expr) (rank : Nat) : List PlacedToken → Expr → Parser Expr
  | [], left => pure left
  | _ :: bound, left => do
    match ← peekOperator? rank with
    | none => pure left
    | some (op, line) => do
      advance
      let right ← operand
      chain operand rank bound (.binary op left right line)

/-- Operands joined by the operators of the ranks below `n`. -/
def atRank (operand : Parser Expr) : Nat → Parser Expr
  | 0 => operand
  | n + 1 => do
    let left ← atRank operand n
    chain (atRank operand n) n (← remaining) left

/-! ## Operands -/

/-- The indices behind an operand. -/
def indices (expression : Parser Expr) : List PlacedToken → Expr → Parser Expr
  | [], target => pure target
  | _ :: bound, target => do
    match ← peek? with
    | some ⟨.symbol .leftBracket, line⟩ => do
      advance
      let key ← expression
      expect (.symbol .rightBracket) line
      indices expression bound (.index target key line)
    | _ => pure target

/-- A name, or a call if a parenthesis follows it. -/
def nameOrCall (expression : Parser Expr) (name : String) (line : Nat) : Parser Expr := do
  if ← accept (.symbol .leftParen) then do
    let arguments ← commaList expression (.symbol .rightParen) line
    pure (.call name arguments line)
  else pure (.name name line)

/-- A literal, a name, a call or an expression in parentheses. -/
def primary (expression : Parser Expr) : Parser Expr := do
  match ← next? with
  | none => ranOut
  | some ⟨.symbol .leftParen, line⟩ => do
    let e ← expression
    expect (.symbol .rightParen) line
    pure e
  | some ⟨.name name, line⟩ => nameOrCall expression name line
  | some t =>
    match t.token.literal? with
    | some value => pure (.literal value t.line)
    | none => unexpected (.found t.token) t.line

/-- A sign and its operand, or a primary expression and its indices. -/
def operandWith (expression operand : Parser Expr) : Parser Expr := do
  match ← peek? with
  | none => ranOut
  | some t =>
    match t.token.unaryOp? with
    | some op => do
      advance
      let e ← operand
      pure (.unary op e t.line)
    | none => do
      let e ← primary expression
      indices expression (← remaining) e

/-- An operand with at most `n` levels of nesting inside; past the last level only the end of the
input can stand. -/
def operandAt : Nat → Parser Expr
  | 0 => ranOut
  | n + 1 => operandWith (nested (atRank (operandAt n) BinaryOp.ranks)) (nested (operandAt n))

/-- An operand. -/
def operand : Parser Expr := operandAt (maxNesting + 1)

/-- A full expression. -/
def expression : Parser Expr := nested (atRank operand BinaryOp.ranks)

end Parser

end BasicScript
