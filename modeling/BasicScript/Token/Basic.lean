/-
  Tokens: the words, signs and literals that a source text is made of.

  * `Keyword` and `Symbol` are the fixed tokens, `Token` all of them, `PlacedToken` a token with the
    line it stands on.
  * `Token.isSeparator` holds of the tokens between statements.
  * `Token.describe` is how messages name a token.
-/
import BasicScript.Number.Shortest
import BasicScript.Text.Quoted

namespace BasicScript

/-! ## Fixed tokens -/

/-- The reserved words. -/
inductive Keyword where
  | let_ | dim | print | if_ | then_ | else_ | endIf | for_ | to_ | step | next_ | while_ | wend
  | sub | endSub | return_ | call | command | abort | and_ | or_ | xor | not_
  deriving DecidableEq

/-- The signs, the end of a line among them. -/
inductive Symbol where
  | arrow | plus | minus | star | slash | percent | leftParen | rightParen | leftBracket
  | rightBracket | comma | colon | equals | equalEqual | bangEqual | lessEqual | greaterEqual | less
  | greater | newLine
  deriving DecidableEq

/-- The name of a reserved word in messages. -/
def Keyword.describe : Keyword → String
  | let_ => "Let" | dim => "Dim" | print => "Print" | if_ => "If" | then_ => "Then"
  | else_ => "Else" | endIf => "EndIf" | for_ => "For" | to_ => "To" | step => "Step"
  | next_ => "Next" | while_ => "While" | wend => "Wend" | sub => "Sub" | endSub => "EndSub"
  | return_ => "Return" | call => "Call" | command => "Command" | abort => "Abort" | and_ => "And"
  | or_ => "Or" | xor => "Xor" | not_ => "Not"

/-- The name of a sign in messages. -/
def Symbol.describe : Symbol → String
  | arrow => "Arrow" | plus => "Plus" | minus => "Minus" | star => "Star" | slash => "Slash"
  | percent => "Percent" | leftParen => "LParen" | rightParen => "RParen"
  | leftBracket => "LBracket" | rightBracket => "RBracket" | comma => "Comma" | colon => "Colon"
  | equals => "Equals" | equalEqual => "EqualEqual" | bangEqual => "BangEqual"
  | lessEqual => "LessEqual" | greaterEqual => "GreaterEqual" | less => "Less"
  | greater => "Greater" | newLine => "NewLine"

/-! ## Tokens -/

/-- A token; names are in upper case, strings without their quotes and escapes. -/
inductive Token where
  | keyword (word : Keyword)
  | symbol (sign : Symbol)
  | integer (value : Int64)
  | real (value : Binary64)
  | bool (value : Bool)
  | text (value : String)
  | name (spelling : String)
  | remark (content : String)
  deriving DecidableEq

/-- A token and the line it stands on, counted from 1. -/
structure PlacedToken where
  token : Token
  line : Nat
  deriving DecidableEq

namespace Token

/-- The tokens between statements: `:` and the end of a line. -/
def isSeparator : Token → Bool
  | symbol .colon | symbol .newLine => true
  | _ => false

/-- How messages name a token. -/
def describe : Token → String
  | keyword word => word.describe
  | symbol sign => sign.describe
  | integer value => "Integer(" ++ intText value.toInt ++ ")"
  | real value => "Real(" ++ numeral.write value ++ ")"
  | bool value => if value then "Bool(true)" else "Bool(false)"
  | text value => "Str(" ++ quoted value ++ ")"
  | name spelling => "Identifier(" ++ quoted spelling ++ ")"
  | remark content => "Rem(" ++ quoted content ++ ")"

end Token

end BasicScript
