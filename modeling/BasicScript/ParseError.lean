/-
  Errors of a source text: what is wrong with it, and on which line.

  * `Unexpected` says which token stood where another was due.
  * `ParseFault` lists the causes, `ParseError` adds the line, `ParseError.message` is the wording.
-/
import BasicScript.Token.Basic

namespace BasicScript

/-- A token that stands where it cannot, with what was due instead. -/
inductive Unexpected where
  | found (token : Token)
  | insteadOf (expected token : Token)
  | insteadOfName (token : Token)
  | insteadOfCommaOr (closing token : Token)
  | insteadOfAssignment (token : Token)
  | insteadOfStatementEnd (token : Token)
  deriving DecidableEq

/-- What is wrong with a source text. -/
inductive ParseFault where
  | unexpectedToken (what : Unexpected)
  | unexpectedEnd
  | unterminatedString
  | invalidCharacter (found : String)
  | duplicateSubroutine (name : String) (arity : Nat)
  | nestedSubroutine
  | invalidTarget
  | mismatchedNext (expected found : String)
  | literalTooLarge
  | nestingTooDeep
  deriving DecidableEq

/-- A fault and the line it is on; line 0 stands for an end of input whose place is unknown. -/
structure ParseError where
  fault : ParseFault
  line : Nat
  deriving DecidableEq

/-- The wording for a token out of place. -/
def Unexpected.describe : Unexpected → String
  | found token => token.describe
  | insteadOf expected token => "Expected " ++ expected.describe ++ ", found " ++ token.describe
  | insteadOfName token => "Expected identifier, found " ++ token.describe
  | insteadOfCommaOr closing token =>
    "Expected ',' or " ++ closing.describe ++ ", found " ++ token.describe
  | insteadOfAssignment token => "Expected '=' in assignment, found " ++ token.describe
  | insteadOfStatementEnd token => "Expected end of statement, found " ++ token.describe

/-- The wording of a fault. -/
def ParseFault.describe : ParseFault → String
  | unexpectedToken what => "Unexpected token: " ++ what.describe ++ "."
  | unexpectedEnd => "Unexpected end of input."
  | unterminatedString => "Unterminated string literal."
  | invalidCharacter found => "Invalid character '" ++ found ++ "'."
  | duplicateSubroutine name arity =>
    "Subroutine '" ++ name ++ "' with " ++ intText arity ++ " parameter(s) is already defined."
  | nestedSubroutine => "SUB may only be declared at the top level."
  | invalidTarget => "Invalid assignment target."
  | mismatchedNext expected found => "NEXT " ++ found ++ " does not match FOR " ++ expected ++ "."
  | literalTooLarge => "Literal is too large."
  | nestingTooDeep => "Expression or block nesting is too deep."

/-- The text of an error on a line. -/
def errorOnLine (line : Nat) (description : String) : String :=
  "Error on line " ++ intText line ++ ": " ++ description

/-- The message of an error. -/
def ParseError.message (e : ParseError) : String := errorOnLine e.line e.fault.describe

end BasicScript
