/-
  Expressions of the script language.

  * `Literal`, `UnaryOp`, `BinaryOp` and `Expr` are the trees; every node carries the line of its
    own token.
  * `BinaryOp.rank` orders the binary operators from the tightest to the loosest.
  * `Expr.same` is equality of trees, lines included, with numeric equality of real literals.
-/
import BasicScript.Number.Binary64

namespace BasicScript

/-- The constants of a source text. -/
inductive Literal where
  | integer (value : Int64)
  | real (value : Binary64)
  | bool (value : Bool)
  | text (value : String)
  deriving DecidableEq

inductive UnaryOp where
  | negate | not_
  deriving DecidableEq

inductive BinaryOp where
  | add | sub | mul | div | mod
  | less | greater | lessEqual | greaterEqual
  | equal | notEqual
  | xor | and_ | or_
  deriving DecidableEq

/-- The sign of an operator. -/
def BinaryOp.sign : BinaryOp → String
  | add => "+" | sub => "-" | mul => "*" | div => "/" | mod => "%"
  | less => "<" | greater => ">" | lessEqual => "<=" | greaterEqual => ">="
  | equal => "==" | notEqual => "!="
  | xor => "XOR" | and_ => "AND" | or_ => "OR"

/-- How loosely an operator binds; operators of one rank associate to the left. -/
def BinaryOp.rank : BinaryOp → Nat
  | mul | div | mod => 0
  | add | sub => 1
  | less | greater | lessEqual | greaterEqual => 2
  | equal | notEqual => 3
  | and_ => 4
  | xor | or_ => 5

/-- The number of ranks of binary operators. -/
def BinaryOp.ranks : Nat := 6

/-- An expression; names are in upper case. -/
inductive Expr where
  | literal (value : Literal) (line : Nat)
  | name (name : String) (line : Nat)
  | index (target key : Expr) (line : Nat)
  | unary (op : UnaryOp) (operand : Expr) (line : Nat)
  | binary (op : BinaryOp) (left right : Expr) (line : Nat)
  | call (name : String) (arguments : List Expr) (line : Nat)

/-- Equality of literals, numeric for reals. -/
def Literal.same : Literal → Literal → Bool
  | real x, real y => x.numEq y
  | a, b => a = b

mutual

/-- Equality of expressions with numeric equality of reals. -/
def Expr.same : Expr → Expr → Bool
  | .literal a l, .literal b k => a.same b && l == k
  | .name a l, .name b k => a == b && l == k
  | .index a i l, .index b j k => a.same b && i.same j && l == k
  | .unary o a l, .unary p b k => o == p && a.same b && l == k
  | .binary o a c l, .binary p b d k => o == p && a.same b && c.same d && l == k
  | .call f as l, .call g bs k => f == g && Expr.sameAll as bs && l == k
  | _, _ => false

/-- Equality of lists of expressions. -/
def Expr.sameAll : List Expr → List Expr → Bool
  | [], [] => true
  | a :: as, b :: bs => a.same b && Expr.sameAll as bs
  | _, _ => false

end

/-- Equality of optional expressions. -/
def Expr.sameOption : Option Expr → Option Expr → Bool
  | none, none => true
  | some a, some b => a.same b
  | _, _ => false

end BasicScript
