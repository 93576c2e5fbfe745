/-
  Statements of the script language.

  * `Statement` is the tree of a statement, with the line of its first token.
  * `Statement.same` is equality of trees, lines included, with numeric equality of real literals.
-/
import BasicScript.Script.Expr

namespace BasicScript

/-- A statement; names are in upper case. -/
inductive Statement where
  /-- `name[i]...[j] = value` -/
  | assign (name : String) (indices : List Expr) (value : Expr) (line : Nat)
  /-- `DIM name` or `DIM name[key]` -/
  | dim (name : String) (key : Option Expr) (line : Nat)
  /-- `IF condition THEN ... [ELSE ...] ENDIF` -/
  | if_ (condition : Expr) (thenBody : List Statement) (elseBody : Option (List Statement))
      (line : Nat)
  /-- `WHILE condition ... WEND` -/
  | while_ (condition : Expr) (body : List Statement) (line : Nat)
  /-- `FOR counter = first TO last [STEP step] ... NEXT` -/
  | for_ (counter : String) (first last : Expr) (step : Option Expr) (body : List Statement)
      (line : Nat)
  /-- `RETURN [value]` -/
  | return_ (value : Option Expr) (line : Nat)
  /-- `CALL name(arguments)` or `name(arguments)` -/
  | call (name : String) (arguments : List Expr) (line : Nat)
  /-- `PRINT arguments` -/
  | print (arguments : List Expr) (line : Nat)
  /-- `COMMAND name(arguments)` -/
  | command (name : String) (arguments : List Expr) (line : Nat)
  /-- `ABORT` -/
  | abort (line : Nat)
  /-- `REM content` -/
  | remark (content : String) (line : Nat)

mutual

/-- Equality of statements with numeric equality of reals. -/
def Statement.same : Statement → Statement → Bool
  | .assign a is v l, .assign b js w k => a == b && Expr.sameAll is js && v.same w && l == k
  | .dim a i l, .dim b j k => a == b && Expr.sameOption i j && l == k
  | .if_ c t none l, .if_ d u none k => c.same d && Statement.sameAll t u && l == k
  | .if_ c t (some e) l, .if_ d u (some f) k =>
    c.same d && Statement.sameAll t u && Statement.sameAll e f && l == k
  | .while_ c t l, .while_ d u k => c.same d && Statement.sameAll t u && l == k
  | .for_ a i m s t l, .for_ b j n r u k =>
    a == b && i.same j && m.same n && Expr.sameOption s r && Statement.sameAll t u && l == k
  | .return_ v l, .return_ w k => Expr.sameOption v w && l == k
  | .call f as l, .call g bs k => f == g && Expr.sameAll as bs && l == k
  | .print as l, .print bs k => Expr.sameAll as bs && l == k
  | .command f as l, .command g bs k => f == g && Expr.sameAll as bs && l == k
  | .abort l, .abort k => l == k
  | .remark s l, .remark t k => s == t && l == k
  | _, _ => false

/-- Equality of lists of statements. -/
def Statement.sameAll : List Statement → List Statement → Bool
  | [], [] => true
  | a :: as, b :: bs => a.same b && Statement.sameAll as bs
  | _, _ => false

end

end BasicScript
