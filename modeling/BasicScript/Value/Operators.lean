/-
  Operators on values.

  * `arithmetic` is exact or refused on integers and rounded once on reals; `+` joins texts.
  * `looseEq` is equality, which never fails; `order` is the order of texts and of numbers.
  * `comparison`, `logic` and `binary` apply a binary operator, `unary` a unary one.
-/
import BasicScript.Value.Coercion

namespace BasicScript

namespace Value

/-! ## Arithmetic -/

/-- An integer in range, or the fault of one out of range. -/
def inRange (n : Int) : Except Fault Value :=
  match checked n with
  | some i => .ok (.integer i)
  | none => .error .overflow

/-- Integer arithmetic: the quotient goes toward zero, and the remainder is refused together with
its quotient. -/
def integerArithmetic (op : BinaryOp) (a b : Int64) : Except Fault Value :=
  let m := a.toInt
  let n := b.toInt
  match op with
  | .add => inRange (m + n)
  | .sub => inRange (m - n)
  | .mul => inRange (m * n)
  | .div => if n = 0 then .error .divisionByZero else inRange (m.tdiv n)
  | .mod =>
    if n = 0 then .error .divisionByZero
    else (inRange (m.tdiv n)).bind fun _ => inRange (m.tmod n)
  | _ => .error (.type (.notArithmetic op))

/-- Real arithmetic; a divisor equal to zero is refused. -/
def realArithmetic (op : BinaryOp) (x y : Binary64) : Except Fault Value :=
  match op with
  | .add => .ok (.real (x.add y))
  | .sub => .ok (.real (x.sub y))
  | .mul => .ok (.real (x.mul y))
  | .div => if y.isZero then .error .divisionByZero else .ok (.real (x.div y))
  | .mod => if y.isZero then .error .divisionByZero else .ok (.real (x.rem y))
  | _ => .error (.type (.notArithmetic op))

/-- The arithmetic operators; `+` joins the texts of its operands if one of them is a text. -/
def arithmetic (op : BinaryOp) (a b : Value) : Except Fault Value :=
  if op = .add ∧ (a.isText ∨ b.isText) then .ok (.text (a.toText ++ b.toText))
  else do
    match ← toNumbers a b with
    | (.integer m, .integer n) => integerArithmetic op m n
    | (m, n) => realArithmetic op m.toReal n.toReal

/-! ## Comparison -/

/-- Whether two values are numbers or worth numbers, and equal ones. -/
def sameNumber (a b : Value) : Bool :=
  match a.toNumber, b.toNumber with
  | .ok m, .ok n => m.same n
  | _, _ => false

/-- Equality.  A text equals a number that it reads as; the empty text equals `empty`; arrays are
equal as references. -/
def looseEq : Value → Value → Bool
  | text s, text t => s = t
  | array g, array h => g = h
  | array _, _ | _, array _ => false
  | text s, empty | empty, text s => s = ""
  | a, b => sameNumber a b

/-- The order of two values: texts by code points, all else as numbers. -/
def order (a b : Value) : Except Fault Ordering :=
  match a, b with
  | text s, text t => .ok (compare s t)
  | a, b => do
    match ← toNumbers a b with
    | (.integer m, .integer n) => pure (compare m.toInt n.toInt)
    | (m, n) =>
      match m.toReal.compare? n.toReal with
      | some o => pure o
      | none => throw (.type .unorderedNaN)

/-- The comparison operators. -/
def comparison (op : BinaryOp) (a b : Value) : Except Fault Value :=
  match op with
  | .equal => .ok (.bool (looseEq a b))
  | .notEqual => .ok (.bool (!looseEq a b))
  | .less => (order a b).map fun o => .bool (o = .lt)
  | .greater => (order a b).map fun o => .bool (o = .gt)
  | .lessEqual => (order a b).map fun o => .bool (o ≠ .gt)
  | .greaterEqual => (order a b).map fun o => .bool (o ≠ .lt)
  | _ => .error (.type (.notAComparison op))

/-! ## All operators -/

/-- The logical operators on the worth of both operands; any other operator acts as `XOR`. -/
def logic (op : BinaryOp) (a b : Value) : Value :=
  match op with
  | .and_ => .bool (a.truthy && b.truthy)
  | .or_ => .bool (a.truthy || b.truthy)
  | _ => .bool (a.truthy ^^ b.truthy)

/-- A binary operator. -/
def binary (op : BinaryOp) (a b : Value) : Except Fault Value :=
  match op with
  | .add | .sub | .mul | .div | .mod => arithmetic op a b
  | .and_ | .or_ | .xor => .ok (logic op a b)
  | _ => comparison op a b

/-- A unary operator. -/
def unary (op : UnaryOp) (a : Value) : Except Fault Value :=
  match op with
  | .not_ => .ok (.bool !a.truthy)
  | .negate => do
    match ← a.toNumber with
    | .integer n => inRange (-n.toInt)
    | .real x => pure (.real x.neg)

end Value

end BasicScript
