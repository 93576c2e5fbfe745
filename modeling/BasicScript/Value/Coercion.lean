/-
  Numbers in values: what a value is worth in arithmetic.

  * `parseNumber?` reads a text as a number: a 64-bit integer if it is one, a finite real otherwise.
  * `Value.toNumber` coerces a value, `Value.toReal` and `Value.toInteger` go on to one of the two
    kinds of numbers.
  * `Number.promote` brings two numbers to one kind.
-/
import BasicScript.Number.Checked
import BasicScript.RuntimeError
import BasicScript.Text.Blank

namespace BasicScript

/-- A number of either kind. -/
inductive Number where
  | integer (value : Int64)
  | real (value : Binary64)
  deriving DecidableEq

namespace Number

def toValue : Number → Value
  | integer n => .integer n
  | real x => .real x

/-- The nearest real. -/
def toReal : Number → Binary64
  | integer n => .ofInt n.toInt
  | real x => x

/-- Two numbers of one kind: an integer next to a real becomes a real. -/
def promote : Number → Number → Number × Number
  | integer a, real y => (real (.ofInt a.toInt), real y)
  | real x, integer b => (real x, real (.ofInt b.toInt))
  | a, b => (a, b)

/-- Numeric equality after promotion. -/
def same (a b : Number) : Bool :=
  match promote a b with
  | (integer m, integer n) => m = n
  | (x, y) => x.toReal.numEq y.toReal

end Number

/-- Reads a finite real with an optional sign. -/
def readReal? (cs : List Char) : Option Binary64 :=
  let (negative, unsigned) := splitSign cs
  ((Decimal.read? unsigned).map (·.toBinary64 negative)).filter (·.isFinite)

/-- Reads a text as a number; blanks around it do not count. -/
def parseNumber? (text : String) : Option Number :=
  let cs := trim text.toList
  match (readInt? cs).bind checked with
  | some n => some (.integer n)
  | none => (readReal? cs).map .real

namespace Value

/-- The number that a value is worth. -/
def toNumber : Value → Except Fault Number
  | integer n => .ok (.integer n)
  | real x => .ok (.real x)
  | empty => .ok (.integer 0)
  | bool b => .ok (.integer (if b then 1 else 0))
  | text s =>
    match parseNumber? s with
    | some n => .ok n
    | none => .error (.type (.notANumber s))
  | array _ => .error (.type .arrayAsNumber)

/-- The real that a value is worth. -/
def toReal (v : Value) : Except Fault Binary64 := v.toNumber.map (·.toReal)

/-- The integer that a value is worth; a real counts if it holds a whole number exactly. -/
def toInteger (v : Value) : Except Fault Int64 := do
  match ← v.toNumber with
  | .integer n => pure n
  | .real x =>
    match x.toSafeInt? with
    | some n => pure (.ofInt n)
    | none => throw (.type (.notAnInteger x))

/-- The numbers that two values are worth, of one kind; the fault of the left one comes first. -/
def toNumbers (a b : Value) : Except Fault (Number × Number) := do
  let m ← a.toNumber
  let n ← b.toNumber
  pure (m.promote n)

end Value

/-- A count as an integer. -/
def ofCount (n : Nat) : Except Fault Int64 :=
  match checked n with
  | some i => .ok i
  | none => .error .overflow

end BasicScript
