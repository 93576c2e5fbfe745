/-
  Keys of arrays.

  * `Key.ofValue` is the key of a value; a real that holds a whole number is the key of that
    integer, so that numerically equal numbers name one entry.
  * `Key.compare` orders the keys: truth values, integers, reals with `nan` after the numbers, texts.
-/
import BasicScript.RuntimeError

namespace BasicScript

/-- A key of an array. -/
inductive Key where
  | bool (value : Bool)
  | integer (value : Int64)
  | real (value : Binary64)
  | text (value : String)
  deriving DecidableEq

namespace Key

/-- The key of a value. -/
def ofValue : Value → Except Fault Key
  | .integer n => .ok (integer n)
  | .real x =>
    if x.isNaN then .error (.invalidKey .nan)
    else match x.toSafeInt? with
      | some n => .ok (integer (.ofInt n))
      | none => .ok (real x)
  | .bool b => .ok (bool b)
  | .text s => .ok (text s)
  | .empty => .error (.invalidKey (.kind .empty))
  | .array _ => .error (.invalidKey (.kind .array))

/-- The value that a key stands for. -/
def toValue : Key → Value
  | bool b => .bool b
  | integer n => .integer n
  | real x => .real x
  | text s => .text s

/-- The text of a key. -/
def toText (k : Key) : String := k.toValue.toText

/-- The place of the kind of a key in the order. -/
def rank : Key → Nat
  | bool _ => 0
  | integer _ => 1
  | real _ => 2
  | text _ => 3

/-- The order of reals as keys: that of the numbers, with `nan` after all of them. -/
def compareReal (x y : Binary64) : Ordering :=
  (x.compare? y).getD (Ord.compare x.isNaN.toNat y.isNaN.toNat)

/-- The order of keys: by kind, then by value, texts by code points. -/
def compare : Key → Key → Ordering
  | bool a, bool b => Ord.compare a.toNat b.toNat
  | integer a, integer b => Ord.compare a.toInt b.toInt
  | real x, real y => compareReal x y
  | text s, text t => Ord.compare s t
  | a, b => Ord.compare a.rank b.rank

end Key

end BasicScript
