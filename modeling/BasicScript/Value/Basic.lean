/-
  Values of the script language.

  * `Handle` refers to an array by its slot and the generation of the slot.
  * `Value` is what variables, array entries and expressions hold; `Value.kind` is its kind,
    `Value.text` its text, `Value.truthy` its worth as a condition.
-/
import BasicScript.Number.Display
import BasicScript.Script.Expr

namespace BasicScript

/-- A reference to an array: the index of its slot and the generation it was issued for. -/
structure Handle where
  index : Nat
  generation : UInt32
  deriving DecidableEq

/-- The text of a reference; the first generation of a slot is left out. -/
def Handle.text (h : Handle) : String :=
  "ARRAY#" ++ intText h.index ++
    if h.generation = 0 then "" else "." ++ intText h.generation.toNat

/-- The kinds of values. -/
inductive ValueKind where
  | empty | integer | real | boolean | string | array
  deriving DecidableEq

/-- The name of a kind in messages. -/
def ValueKind.describe : ValueKind → String
  | empty => "empty" | integer => "integer" | real => "real" | boolean => "boolean"
  | string => "string" | array => "array"

/-- A value; `empty` is the value of whatever has not been set. -/
inductive Value where
  | empty
  | integer (value : Int64)
  | real (value : Binary64)
  | bool (value : Bool)
  | text (value : String)
  | array (handle : Handle)
  deriving DecidableEq

/-- The text of a truth value. -/
def boolText (b : Bool) : String := if b then "TRUE" else "FALSE"

/-- The value of a literal. -/
def Literal.toValue : Literal → Value
  | integer n => .integer n
  | real x => .real x
  | bool b => .bool b
  | text s => .text s

namespace Value

def kind : Value → ValueKind
  | empty => .empty
  | integer _ => .integer
  | real _ => .real
  | bool _ => .boolean
  | text _ => .string
  | array _ => .array

/-- The text of a value, an array being shown by its reference. -/
def toText : Value → String
  | empty => ""
  | integer n => intText n.toInt
  | real x => x.text
  | bool b => boolText b
  | text s => s
  | array h => h.text

/-- Whether a condition with this value holds: numbers other than zero, texts other than the empty
one, and every array do. -/
def truthy : Value → Bool
  | empty => false
  | integer n => n ≠ 0
  | real x => !x.isZero
  | bool b => b
  | text s => s ≠ ""
  | array _ => true

def isText : Value → Bool
  | text _ => true
  | _ => false

/-- The reference that an array value holds. -/
def handle? : Value → Option Handle
  | array h => some h
  | _ => none

end Value

end BasicScript
