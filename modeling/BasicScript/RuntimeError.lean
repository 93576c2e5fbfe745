/-
  Errors of a run: what went wrong, and on which line.

  * `TypeFault` and `KeyFault` say why a value does not fit, in words of its own where the reason is
    that of a native function; `Fault` lists all causes.
  * `RuntimeError` adds the line, `RuntimeError.message` is the wording.
  * `DuplicateNative` is the error of registering a native function twice.
-/
import BasicScript.ParseError
import BasicScript.Script.Program
import BasicScript.Value.Basic

namespace BasicScript

/-- Why a value does not fit an operation; `other` is for the reasons that native functions give. -/
inductive TypeFault where
  | notANumber (text : String)
  | arrayAsNumber
  | notAnInteger (value : Binary64)
  | notArithmetic (op : BinaryOp)
  | notAComparison (op : BinaryOp)
  | unorderedNaN
  | notIndexable (kind : ValueKind)
  | notAlive (handle : Handle)
  | other (details : String)
  deriving DecidableEq

/-- Why a value cannot be an array key; `other` is for the reasons that native functions give. -/
inductive KeyFault where
  | nan
  | kind (kind : ValueKind)
  | other (details : String)
  deriving DecidableEq

/-- What can go wrong in a run; `aborted` is an `ABORT` on its way out of a call. -/
inductive Fault where
  | unknownCallable (key : CallKey)
  | type (fault : TypeFault)
  | divisionByZero
  | overflow
  | invalidKey (fault : KeyFault)
  | zeroStep
  | recursionLimit (limit : Nat)
  | loopLimit (limit : UInt64)
  | nativeFailure (name message : String)
  | aborted
  deriving DecidableEq

/-- A fault and the line it arose on; line 0 is the host. -/
structure RuntimeError where
  fault : Fault
  line : Nat
  deriving DecidableEq

def TypeFault.describe : TypeFault → String
  | notANumber text => "'" ++ text ++ "' is not a number"
  | arrayAsNumber => "an array cannot be used as a number"
  | notAnInteger value => value.text ++ " is not an integer"
  | notArithmetic op => "'" ++ op.sign ++ "' is not an arithmetic operator"
  | notAComparison op => "'" ++ op.sign ++ "' is not a comparison"
  | unorderedNaN => "cannot order NaN"
  | notIndexable kind => "cannot index a value of type " ++ kind.describe
  | notAlive handle => handle.text ++ " is no longer alive"
  | other details => details

def KeyFault.describe : KeyFault → String
  | nan => "NaN cannot be a key"
  | kind k => "a value of type " ++ k.describe ++ " cannot be a key"
  | other details => details

/-- The wording of a fault. -/
def Fault.describe : Fault → String
  | unknownCallable key =>
    "Unknown subroutine '" ++ key.name ++ "' taking " ++ intText key.arity ++ " argument(s)."
  | type fault => "Type error: " ++ fault.describe ++ "."
  | divisionByZero => "Division by zero."
  | overflow => "Integer overflow while trying to compute result."
  | invalidKey fault => "Invalid array key: " ++ fault.describe ++ "."
  | zeroStep => "FOR loop STEP must not be zero."
  | recursionLimit limit => "Recursion limit of " ++ intText limit ++ " calls exceeded."
  | loopLimit limit => "Loop exceeded " ++ intText limit.toNat ++ " iterations."
  | nativeFailure name message => "Native function '" ++ name ++ "' failed: " ++ message ++ "."
  | aborted => "Program aborted."

/-- The message of an error. -/
def RuntimeError.message (e : RuntimeError) : String := errorOnLine e.line e.fault.describe

/-- A native function of this name and number of parameters is registered already. -/
structure DuplicateNative where
  key : CallKey
  deriving DecidableEq

/-- The message of a registration error. -/
def DuplicateNative.message (e : DuplicateNative) : String :=
  "Native function '" ++ e.key.name ++ "' with " ++ intText e.key.arity ++
    " parameter(s) is already registered."

end BasicScript
