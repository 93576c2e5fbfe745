/-
  Steps of a running script that take no fuel.

  * `Machine σ α` is a step on a `Context σ`: it gives an `α`, fails, or runs out of fuel, and
    leaves a context in each case.
  * `inCall` runs the body of a subroutine in a frame of its own, which is left again whatever comes
    out.
  * `callNative` and `builtin?` are the other two kinds of callables.
  * `storeAt`, `store` and `clear` write variables and array entries.
  * `countPass` counts the passes of a loop against the limit.
-/
import BasicScript.Machine.Context

namespace BasicScript

/-- Why a step gives no result. -/
inductive Stop where
  | outOfFuel
  | raised (error : RuntimeError)
  deriving DecidableEq

/-- A step of a running script. -/
abbrev Machine (σ : Type) := EStateM Stop (Context σ)

/-- What a statement does to the flow of control: go on, leave the call with a value, or stop the
run. -/
inductive Flow where
  | next
  | return_ (value : Value)
  | abort (line : Nat)
  deriving DecidableEq

namespace Machine

variable {σ : Type} {α : Type}

/-- Fails with a fault on a line. -/
def raise (fault : Fault) (line : Nat) : Machine σ α := throw (.raised ⟨fault, line⟩)

/-- A result, or its fault on a line. -/
def onLine (line : Nat) : Except Fault α → Machine σ α
  | .ok a => pure a
  | .error fault => raise fault line

/-- Shows an event to the host. -/
def emit (e : Event) : Machine σ Unit := modify (·.emit e)

/-! ## Reading -/

/-- The value of a variable, `empty` if it is not set. -/
def readVariable (name : String) : Machine σ Value := do
  return ((← get).findVariable? name).getD .empty

/-- The value `target[key]`; there is nothing in `empty`. -/
def readEntry (target key : Value) (line : Nat) : Machine σ Value := do
  match target with
  | .array h => do
    let k ← onLine line (Key.ofValue key)
    return (← get).arrays.lookup h k
  | .empty => pure .empty
  | v => raise (.type (.notIndexable v.kind)) line

/-! ## Writing -/

/-- A new empty array. -/
def allocate : Machine σ Handle :=
  modifyGet fun ctx =>
    let (h, arrays) := ctx.arrays.allocate
    (h, { ctx with arrays })

/-- Changes the entries of an array, which has to be alive. -/
def modifyEntries (h : Handle) (line : Nat) (f : Entries → Entries) : Machine σ Unit := do
  if (← get).arrays.isLive h then
    modify fun ctx => { ctx with arrays := ctx.arrays.modify h f }
  else raise (.type (.notAlive h)) line

/-- The live array that a value refers to. -/
def liveArray? (v : Value) : Machine σ (Option Handle) := do
  let arrays := (← get).arrays
  return v.handle?.filter arrays.isLive

/-- The live array that a variable holds; the variable is set to a new one if there is none. -/
def variableArray (name : String) : Machine σ Handle := do
  match ← liveArray? (← readVariable name) with
  | some h => pure h
  | none => do
    let h ← allocate
    modify (·.setVariable name (.array h))
    pure h

/-- The live array in an entry; the entry is set to a new one if there is none. -/
def entryArray (parent : Handle) (key : Key) (line : Nat) : Machine σ Handle := do
  match ← liveArray? ((← get).arrays.lookup parent key) with
  | some h => pure h
  | none => do
    let h ← allocate
    modifyEntries parent line (·.insert key (.array h))
    pure h

/-- Sets `h[key][k]...`, going through the arrays in the entries of the path. -/
def storeAt (value : Value) (line : Nat) : Handle → Key → List Key → Machine σ Unit
  | h, key, [] => modifyEntries h line (·.insert key value)
  | h, key, k :: ks => do
    let inner ← entryArray h key line
    storeAt value line inner k ks

/-- Sets a variable, or the entry of the array in it that the keys lead to. -/
def store (name : String) (keys : List Key) (value : Value) (line : Nat) : Machine σ Unit :=
  match keys with
  | [] => modify (·.setVariable name value)
  | k :: ks => do
    let h ← variableArray name
    storeAt value line h k ks

/-- Sets a variable to a new array, or removes the entry of a key from the array in it. -/
def clear (name : String) (key : Option Key) (line : Nat) : Machine σ Unit := do
  match key with
  | none => do
    let h ← allocate
    modify (·.setVariable name (.array h))
  | some k => do
    let h ← variableArray name
    modifyEntries h line (·.erase k)

/-! ## Calls -/

/-- Runs the body of a subroutine in a frame of its own, if one more call is allowed; a `RETURN`
gives the result, an `ABORT` goes on as an error. -/
def inCall (frame : Frame) (line : Nat) (body : Machine σ Flow) : Machine σ Value := fun ctx =>
  if ctx.limits.callDepth ≤ ctx.callDepth then
    .error (.raised ⟨.recursionLimit ctx.limits.callDepth, line⟩) ctx
  else
    match body (ctx.enter frame) with
    | .ok .next ctx' => .ok .empty ctx'.leave
    | .ok (.return_ v) ctx' => .ok v ctx'.leave
    | .ok (.abort l) ctx' => .error (.raised ⟨.aborted, l⟩) ctx'.leave
    | .error e ctx' => .error e ctx'.leave

/-- The error of a native function as the script sees it: a failure gets the name and the line of
the call. -/
def nativeError (key : CallKey) (line : Nat) (e : RuntimeError) : RuntimeError :=
  match e.fault with
  | .nativeFailure _ message => ⟨.nativeFailure key.name message, line⟩
  | _ => e

/-- Calls a native function. -/
def callNative (f : Native σ) (key : CallKey) (arguments : List Value) (line : Nat) :
    Machine σ Value := fun ctx =>
  let (result, host) := f arguments ctx.host
  let ctx := { ctx.emit (.native key arguments) with host }
  match result with
  | .ok v => .ok v ctx
  | .error e => .error (.raised (nativeError key line e)) ctx

/-- The names of the built-in functions. -/
def builtins : List String := ["LEN", "HAS"]

/-- `LEN(v)`: the entries of an array, or the characters of any other value. -/
def lengthOf (arrays : Arena) : Value → Nat
  | .array h => arrays.length h
  | v => v.toText.length

/-- `HAS(array, key)`: whether the array holds the key; only the keys of an array are checked. -/
def has (arrays : Arena) (target key : Value) : Except Fault Bool :=
  match target with
  | .array h => (Key.ofValue key).map (arrays.containsKey h)
  | _ => .ok false

/-- The built-in function of a name, applied. -/
def builtin? (arrays : Arena) (name : String) : List Value → Option (Except Fault Value)
  | [v] => if name = "LEN" then some ((ofCount (lengthOf arrays v)).map .integer) else none
  | [v, k] => if name = "HAS" then some ((has arrays v k).map .bool) else none
  | _ => none

/-! ## Loops -/

/-- Counts one more pass of a loop; the count is kept in 64 bits. -/
def countPass (passes : UInt64) (line : Nat) : Machine σ UInt64 := do
  let count := passes + 1
  match (← get).limits.loopPasses with
  | some limit => if limit < count then raise (.loopLimit limit) line else pure count
  | none => pure count

/-- Whether a step counts up; a step that is zero or not a number is refused. -/
def ascending (step : Number) : Except Fault Bool :=
  match step with
  | .integer n => if n = 0 then .error .zeroStep else .ok (0 < n)
  | .real x => if x.isNaN || x.isZero then .error .zeroStep else .ok (!x.isNegative)

/-- The condition of a counting loop, on the counter and the last value. -/
def counts (up : Bool) (current last : Value) : Except Fault Bool :=
  (Value.comparison (if up then .lessEqual else .greaterEqual) current last).map (·.truthy)

end Machine

end BasicScript
