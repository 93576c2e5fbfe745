/-
  The state of a running script.

  * `Frame` holds the variables of one activation, `Event` is what the host gets to see.
  * `Native σ` is a function of the host, which may change the host's state of type `σ`.
  * `Context σ` is the whole state: the active frame and those of its callers, the outermost of
    which holds the globals, the subroutines, the natives, the arrays, the limits, the events so far
    and the state of the host.
  * `enter` and `leave` begin and end a call; `leave_enter`: the second undoes the first.
-/
import BasicScript.Arena.Collect
import BasicScript.Arena.Render
import BasicScript.Value.Operators

namespace BasicScript

/-! ## Frames -/

/-- The variables of one activation; the entry nearest to the front counts. -/
structure Frame where
  bindings : List (String × Value)
  deriving DecidableEq

namespace Frame

/-- The frame without variables. -/
def empty : Frame := ⟨[]⟩

/-- The value of a variable, if it is set. -/
def find? (f : Frame) (name : String) : Option Value :=
  (f.bindings.find? fun v => v.1 = name).map (·.2)

/-- The frame without a variable. -/
def erase (f : Frame) (name : String) : Frame := ⟨f.bindings.filter fun v => v.1 ≠ name⟩

/-- The frame with a variable set. -/
def set (f : Frame) (name : String) (v : Value) : Frame := ⟨(name, v) :: (f.erase name).bindings⟩

/-- All values in the frame. -/
def values (f : Frame) : List Value := f.bindings.map (·.2)

/-- The frame of a call: parameters with their arguments, a later one of the same name counting. -/
def ofArguments (params : List String) (arguments : List Value) : Frame :=
  (params.zip arguments).foldl (fun f p => f.set p.1 p.2) empty

end Frame

/-! ## Host -/

/-- What a script shows to its host: a printed line, a remark, the message of an error that ended a
run, a command, or the call of a native function. -/
inductive Event where
  | print (text : String)
  | log (text : String)
  | error (message : String)
  | command (name : String) (arguments : List Value)
  | native (key : CallKey) (arguments : List Value)
  deriving DecidableEq

/-- A function of the host on arguments and the host's state. -/
abbrev Native (σ : Type) := List Value → σ → Except RuntimeError Value × σ

/-- The failure of a native function; the caller adds its name and the line of the call. -/
def nativeFailure (message : String) : RuntimeError := ⟨.nativeFailure "" message, 0⟩

/-- A native function that takes a fixed number of arguments and fails on any other number. -/
def Native.ofArity {σ : Type} (arity : Nat) (f : Native σ) : Native σ := fun arguments host =>
  if arguments.length = arity then f arguments host
  else
    (.error (nativeFailure ("expected " ++ intText arity ++ " argument(s), got " ++
      intText arguments.length)), host)

/-- The limits of a run: nested calls, and passes of a single loop. -/
structure Limits where
  callDepth : Nat := 200
  loopPasses : Option UInt64 := none
  deriving DecidableEq

/-! ## Contexts -/

/-- The state of a running script. -/
structure Context (σ : Type) where
  active : Frame
  /-- The frames below the active one, the outermost first. -/
  callers : Array Frame
  subroutines : List Subroutine
  natives : List (CallKey × Native σ)
  arrays : Arena
  limits : Limits
  /-- The events so far, the latest first. -/
  events : List Event
  host : σ

namespace Context

variable {σ : Type}

/-- The state before the first run. -/
def new (limits : Limits) (host : σ) : Context σ :=
  { active := .empty, callers := #[], subroutines := [], natives := [], arrays := .empty, limits
    events := [], host }

/-- The number of calls that are active. -/
def callDepth (ctx : Context σ) : Nat := ctx.callers.size

/-- The state with one more event. -/
def emit (ctx : Context σ) (e : Event) : Context σ := { ctx with events := e :: ctx.events }

/-- The events in the order in which they arose. -/
def trace (ctx : Context σ) : List Event := ctx.events.reverse

/-! ### Variables -/

/-- The value of a variable of the active frame. -/
def findVariable? (ctx : Context σ) (name : String) : Option Value := ctx.active.find? name

/-- Sets a variable of the active frame. -/
def setVariable (ctx : Context σ) (name : String) (v : Value) : Context σ :=
  { ctx with active := ctx.active.set name v }

/-- The frame of the globals. -/
def globals (ctx : Context σ) : Frame := ctx.callers[0]?.getD ctx.active

/-- Changes the frame of the globals. -/
def modifyGlobals (ctx : Context σ) (f : Frame → Frame) : Context σ :=
  if ctx.callers.isEmpty then { ctx with active := f ctx.active }
  else { ctx with callers := ctx.callers.modify 0 f }

/-- The value of a global; the case of the name does not count. -/
def global? (ctx : Context σ) (name : String) : Option Value := ctx.globals.find? name.toUpper

/-- Sets a global; the case of the name does not count. -/
def setGlobal (ctx : Context σ) (name : String) (v : Value) : Context σ :=
  ctx.modifyGlobals (·.set name.toUpper v)

/-- Removes a global and gives its value; the case of the name does not count. -/
def removeGlobal (ctx : Context σ) (name : String) : Option Value × Context σ :=
  (ctx.global? name, ctx.modifyGlobals (·.erase name.toUpper))

/-! ### Frames -/

/-- Enters a call with a frame of its own. -/
def enter (ctx : Context σ) (frame : Frame) : Context σ :=
  { ctx with active := frame, callers := ctx.callers.push ctx.active }

/-- Leaves the active call; the frame of the globals stays. -/
def leave (ctx : Context σ) : Context σ :=
  match ctx.callers.back? with
  | none => ctx
  | some f => { ctx with active := f, callers := ctx.callers.pop }

/-- Leaving a call gives the state before it. -/
theorem leave_enter (ctx : Context σ) (frame : Frame) : (ctx.enter frame).leave = ctx := by
  simp [enter, leave]

/-- Drops every frame but that of the globals. -/
def resetFrames (ctx : Context σ) : Context σ := { ctx with active := ctx.globals, callers := #[] }

/-! ### Arrays -/

/-- All values in frames: what garbage collection starts from. -/
def roots (ctx : Context σ) : List Value :=
  ctx.active.values ++ ctx.callers.toList.flatMap (·.values)

/-- Reclaims every array that no frame leads to; the number of them comes with the state. -/
def collectGarbage (ctx : Context σ) : Nat × Context σ :=
  let (count, arrays) := ctx.arrays.collect ctx.roots
  (count, { ctx with arrays })

/-- The text of a value with its arrays written out. -/
def render (ctx : Context σ) (v : Value) : String := ctx.arrays.render v

/-! ### Natives -/

/-- The native function of a key. -/
def native? (ctx : Context σ) (key : CallKey) : Option (Native σ) :=
  (ctx.natives.find? fun n => n.1 = key).map (·.2)

/-- Whether a native function of a name in any case and a number of parameters is registered. -/
def hasNative (ctx : Context σ) (name : String) (arity : Nat) : Bool :=
  (ctx.native? ⟨name.toUpper, arity⟩).isSome

/-- Registers a native function under a name in any case and a number of parameters. -/
def register (ctx : Context σ) (name : String) (arity : Nat) (f : Native σ) :
    Except DuplicateNative (Context σ) :=
  let key : CallKey := ⟨name.toUpper, arity⟩
  if (ctx.native? key).isSome then .error ⟨key⟩
  else .ok { ctx with natives := (key, f) :: ctx.natives }

end Context

end BasicScript
