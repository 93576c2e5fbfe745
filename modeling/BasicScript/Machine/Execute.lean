/-
  Running programs against a context.

  * `Completion` is how a run ends without an error; an `ABORT` at any depth is a completion.
  * `execute` runs a program: its subroutines replace those of the same name and number of
    parameters and stay callable afterwards; an error that ends the run is shown to the host once.
  * `Context.run` does so from the source text, an error in which is shown to the host as well.
  * `callFromHost` calls a callable by a name in any case.
-/
import BasicScript.Machine.Evaluate
import BasicScript.Parser.Program

namespace BasicScript

/-- How a run ends without an error: at its end or a `RETURN`, or at an `ABORT`. -/
inductive Completion where
  | finished
  | aborted (line : Nat)
  deriving DecidableEq

variable {σ : Type}

namespace Machine

/-- Runs a program. -/
def execute (fuel : Nat) (p : Program) : Machine σ Completion := fun ctx =>
  let ctx := ctx.resetFrames
  let ctx := { ctx with subroutines := install p.subroutines ctx.subroutines }
  match block fuel p.statements ctx with
  | .ok (.abort line) ctx => .ok (.aborted line) ctx.resetFrames
  | .ok _ ctx => .ok .finished ctx.resetFrames
  | .error .outOfFuel ctx => .error .outOfFuel ctx
  | .error (.raised e) ctx =>
    match e.fault with
    | .aborted => .ok (.aborted e.line) ctx.resetFrames
    | _ => .error (.raised e) (ctx.resetFrames.emit (.error e.message))

/-- Calls a callable from the host, on line 0; the case of the name does not count. -/
def callFromHost (fuel : Nat) (name : String) (arguments : List Value) : Machine σ Value :=
  call fuel name.toUpper arguments 0

end Machine

/-- The outcome of running a source text. -/
inductive RunResult where
  | completed (completion : Completion)
  | malformed (error : ParseError)
  | failed (error : RuntimeError)
  | outOfFuel
  deriving DecidableEq

/-- Runs a source text. -/
def Context.run (fuel : Nat) (source : String) (ctx : Context σ) : RunResult × Context σ :=
  match Program.parse source with
  | .error e => (.malformed e, ctx.emit (.error e.message))
  | .ok p =>
    match Machine.execute fuel p ctx with
    | .ok c ctx => (.completed c, ctx)
    | .error (.raised e) ctx => (.failed e, ctx)
    | .error .outOfFuel ctx => (.outOfFuel, ctx)

end BasicScript
