/-
  Runs that never join an array and a text.

  `+` joins texts, and an array next to a text would be joined by the text of its reference, which
  tells in which slot the array is.

  * `Value.joins a b`: one of the operands is an array and the other one a text.
  * `JoinFree.eval`, `JoinFree.exec`, ...: the run of the function of the same name never applies
    `+` to such operands; `Program.joinFree` is about a whole run.
-/
import BasicScript.Proofs.Machine.Runs

namespace BasicScript

variable {σ α : Type}

/-- One of the values is an array and the other one a text. -/
def Value.joins (a b : Value) : Bool :=
  a.handle?.isSome && b.isText || a.isText && b.handle?.isSome

namespace Machine

/-- Whether the result of a step and the context it leaves pass a test; a step without a result
passes. -/
def passes (m : Machine σ α) (ctx : Context σ) (test : α → Context σ → Bool) : Bool :=
  match m ctx with
  | .ok a ctx' => test a ctx'
  | .error _ _ => true

theorem passes_of_ok {m : Machine σ α} {ctx ctx' : Context σ} {test : α → Context σ → Bool} {a : α}
    (hm : m ctx = .ok a ctx') : passes m ctx test = test a ctx' := by
  rw [passes, hm]

end Machine

namespace JoinFree

open Machine (passes)

mutual

def eval (fuel : Nat) (e : Expr) (ctx : Context σ) : Bool :=
  match fuel with
  | 0 => true
  | fuel + 1 =>
    match e with
    | .literal _ _ | .name _ _ => true
    | .index target key _ =>
      eval fuel target ctx && passes (Machine.eval fuel target) ctx fun _ ctx => eval fuel key ctx
    | .unary _ operand _ => eval fuel operand ctx
    | .binary op left right _ =>
      eval fuel left ctx && passes (Machine.eval fuel left) ctx fun a ctx =>
        eval fuel right ctx && passes (Machine.eval fuel right) ctx fun b _ =>
          !(op = .add && a.joins b)
    | .call name arguments _ =>
      evalAll fuel arguments ctx && passes (Machine.evalAll fuel arguments) ctx fun vs ctx =>
        call fuel name vs ctx

def evalAll (fuel : Nat) (es : List Expr) (ctx : Context σ) : Bool :=
  match fuel with
  | 0 => true
  | fuel + 1 =>
    match es with
    | [] => true
    | e :: es => eval fuel e ctx && passes (Machine.eval fuel e) ctx fun _ ctx => evalAll fuel es ctx

def evalKeys (fuel : Nat) (es : List Expr) (line : Nat) (ctx : Context σ) : Bool :=
  match fuel with
  | 0 => true
  | fuel + 1 =>
    match es with
    | [] => true
    | e :: es =>
      eval fuel e ctx && passes (Machine.eval fuel e) ctx fun v ctx =>
        passes (Machine.onLine line (Key.ofValue v)) ctx fun _ ctx => evalKeys fuel es line ctx

def evalNumber (fuel : Nat) (e : Expr) (ctx : Context σ) : Bool :=
  match fuel with
  | 0 => true
  | fuel + 1 => eval fuel e ctx

/-- Only the body of a subroutine applies operators, and only if the call is allowed. -/
def call (fuel : Nat) (name : String) (arguments : List Value) (ctx : Context σ) : Bool :=
  match fuel with
  | 0 => true
  | fuel + 1 =>
    match findSubroutine? ctx.subroutines ⟨name, arguments.length⟩ with
    | some s =>
      ctx.limits.callDepth ≤ ctx.callDepth ||
        block fuel s.body (ctx.enter (.ofArguments s.params arguments))
    | none => true

def block (fuel : Nat) (ss : List Statement) (ctx : Context σ) : Bool :=
  match fuel with
  | 0 => true
  | fuel + 1 =>
    match ss with
    | [] => true
    | s :: ss =>
      exec fuel s ctx && passes (Machine.exec fuel s) ctx fun flow ctx =>
        match flow with
        | .next => block fuel ss ctx
        | _ => true

def exec (fuel : Nat) (s : Statement) (ctx : Context σ) : Bool :=
  match fuel with
  | 0 => true
  | fuel + 1 =>
    match s with
    | .assign _ indices value line =>
      evalKeys fuel indices line ctx && passes (Machine.evalKeys fuel indices line) ctx fun _ ctx =>
        eval fuel value ctx
    | .dim _ none _ => true
    | .dim _ (some key) _ => eval fuel key ctx
    | .if_ condition thenBody elseBody _ =>
      eval fuel condition ctx && passes (Machine.eval fuel condition) ctx fun v ctx =>
        if v.truthy then block fuel thenBody ctx else block fuel (elseBody.getD []) ctx
    | .while_ condition body line => whileLoop fuel condition body line 0 ctx
    | .for_ counter first last step body line =>
      evalNumber fuel first ctx && passes (Machine.evalNumber fuel first line) ctx fun a ctx =>
        let ctx := ctx.setVariable counter a.toValue
        evalNumber fuel last ctx && passes (Machine.evalNumber fuel last line) ctx fun b ctx =>
          (match step with
            | some e => evalNumber fuel e ctx
            | none => true) &&
          passes (match step with
            | some e => Machine.evalNumber fuel e line
            | none => pure (.integer 1)) ctx fun k ctx =>
              passes (Machine.onLine line (Machine.ascending k)) ctx fun up ctx =>
                forLoop fuel counter b.toValue k.toValue up body line 0 ctx
    | .return_ none _ => true
    | .return_ (some value) _ => eval fuel value ctx
    | .call name arguments _ =>
      evalAll fuel arguments ctx && passes (Machine.evalAll fuel arguments) ctx fun vs ctx =>
        call fuel name vs ctx
    | .print arguments _ => renderAll fuel arguments ctx
    | .command _ arguments _ => evalAll fuel arguments ctx
    | .abort _ | .remark _ _ => true

def renderAll (fuel : Nat) (es : List Expr) (ctx : Context σ) : Bool :=
  match fuel with
  | 0 => true
  | fuel + 1 =>
    match es with
    | [] => true
    | e :: es =>
      eval fuel e ctx && passes (Machine.eval fuel e) ctx fun _ ctx => renderAll fuel es ctx

def whileLoop (fuel : Nat) (condition : Expr) (body : List Statement) (line : Nat)
    (count : UInt64) (ctx : Context σ) : Bool :=
  match fuel with
  | 0 => true
  | fuel + 1 =>
    eval fuel condition ctx && passes (Machine.eval fuel condition) ctx fun v ctx =>
      !v.truthy || passes (Machine.countPass count line) ctx fun count ctx =>
        block fuel body ctx && passes (Machine.block fuel body) ctx fun flow ctx =>
          match flow with
          | .next => whileLoop fuel condition body line count ctx
          | _ => true

/-- The step of the loop is a number, so that adding it joins nothing. -/
def forLoop (fuel : Nat) (counter : String) (last step : Value) (up : Bool)
    (body : List Statement) (line : Nat) (count : UInt64) (ctx : Context σ) : Bool :=
  match fuel with
  | 0 => true
  | fuel + 1 =>
    passes (Machine.readVariable counter) ctx fun current ctx =>
      passes (Machine.onLine line (Machine.counts up current last)) ctx fun go ctx =>
        !go || passes (Machine.countPass count line) ctx fun count ctx =>
          block fuel body ctx && passes (Machine.block fuel body) ctx fun flow ctx =>
            match flow with
            | .next =>
              passes (Machine.readVariable counter) ctx fun current ctx =>
                passes (Machine.onLine line (Value.arithmetic .add current step)) ctx
                  fun next ctx =>
                    forLoop fuel counter last step up body line count
                      (ctx.setVariable counter next)
            | _ => true

end

end JoinFree

/-- The run of a program never applies `+` to an array and a text. -/
def Program.joinFree (p : Program) (fuel : Nat) (ctx : Context σ) : Bool :=
  JoinFree.block fuel p.statements (ctx.load p)

end BasicScript
