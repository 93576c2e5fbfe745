/-
  Evaluating expressions and executing statements.

  The functions take fuel, which bounds the depth of their recursion; a loop takes one more unit for
  each pass.  With too little fuel a step stops as `Stop.outOfFuel`, apart from any error.

  * `eval` evaluates an expression, operands and arguments from left to right.
  * `call` finds a callable by name and number of arguments: a subroutine, a native function, or a
    built-in function, in this order.
  * `exec` executes a statement, `block` a list of them up to the first that does not go on.
-/
import BasicScript.Machine.Basic

namespace BasicScript

namespace Machine

variable {σ : Type}

mutual

/-- Evaluates an expression. -/
def eval (fuel : Nat) (e : Expr) : Machine σ Value :=
  match fuel with
  | 0 => throw .outOfFuel
  | fuel + 1 =>
    match e with
    | .literal value _ => pure value.toValue
    | .name name _ => readVariable name
    | .index target key line => do
      let t ← eval fuel target
      let k ← eval fuel key
      readEntry t k line
    | .unary op operand line => do
      let v ← eval fuel operand
      onLine line (Value.unary op v)
    | .binary op left right line => do
      let a ← eval fuel left
      let b ← eval fuel right
      onLine line (Value.binary op a b)
    | .call name arguments line => do
      let vs ← evalAll fuel arguments
      call fuel name vs line

/-- Evaluates expressions from left to right. -/
def evalAll (fuel : Nat) (es : List Expr) : Machine σ (List Value) :=
  match fuel with
  | 0 => throw .outOfFuel
  | fuel + 1 =>
    match es with
    | [] => pure []
    | e :: es => do
      let v ← eval fuel e
      let vs ← evalAll fuel es
      pure (v :: vs)

/-- Evaluates the keys of an assignment; each becomes a key before the next is evaluated. -/
def evalKeys (fuel : Nat) (es : List Expr) (line : Nat) : Machine σ (List Key) :=
  match fuel with
  | 0 => throw .outOfFuel
  | fuel + 1 =>
    match es with
    | [] => pure []
    | e :: es => do
      let v ← eval fuel e
      let k ← onLine line (Key.ofValue v)
      let ks ← evalKeys fuel es line
      pure (k :: ks)

/-- Evaluates an expression to a number. -/
def evalNumber (fuel : Nat) (e : Expr) (line : Nat) : Machine σ Number :=
  match fuel with
  | 0 => throw .outOfFuel
  | fuel + 1 => do
    let v ← eval fuel e
    onLine line v.toNumber

/-- Calls a callable. -/
def call (fuel : Nat) (name : String) (arguments : List Value) (line : Nat) : Machine σ Value :=
  match fuel with
  | 0 => throw .outOfFuel
  | fuel + 1 => do
    let key : CallKey := ⟨name, arguments.length⟩
    let ctx ← get
    match findSubroutine? ctx.subroutines key with
    | some s => inCall (.ofArguments s.params arguments) line (block fuel s.body)
    | none =>
      match ctx.native? key with
      | some f => callNative f key arguments line
      | none =>
        match builtin? ctx.arrays name arguments with
        | some result => onLine line result
        | none => raise (.unknownCallable key) line

/-- Executes statements up to the first that does not go on. -/
def block (fuel : Nat) (ss : List Statement) : Machine σ Flow :=
  match fuel with
  | 0 => throw .outOfFuel
  | fuel + 1 =>
    match ss with
    | [] => pure .next
    | s :: ss => do
      match ← exec fuel s with
      | .next => block fuel ss
      | flow => pure flow

/-- Executes a statement. -/
def exec (fuel : Nat) (s : Statement) : Machine σ Flow :=
  match fuel with
  | 0 => throw .outOfFuel
  | fuel + 1 =>
    match s with
    | .assign name indices value line => do
      let keys ← evalKeys fuel indices line
      let v ← eval fuel value
      store name keys v line
      pure .next
    | .dim name none line => do
      clear name none line
      pure .next
    | .dim name (some key) line => do
      let v ← eval fuel key
      let k ← onLine line (Key.ofValue v)
      clear name (some k) line
      pure .next
    | .if_ condition thenBody elseBody _ => do
      let v ← eval fuel condition
      if v.truthy then block fuel thenBody else block fuel (elseBody.getD [])
    | .while_ condition body line => whileLoop fuel condition body line 0
    | .for_ counter first last step body line => do
      let a ← evalNumber fuel first line
      modify (·.setVariable counter a.toValue)
      let b ← evalNumber fuel last line
      let k ← match step with
        | some e => evalNumber fuel e line
        | none => pure (.integer 1)
      let up ← onLine line (ascending k)
      forLoop fuel counter b.toValue k.toValue up body line 0
    | .return_ none _ => pure (.return_ .empty)
    | .return_ (some value) _ => do
      let v ← eval fuel value
      pure (.return_ v)
    | .call name arguments line => do
      let vs ← evalAll fuel arguments
      let _ ← call fuel name vs line
      pure .next
    | .print arguments _ => do
      let texts ← renderAll fuel arguments
      emit (.print (" ".intercalate texts))
      pure .next
    | .command name arguments _ => do
      let vs ← evalAll fuel arguments
      emit (.command name vs)
      pure .next
    | .abort line => pure (.abort line)
    | .remark content _ => do
      emit (.log content)
      pure .next

/-- Evaluates expressions from left to right; each is rendered before the next is evaluated. -/
def renderAll (fuel : Nat) (es : List Expr) : Machine σ (List String) :=
  match fuel with
  | 0 => throw .outOfFuel
  | fuel + 1 =>
    match es with
    | [] => pure []
    | e :: es => do
      let v ← eval fuel e
      let text := (← get).render v
      let texts ← renderAll fuel es
      pure (text :: texts)

/-- The passes of a `WHILE` loop from the test of its condition on. -/
def whileLoop (fuel : Nat) (condition : Expr) (body : List Statement) (line : Nat)
    (passes : UInt64) : Machine σ Flow :=
  match fuel with
  | 0 => throw .outOfFuel
  | fuel + 1 => do
    let v ← eval fuel condition
    if v.truthy then do
      let passes ← countPass passes line
      match ← block fuel body with
      | .next => whileLoop fuel condition body line passes
      | flow => pure flow
    else pure .next

/-- The passes of a `FOR` loop from the test of its counter on.  The counter is read from its
variable, before the test and before the step. -/
def forLoop (fuel : Nat) (counter : String) (last step : Value) (up : Bool)
    (body : List Statement) (line : Nat) (passes : UInt64) : Machine σ Flow :=
  match fuel with
  | 0 => throw .outOfFuel
  | fuel + 1 => do
    let current ← readVariable counter
    if ← onLine line (counts up current last) then do
      let passes ← countPass passes line
      match ← block fuel body with
      | .next => do
        let current ← readVariable counter
        let next ← onLine line (Value.arithmetic .add current step)
        modify (·.setVariable counter next)
        forLoop fuel counter last step up body line passes
      | flow => pure flow
    else pure .next

end

end Machine

end BasicScript
