/-
  The options of the command line.

  Options and the script may come in any order; `--` ends the options.  An option may be given once;
  its value follows it or stands behind `=`.  Flags of one letter may be written together.

  * `Options.parse` reads the arguments; `Refusal` says why they are not a run.
-/
import BasicScript.Number.Decimal

namespace BasicScript

namespace CommandLine

/-- What to run, and how. -/
structure Options where
  /-- Whether `contents` names a file that holds the script. -/
  file : Bool
  maxDepth : Nat
  maxLoop : Option UInt64
  verbose : Bool
  contents : String
  deriving DecidableEq

/-- Why the arguments ask for no run. -/
inductive Refusal where
  | help
  | version
  | unknownArgument (argument : String)
  | repeated (option : String)
  | valueMissing (option : String)
  | valueUnexpected (option value : String)
  | valueInvalid (option value : String)
  | scriptMissing
  deriving DecidableEq

/-- The options that take a number. -/
inductive NumberOption where
  | maxDepth | maxLoop
  deriving DecidableEq

def NumberOption.spelling : NumberOption → String
  | maxDepth => "--max-depth"
  | maxLoop => "--max-loop"

/-- What has been read of the arguments so far. -/
structure Reading where
  file : Bool := false
  verbose : Bool := false
  maxDepth : Option Nat := none
  maxLoop : Option Nat := none
  contents : Option String := none
  /-- The option whose value comes next. -/
  pending : Option NumberOption := none
  /-- Whether `--` has ended the options. -/
  ended : Bool := false

namespace Reading

/-- A natural number below `2^64` in digits, which may follow a `+`. -/
def number? (text : String) : Option Nat :=
  let digits := match text.toList with
    | '+' :: ds => ds
    | ds => ds
  if digits ≠ [] ∧ digits.all Char.isDigit ∧ ofDigits digits < UInt64.size then
    some (ofDigits digits)
  else none

/-- Sets the value of an option. -/
def setNumber (r : Reading) (option : NumberOption) (value : String) : Except Refusal Reading :=
  match number? value with
  | none => .error (.valueInvalid option.spelling value)
  | some n =>
    match option with
    | .maxDepth =>
      if r.maxDepth.isSome then .error (.repeated option.spelling)
      else .ok { r with maxDepth := some n, pending := none }
    | .maxLoop =>
      if r.maxLoop.isSome then .error (.repeated option.spelling)
      else .ok { r with maxLoop := some n, pending := none }

def setFile (r : Reading) : Except Refusal Reading :=
  if r.file then .error (.repeated "--file") else .ok { r with file := true }

def setVerbose (r : Reading) : Except Refusal Reading :=
  if r.verbose then .error (.repeated "--verbose") else .ok { r with verbose := true }

/-- Reads the script, or the name of its file. -/
def setContents (r : Reading) (argument : String) : Except Refusal Reading :=
  if r.contents.isSome then .error (.unknownArgument argument)
  else .ok { r with contents := some argument }

/-- Reads flags of one letter each. -/
def shortFlags (r : Reading) : List Char → Except Refusal Reading
  | [] => .ok r
  | 'f' :: cs => do (← r.setFile).shortFlags cs
  | 'v' :: cs => do (← r.setVerbose).shortFlags cs
  | 'h' :: _ => .error .help
  | 'V' :: _ => .error .version
  | c :: _ => .error (.unknownArgument (String.ofList ['-', c]))

/-- Reads a long option, with the value behind its `=` if there is one. -/
def longOption (r : Reading) (name : String) (value : Option String) : Except Refusal Reading :=
  match name, value with
  | "max-depth", some v => r.setNumber .maxDepth v
  | "max-loop", some v => r.setNumber .maxLoop v
  | "max-depth", none => .ok { r with pending := some .maxDepth }
  | "max-loop", none => .ok { r with pending := some .maxLoop }
  | "file", none => r.setFile
  | "verbose", none => r.setVerbose
  | "help", none => .error .help
  | "version", none => .error .version
  | _, some v => .error (.valueUnexpected name v)
  | _, none => .error (.unknownArgument name)

/-- Reads one more argument. -/
def step (r : Reading) (argument : String) : Except Refusal Reading :=
  let cs := argument.toList
  let isOption := cs.head? = some '-' ∧ cs ≠ ['-']
  if r.ended then r.setContents argument
  else
    match r.pending with
    | some option =>
      if isOption then .error (.valueMissing option.spelling) else r.setNumber option argument
    | none =>
      match cs with
      | ['-', '-'] => .ok { r with ended := true }
      | '-' :: '-' :: rest =>
        let name := rest.takeWhile (· ≠ '=')
        let value := match rest.dropWhile (· ≠ '=') with
          | _ :: v => some (String.ofList v)
          | [] => none
        r.longOption (String.ofList name) value
      | '-' :: c :: rest => r.shortFlags (c :: rest)
      | _ => r.setContents argument

/-- The options, once all arguments are read. -/
def finish (r : Reading) : Except Refusal Options :=
  match r.pending, r.contents with
  | some option, _ => .error (.valueMissing option.spelling)
  | none, none => .error .scriptMissing
  | none, some contents =>
    .ok ⟨r.file, r.maxDepth.getD 200, r.maxLoop.map UInt64.ofNat, r.verbose, contents⟩

end Reading

/-- Reads the arguments. -/
def Options.parse (arguments : List String) : Except Refusal Options := do
  let r ← arguments.foldlM Reading.step {}
  r.finish

end CommandLine

end BasicScript
