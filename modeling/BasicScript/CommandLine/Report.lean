/-
  What the command line program writes, and how it exits.

  * `Report` is the text for the two outputs and the exit code.
  * `Report.ofRun` runs a script; `Report.unreadable` and `Report.ofRefusal` are the reports without
    a run.
-/
import BasicScript.CommandLine.Options
import BasicScript.Machine.Execute

namespace BasicScript

namespace CommandLine

/-- The text for the standard output and the error output, and the exit code. -/
structure Report where
  output : String
  errors : String
  code : UInt32
  deriving DecidableEq

namespace Report

/-- A text as a line of its own. -/
def asLine (text : String) : String := text ++ "\n"

/-- The line of a command that no host carries out. -/
def commandLine (name : String) (arguments : List Value) : String :=
  "[command] " ++ name ++ "(" ++ ", ".intercalate (arguments.map (·.toText)) ++ ")"

/-- The lines on the standard output: what is printed, and the commands. -/
def outputOf (events : List Event) : String :=
  String.join <| events.map fun
    | .print text => asLine text
    | .command name arguments => asLine (commandLine name arguments)
    | _ => ""

/-- The lines on the error output: the message of an error. -/
def errorsOf (events : List Event) : String :=
  String.join <| events.map fun
    | .error message => asLine message
    | _ => ""

/-- Runs a script with the limits of the options; nothing comes out if the fuel is too little. -/
def ofRun (fuel : Nat) (options : Options) (source : String) : Option Report :=
  let limits : Limits := ⟨options.maxDepth, options.maxLoop⟩
  let (result, ctx) := Context.run fuel source (Context.new limits ())
  let output := outputOf ctx.trace
  let errors := errorsOf ctx.trace
  match result with
  | .completed .finished => some ⟨output, errors, 0⟩
  | .completed (.aborted line) =>
    some ⟨output, errors ++ asLine ("Aborted on line " ++ intText line ++ "."), 2⟩
  | .malformed _ | .failed _ => some ⟨output, errors, 1⟩
  | .outOfFuel => none

/-- The report on a file that cannot be read. -/
def unreadable (path : String) : Report :=
  ⟨"", asLine ("Failed to read the input file '" ++ path ++ "'. Perhaps this file does not exist?"),
    1⟩

/-- How the program is called. -/
def usage : String :=
  "Usage: basicscript [-f|--file] [--max-depth N] [--max-loop N] [-v|--verbose] [--] SCRIPT"

/-- The report on arguments that ask for no run. -/
def ofRefusal : Refusal → Report
  | .help => ⟨asLine usage, "", 0⟩
  | .version => ⟨asLine "basicscript 0.1.0", "", 0⟩
  | .unknownArgument a => ⟨"", asLine ("unexpected argument '" ++ a ++ "'") ++ asLine usage, 2⟩
  | .repeated o => ⟨"", asLine ("option '" ++ o ++ "' given twice") ++ asLine usage, 2⟩
  | .valueMissing o => ⟨"", asLine ("option '" ++ o ++ "' needs a number") ++ asLine usage, 2⟩
  | .valueUnexpected o v =>
    ⟨"", asLine ("option '" ++ o ++ "' takes no value '" ++ v ++ "'") ++ asLine usage, 2⟩
  | .valueInvalid o v =>
    ⟨"", asLine ("'" ++ v ++ "' is no number for option '" ++ o ++ "'") ++ asLine usage, 2⟩
  | .scriptMissing => ⟨"", asLine "no script given" ++ asLine usage, 2⟩

end Report

end CommandLine

end BasicScript
