/-
  The command line program: runs a script given as an argument or in a file.
-/
import BasicScript.CommandLine.Report

namespace BasicScript

namespace CommandLine

/-- The script that the options ask for, if it can be read. -/
def readSource (options : Options) : IO (Option String) := do
  if options.file then
    try
      return some (← IO.FS.readFile options.contents)
    catch _ => return none
  else return some options.contents

/-- Runs a script with ever more fuel until it ends. -/
partial def runToEnd (options : Options) (source : String) (fuel : Nat) : IO Report := do
  match Report.ofRun fuel options source with
  | some report => return report
  | none => runToEnd options source (fuel * 1000)

/-- The report on the arguments. -/
def answer (arguments : List String) : IO Report := do
  match Options.parse arguments with
  | .error refusal => return Report.ofRefusal refusal
  | .ok options =>
    match ← readSource options with
    | none => return Report.unreadable options.contents
    | some source => runToEnd options source 1000000

end CommandLine

end BasicScript

def main (arguments : List String) : IO UInt32 := do
  let report ← BasicScript.CommandLine.answer arguments
  IO.print report.output
  IO.eprint report.errors
  return report.code
