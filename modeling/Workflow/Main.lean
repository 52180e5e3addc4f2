import Workflow.Command.Inspect
import Workflow.Settings.Basic

/-!
# The program

Reads the settings, the arguments and the file, and writes what the command comes to.
-/

open Workflow

namespace Workflow.Program

/-- How the program is called. -/
def usage : String :=
  "usage: workflow [-h] [--node NODE] [--json] flow_file\n"

/-- The settings in the environment. -/
def settings : IO Settings := do
  let names := [Settings.maxIterationsVariable, Settings.scanLimitVariable,
    Settings.logLevelVariable, Settings.corsOriginsVariable]
  let values ← names.mapM fun name => return (name, ← IO.getEnv name)
  return .ofVariables fun name => (values.find? (·.1 = name)).bind (·.2)

/-- What a path leads to. -/
def entry (path : String) : IO Arguments.Entry := do
  try
    return .file (← IO.FS.readFile path)
  catch
    | .noFileOrDirectory .. => return .missing
    | .inappropriateType .. => return .directory
    | error => throw error

/-- Writes what the command came to, and tells the exit code. -/
def finish : Arguments.Outcome → IO UInt32
  | .ended code output errors => do
    IO.print output
    IO.eprint errors
    return code.toUInt32
  | .isDirectory path => do
    IO.eprintln (path ++ " is a directory")
    return 1
  | .notJson => do
    IO.eprintln "the file is not valid JSON"
    return 1
  | .invalid faults => do
    IO.eprintln (Schema.summary Flow.model faults)
    for fault in faults do
      IO.eprintln (fault.toJson .document).compact
    return 1

end Workflow.Program

/-- The program. -/
def main (arguments : List String) : IO UInt32 := do
  let limits := (← Program.settings).limits
  match Arguments.parse arguments with
  | .error .help =>
    IO.print Program.usage
    return 0
  | .error .misuse =>
    IO.eprint Program.usage
    return 2
  | .ok parsed => Program.finish (parsed.inspect limits (← Program.entry parsed.path))
