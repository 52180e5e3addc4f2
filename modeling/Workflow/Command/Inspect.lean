import Workflow.Command.Arguments
import Workflow.Flow.Document
import Workflow.Json.Reader
import Workflow.Json.Writer
import Workflow.Report.Text

/-!
# The command

The command reads a flow from a file and writes reports on its blocks, as a text or
as JSON.

## Main definitions

* `Arguments.Entry` — what a path leads to
* `Arguments.Outcome` — how the command ends
* `Arguments.inspect` — what the command comes to on what its path leads to
* `Arguments.run` — the command on a store of files
-/

namespace Workflow.Arguments

/-- What a path leads to. -/
inductive Entry where
  | missing
  | directory
  | file (text : String)
  deriving DecidableEq, Repr

/-- How the command ends. -/
inductive Outcome where
  /-- The exit code, with what goes to the output and to the error output. -/
  | ended (code : Nat) (output errors : String)
  /-- The path leads to a directory, which has no text. -/
  | isDirectory (path : String)
  /-- The file is no JSON. -/
  | notJson
  /-- The file describes no flow. -/
  | invalid (faults : List Schema.Fault)
  deriving DecidableEq, Repr

/-- What is written about a flow. -/
def describe (arguments : Arguments) (limits : Limits) (flow : Flow) : String :=
  let reports := match arguments.nodes with
    | none => flow.reportsOnHeads limits
    | some ids => flow.reportsOn limits ids
  let text :=
    if arguments.json then (Json.arr (reports.map BlockReport.toJson)).pretty
    else BlockReport.text reports
  text ++ "\n"

/-- What the command comes to on what its path leads to. -/
def inspect (arguments : Arguments) (limits : Limits) : Entry → Outcome
  | .missing => .ended 1 "" ("Error: flow file not found: " ++ arguments.path ++ "\n")
  | .directory => .isDirectory arguments.path
  | .file text =>
    match Json.read? text with
    | none => .notJson
    | some value =>
      match Flow.ofJson value with
      | .faulty faults => .invalid faults
      | .valid flow => .ended 0 (arguments.describe limits flow) ""

/-- The command with the entries that paths lead to. -/
def run (limits : Limits) (entry : String → Entry) (arguments : List String) : Outcome :=
  match parse arguments with
  | .error .help => .ended 0 "" ""
  | .error .misuse => .ended 2 "" ""
  | .ok arguments => arguments.inspect limits (entry arguments.path)

end Workflow.Arguments
