import Workflow.Report.Basic

/-!
# Reports to read

Reports are listed one to a line between a heading and a closing line that says
whether every block is closed.
-/

namespace Workflow.BlockReport

/-- A line of one character. -/
def rule (c : Char) (width : Nat) : String := "".pushn c width

/-- The line for one head. A step without a kind is said to be of kind `None`. -/
def line (report : BlockReport) : String :=
  let start := "  • " ++ report.head ++ " [" ++ report.kind.getD "None" ++ "] -> "
  match report.merge with
  | none => start ++ "OPEN (no merge node reachable)"
  | some merge =>
    start ++ merge ++ (if report.cached then " (cached)" else "") ++ ", " ++
      toString report.bodySize ++ " node(s) in block"

/-- The closing line. -/
def verdict (reports : List BlockReport) : String :=
  let count := reports.countP (·.merge.isNone)
  if count = 0 then "✓ All blocks closed" else "⚠ " ++ toString count ++ " open block(s)"

/-- The lines of a list of reports. -/
def lines (reports : List BlockReport) : List String :=
  [rule '=' 60, "BLOCK STRUCTURE", rule '=' 60] ++
    (if reports = [] then ["  (no block heads found)"] else reports.map line) ++
    [rule '-' 40, verdict reports]

/-- A list of reports as a text. -/
def text (reports : List BlockReport) : String := String.intercalate "\n" (lines reports)

end Workflow.BlockReport
