import CoreShell.Architecture.Evaluation
import CoreShell.Report.Style
import CoreShell.Text.Capital

/-!
# Terminal Reports

The result of a check and a list of classifications, as lines of text for a
reader.

## Main definitions

* `Report.axis`: The lines on one axis.
* `Report.evaluation`: The text of a check.
* `Report.classifications`: The text of a list of classifications.
-/

namespace CoreShell

namespace Report

/-- A text filled up with spaces to a width, counted in characters. -/
def padRight (width : Nat) (text : String) : String :=
  text ++ String.ofList (List.replicate (width - text.length) ' ')

/-- How a run ended. -/
def runStatus (color : Bool) (summary : RunSummary) : String :=
  let rounds := toString summary.rounds ++ " round(s)"
  if summary.converged then "converged in " ++ rounds
  else Style.yellow.paint color ("stopped after " ++ rounds)

/-- The lines on a core unit that fails: the unit, then what is known about
    it. -/
def violationLines (color : Bool) (report : AxisReport) (v : Verdict) : List String :=
  let details := report.diagnostics.filter fun d => d.unit = v.unit
  ("  " ++ Style.red.paint color "✗" ++ " " ++ v.unit ++ " is " ++
      Style.red.paint color v.classification) ::
    details.map fun d => "      " ++ d.reason.label ++ ": " ++ d.message

/-- The lines on one axis. -/
def axis (color : Bool) (report : AxisReport) : List String :=
  let title := Style.bold.paint color (Text.capitalize report.axis.name) ++ " (" ++
    runStatus color report.summary ++ "; " ++
    Style.dimmed.paint color report.summary.counts.text ++ ")"
  let verdict :=
    if report.violations.isEmpty then
      ["  " ++ Style.green.paint color "✓" ++ " every core unit passes"]
    else
      report.violations.flatMap (violationLines color report)
  let undecided := report.unresolved.map fun unit =>
    "  " ++ Style.yellow.paint color "?" ++ " " ++ unit ++ " is undecided"
  let stopped := (report.diagnostics.filter fun d => d.reason = .nonConvergence).map fun d =>
    "  " ++ Style.yellow.paint color "!" ++ " " ++ d.message
  title :: verdict ++ undecided ++ stopped

/-- The lines on the dependencies of the core. -/
def dependencies (color : Bool) (found : List Dependency) : List String :=
  Style.bold.paint color "Dependency direction" ::
    if found.isEmpty then
      ["  " ++ Style.green.paint color "✓" ++ " core does not depend on shell"]
    else
      found.map fun d => "  " ++ Style.red.paint color "✗" ++ " " ++ d.text

/-- The last line of a check. -/
def conclusion (color : Bool) (e : Evaluation) : String :=
  if e.hasViolations then
    Style.failure.paint color (toString e.violationCount ++ " architecture violation(s)")
  else
    Style.success.paint color "No architecture violations"

/-- The text of a check. -/
def evaluation (color : Bool) (e : Evaluation) : String :=
  Text.lines
    ([Style.bold.paint color e.description, ""] ++ dependencies color e.dependencies ++
      e.axes.flatMap (fun report => "" :: axis color report) ++ ["", conclusion color e])

/-- The text of a list of classifications under the name of their axis. -/
def classifications (color : Bool) (axisName : String) (rows : List Verdict) : String :=
  Text.lines
    (Style.bold.paint color (Text.capitalize axisName) ::
      rows.map fun row => "  " ++ padRight 18 row.classification ++ " " ++ row.unit)

end Report

end CoreShell
