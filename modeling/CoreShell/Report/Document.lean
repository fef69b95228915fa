import CoreShell.Architecture.Evaluation
import CoreShell.Json.Writer

/-!
# Report Documents

The result of a check and a list of classifications as JSON documents for
other programs.

## Main definitions

* `Evaluation.toJson`: The document of a check.
* `Verdict.toJson`: The document of a classification.
-/

namespace CoreShell

/-- The document of a unit with its classification. -/
def Verdict.toJson (v : Verdict) : Json :=
  .fields [("unit", .text v.unit), ("classification", .text v.classification)]

/-- The document of a diagnostic. -/
def Diagnostic.toJson (d : Diagnostic) : Json :=
  .fields
    [("owner", .text d.owner), ("unit", .text d.unit), ("reason", .text d.reason.name),
     ("message", .text d.message)]

/-- The document of the number of units per grade. -/
def Counts.toJson (c : Counts) : Json :=
  .fields
    [("strict", .count c.strict), ("domain", .count c.domain), ("not", .count c.not),
     ("unsure", .count c.unsure), ("unchecked", .count c.unchecked),
     ("open_interfaces", .count c.openInterfaces)]

/-- The document of what a run reports about itself. -/
def RunSummary.toJson (s : RunSummary) : Json :=
  .fields
    [("rounds", .count s.rounds), ("converged", .bool s.converged),
     ("counts", s.counts.toJson)]

/-- The document of a forbidden dependency. -/
def Dependency.toJson (d : Dependency) : Json :=
  .fields
    [("unit", .text d.unit), ("kind", .text d.kind.name), ("target", .text d.target)]

/-- The document of the result along one axis. -/
def AxisReport.toJson (r : AxisReport) : Json :=
  .fields
    [("axis", .text r.axis.name), ("summary", r.summary.toJson),
     ("violations", .array (r.violations.map Verdict.toJson)),
     ("unresolved", .texts r.unresolved),
     ("diagnostics", .array (r.diagnostics.map Diagnostic.toJson))]

/-- The document of a check. -/
def Evaluation.toJson (e : Evaluation) : Json :=
  .fields
    [("description", .text e.description),
     ("dependency_violations", .array (e.dependencies.map Dependency.toJson)),
     ("purity", e.purity.toJson),
     ("determinism", (e.determinism.map AxisReport.toJson).getD .null)]

end CoreShell
