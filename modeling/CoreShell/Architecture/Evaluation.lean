import CoreShell.Architecture.Basic
import CoreShell.Dependency
import CoreShell.Session.Run

/-!
# Evaluations

Checking a program against a rule takes three parts: the dependencies of the
core on the shell, the classification along purity, and the classification
along determinism if the rule asks for it. On each axis a core unit that fails
is a violation, and one that is left undecided is listed as such.

## Main definitions

* `AxisReport`: The result along one axis.
* `Evaluation`: The result of a check.
* `Session.analyze`: A session on a graph, run once.
* `Architecture.evaluateAxis`: The check of a graph along one axis.
* `Architecture.evaluate`: The check of a graph.
-/

namespace CoreShell

/-- A unit with the label of its grade. -/
structure Verdict where
  unit : String
  classification : String
deriving DecidableEq, Inhabited

/-- The result of a check along one axis. -/
structure AxisReport where
  axis : Axis
  summary : RunSummary
  /-- The core units that fail. -/
  violations : List Verdict
  /-- The core units that are left undecided. -/
  unresolved : List String
  diagnostics : List Diagnostic
deriving DecidableEq, Inhabited

/-- The result of a check. -/
structure Evaluation where
  description : String
  dependencies : List Dependency
  purity : AxisReport
  determinism : Option AxisReport
deriving DecidableEq, Inhabited

namespace Evaluation

/-- The reports in the order they are printed. -/
def axes (e : Evaluation) : List AxisReport :=
  e.purity :: e.determinism.toList

/-- The number of violations of any kind. -/
def violationCount (e : Evaluation) : Nat :=
  e.dependencies.length + (e.axes.flatMap (·.violations)).length

/-- Whether anything is violated. -/
def hasViolations (e : Evaluation) : Bool :=
  0 < e.violationCount

end Evaluation

/-- The report of a session that was run, on the units of the core. -/
def AxisReport.ofSession (s : Session) (summary : RunSummary) (core : List String) :
    AxisReport :=
  let units := s.program.units.toList.filter (s.program.belongsTo core)
  { axis := s.axis
    summary
    violations := (units.filter fun u => s.gradeOf u.id = .not).map fun u =>
      { unit := u.qualified, classification := s.axis.label (s.gradeOf u.id) }
    unresolved := (units.filter fun u => (s.gradeOf u.id).isTemporary).map (·.qualified)
    diagnostics := s.log.entries }

/-- A session loaded with a graph and run once. -/
def Session.analyze (axis : Axis) (catalog : CatalogConfig) (scope : List String)
    (maxRounds : Option Nat) (graph : Graph) : Except Error (Session × RunSummary) :=
  let fresh := Session.start axis (Catalog.ofConfig axis catalog) scope
  let limited := match maxRounds with
    | some n => fresh.limitRounds n
    | none => fresh
  (limited.load graph).run

namespace Architecture

/-- The report of a rule along one axis. -/
def evaluateAxis (a : Architecture) (axis : Axis) (graph : Graph) : Except Error AxisReport := do
  let (s, summary) ← Session.analyze axis (a.catalogOf axis) a.scope a.maxRounds graph
  return AxisReport.ofSession s summary a.core

/-- The check of a program against a rule. -/
def evaluate (a : Architecture) (graph : Graph) : Except Error Evaluation := do
  let purity ← a.evaluateAxis .purity graph
  let determinism ←
    if a.checkDeterminism then some <$> a.evaluateAxis .determinism graph else pure none
  return {
    description := a.description
    dependencies := (Program.ofGraph graph).violations a.core a.shell
    purity
    determinism }

end Architecture

end CoreShell
