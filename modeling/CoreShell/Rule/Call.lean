import CoreShell.Grade
import CoreShell.Program.Basic

/-!
# Call Propagation

What the calls of a unit do to it. As long as one target is undecided nothing
is said, even if another is already known to fail. After that a failing
target takes the unit down with it, unless the call goes to an object the
unit constructed itself; and a target that keeps to its domain lowers the
floor.

All of this is found in one go through the call sites and their targets. The
first undecided target ends it, and of the failing ones the first is kept.

## Main definitions

* `CallOutcome`: The three outcomes.
* `CallScan`: What is found on the way.
* `Program.evaluateCalls`: The outcome for a unit over a floor.
* `CodeUnit.undecidedCallees`: The targets that hold up a unit.
* `Program.constructedTypes`: The types whose failures a unit may ignore.
-/

namespace CoreShell

/-- The grade at a position; positions without one are unchecked. -/
def gradeAt (grades : Array Grade) (id : UnitId) : Grade :=
  grades.getD id .unchecked

/-- What the calls of a unit do to it. -/
inductive CallOutcome where
  /-- Some target is still undecided. -/
  | deferred
  /-- A failing target makes the unit fail. -/
  | absorbed (via : UnitId)
  /-- The unit has this grade. -/
  | settled (grade : Grade)
deriving DecidableEq, Inhabited

/-- What a look at the calls of a unit has come to so far. -/
structure CallScan where
  /-- The floor that is left. -/
  floor : Grade
  /-- The first failing target, if there was one. -/
  absorbedBy : Option UnitId := none

namespace CallScan

/-- Look at one more target. It ends here if the target is undecided. At an
    exempt site a failing target does not count. -/
def visit (grades : Array Grade) (exempt : Bool) (scan : CallScan) (t : UnitId) :
    Option CallScan :=
  match gradeAt grades t with
  | .unchecked | .unsure => none
  | .not =>
    if exempt then some scan
    else some { scan with absorbedBy := scan.absorbedBy.or (some t) }
  | .domain => some { scan with floor := scan.floor.weakenTo .domain }
  | .strict => some scan

/-- Look at the targets of a call site. -/
def visitSite (grades : Array Grade) (exempt : Bool) (scan : CallScan) (call : CallSite) :
    Option CallScan :=
  call.targets.foldlM (visit grades exempt) scan

/-- What it comes to in the end. -/
def outcome (scan : CallScan) : CallOutcome :=
  match scan.absorbedBy with
  | some via => .absorbed via
  | none => .settled scan.floor

end CallScan

namespace Program

/-- The owners of the units that a unit constructs locally. Calls against
    them act on objects the unit keeps to itself. -/
def constructedTypes (p : Program) (u : CodeUnit) : List TypeId :=
  u.constructs.filterMap fun id => p.units[id]?.map (·.owner)

/-- What the calls of a unit make of its floor. -/
def evaluateCalls (p : Program) (grades : Array Grade) (floor : Grade) (u : CodeUnit) :
    CallOutcome :=
  let constructed := p.constructedTypes u
  let scanned := u.calls.foldlM
    (fun scan call => scan.visitSite grades (decide (call.owner ∈ constructed)) call)
    ({ floor } : CallScan)
  match scanned with
  | some scan => scan.outcome
  | none => .deferred

end Program

/-- The undecided targets of a unit, each once and in order of first
    occurrence. -/
def CodeUnit.undecidedCallees (u : CodeUnit) (grades : Array Grade) : List UnitId :=
  (u.targets.filter fun t => (gradeAt grades t).isTemporary).eraseDups

end CoreShell
