import CoreShell.Catalog.Standard
import CoreShell.Diagnostic
import CoreShell.Error
import CoreShell.Rule.Call

/-!
# Sessions

One session classifies one program along one axis. It holds the program, the
grade of every unit, the floors that local rules left, the units that wait on
their overriders, and the log.

Units can be submitted at any time, also between runs. A new unit starts with
its catalogue grade, or unchecked; a unit submitted again goes back to that
start.

## Main definitions

* `Session`: The state of an analysis.
* `Session.start`: A session without a program.
* `Session.declareType`, `Session.submit`, `Session.load`: Growing the
  program.
* `Counts`: The number of units per grade.
-/

namespace CoreShell

/-- The number of units per grade, and of the units that wait on their
    overriders. -/
structure Counts where
  strict : Nat
  domain : Nat
  not : Nat
  unsure : Nat
  unchecked : Nat
  openInterfaces : Nat
deriving DecidableEq, Inhabited

namespace Counts

/-- The number of units. -/
def total (c : Counts) : Nat :=
  c.strict + c.domain + c.not + c.unsure + c.unchecked

/-- The counts as reports print them. -/
def text (c : Counts) : String :=
  "strict=" ++ toString c.strict ++ " domain=" ++ toString c.domain ++
    " not=" ++ toString c.not ++ " unsure=" ++ toString c.unsure ++
    " unchecked=" ++ toString c.unchecked ++
    " open_interfaces=" ++ toString c.openInterfaces

end Counts

/-- The state of an analysis of one program along one axis. -/
structure Session where
  axis : Axis
  catalog : Catalog
  program : Program := {}
  /-- The grade of every unit. -/
  grades : Array Grade := #[]
  /-- The floors of the units that wait on their calls. -/
  floors : Array (Option Grade) := #[]
  /-- The units that wait on their overriders, in ascending order. -/
  pending : List UnitId := []
  log : Log := {}
  /-- The most rounds of a run, if it is limited by the caller. -/
  maxRounds : Option Nat := none

namespace Session

/-- A session without a program. Only owners in scope are reported; an empty
    scope reports all of them. -/
def start (axis : Axis) (catalog : Catalog) (scope : List String) : Session :=
  { axis, catalog, log := { scope } }

/-- The session with a limit on the rounds of a run. Every run makes at least
    one round. -/
def limitRounds (s : Session) (n : Nat) : Session :=
  { s with maxRounds := some (max n 1) }

/-- The grade a unit has before any rule is applied. -/
def initialGrade (s : Session) (u : CodeUnit) : Grade :=
  (s.catalog.lookup u.qualified).getD .unchecked

/-- The session with an entry for every unit interned since its tables were
    last brought up to date. -/
def extendTables (s : Session) : Session :=
  let fresh := s.program.units.extract s.grades.size
  { s with
    grades := s.grades ++ fresh.map s.initialGrade
    floors := s.floors ++ fresh.map fun _ => none }

/-- The session with one unit back at its start. -/
def resetUnit (s : Session) (id : UnitId) : Session :=
  { s with
    grades := s.grades.setIfInBounds id ((s.program.units[id]?.map s.initialGrade).getD .unchecked)
    floors := s.floors.setIfInBounds id none
    pending := s.pending.filter (· ≠ id) }

/-- The session with every unit back at its start and an empty log. -/
def reset (s : Session) : Session :=
  { s with
    grades := s.program.units.map s.initialGrade
    floors := s.program.units.map fun _ => none
    pending := []
    log := s.log.clear }

/-- Declare a type. -/
def declareType (s : Session) (decl : TypeDecl) : Session :=
  { s with program := (s.program.declareType decl).1 }

/-- Submit a unit; the later of two declarations of one name counts. -/
def submit (s : Session) (decl : UnitDecl) : Session × UnitId :=
  let (program, id) := s.program.submit decl
  (({ s with program } : Session).extendTables.resetUnit id, id)

/-- Declare all types and then submit all units of a graph. -/
def load (s : Session) (g : Graph) : Session :=
  let s := g.types.foldl declareType s
  g.units.foldl (fun s u => (s.submit u).1) s

/-- The grade at a position. -/
def gradeOf (s : Session) (id : UnitId) : Grade :=
  gradeAt s.grades id

/-- The grade of the unit with a qualified name. -/
def query (s : Session) (qualified : String) : Except Error Grade :=
  match s.program.unitId? qualified with
  | some id => .ok (s.gradeOf id)
  | none => .error (.notRegistered qualified)

/-- The units with a grade, in ascending order. -/
def unitsWith (s : Session) (grade : Grade) : List CodeUnit :=
  s.program.units.toList.filter fun u => s.gradeOf u.id = grade

/-- The number of units with a grade. -/
def countOf (s : Session) (grade : Grade) : Nat :=
  s.grades.toList.countP (· = grade)

/-- The number of units per grade. -/
def counts (s : Session) : Counts :=
  { strict := s.countOf .strict
    domain := s.countOf .domain
    not := s.countOf .not
    unsure := s.countOf .unsure
    unchecked := s.countOf .unchecked
    openInterfaces := s.pending.length }

end Session

end CoreShell
