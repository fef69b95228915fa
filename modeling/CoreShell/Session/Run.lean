import CoreShell.Program.Cycle
import CoreShell.Session.Round

/-!
# Runs

A run makes rounds until one of them changes nothing, or until the bound on
rounds is met. It then explains every unit that is still unsure.

The first run after a declaration freezes the program and starts over from
the catalogue. A run without a declaration since the last one continues from
where that one stopped, so a run that met its bound can be resumed.

## Main definitions

* `RunSummary`: What a run reports about itself.
* `Session.roundBound`: The most rounds of a run.
* `Session.iterate`: Rounds until nothing changes, up to a bound.
* `Session.blockers`: The units that hold up an unsure unit.
* `Session.run`: A run.
-/

namespace CoreShell

/-- What a run reports about itself. -/
structure RunSummary where
  /-- The number of rounds made, the last unchanged one included. -/
  rounds : Nat
  /-- Whether the last round changed nothing. -/
  converged : Bool
  counts : Counts
deriving DecidableEq, Inhabited

/-- Rounds made and whether the last of them changed nothing. -/
structure Progress where
  session : Session
  rounds : Nat
  converged : Bool

namespace Session

/-- The fewest rounds allowed when the caller sets no limit. -/
def leastBound : Nat := 16

/-- The most rounds of a run: the caller's limit, or enough rounds for any
    program of this size. -/
def roundBound (s : Session) : Nat :=
  s.maxRounds.getD (max (4 * s.program.units.size + 4) leastBound)

/-- At most `bound` rounds, until one of them changes nothing. -/
def iterate (s : Session) : (bound : Nat) → Except Error Progress
  | 0 => .ok { session := s, rounds := 0, converged := false }
  | bound + 1 => do
    let next ← s.round
    if next.changed then
      let rest ← next.session.iterate bound
      return { rest with rounds := rest.rounds + 1 }
    else
      return { session := next.session, rounds := 1, converged := true }

/-- The units that hold up an unsure unit: its undecided overriders if it
    waits on them, else its undecided call targets. -/
def blockers (s : Session) (u : CodeUnit) : List UnitId :=
  if u.id ∈ s.pending then
    (s.program.overridersOf u).filter fun id => (s.gradeOf id).isTemporary
  else
    u.undecidedCallees s.grades

/-- Why a unit is still unsure. -/
def explanation (s : Session) (u : CodeUnit) : String :=
  let names := (s.blockers u).map s.program.unitName
  let cause :=
    if names.isEmpty then "unsure about " ++ u.qualified ++ ": no known overriders"
    else "unsure about " ++ u.qualified ++ " because of [" ++ Text.join ", " names ++ "]"
  if s.program.liesOnCycle u.id then cause ++ "; it lies on a call cycle" else cause

/-- Record every unit that is still unsure. -/
def reportUnresolved (s : Session) : Session :=
  (s.unitsWith .unsure).foldl (fun t u => t.report u .unresolved (s.explanation u)) s

/-- Freeze the program if it changed since the last run, and start over from
    the catalogue in that case. -/
def prepare (s : Session) : Session :=
  if s.program.frozen then s
  else ({ s with program := s.program.freeze } : Session).reset

/-- The session with a record of a run that met its bound. -/
def reportNonConvergence (s : Session) (bound : Nat) : Session :=
  { s with
    log := s.log.recordRun .nonConvergence
      (s.axis.name ++ " classification still changing after " ++ toString bound ++ " rounds") }

/-- Make rounds until nothing changes or the bound is met, and explain what is
    left undecided. -/
def run (s : Session) : Except Error (Session × RunSummary) := do
  let s := s.prepare
  let s := { s with log := s.log.dropEndOfRun }
  let bound := s.roundBound
  let progress ← s.iterate bound
  let s := progress.session
  let s := if progress.converged then s else s.reportNonConvergence bound
  let s := s.reportUnresolved
  return (s, { rounds := progress.rounds, converged := progress.converged, counts := s.counts })

end Session

end CoreShell
