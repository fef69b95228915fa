import CoreShell.Rule.Local
import CoreShell.Rule.Overrider
import CoreShell.Session.Basic

/-!
# Rounds

One round looks at every unit once. It first applies the local rule to the
submitted units that nobody has looked at, then the call rule to the units
that wait on their calls, and last the dispatch rule to the units that wait on
their overriders. Within a round a unit already sees what the round has found
out about others.

Every rule says whether it came to anything, and a round has changed something
as soon as one of its rules did.

A unit that waits on its calls must have the floor its local rule left. The
call rule checks this, and a session that does not keep to it is reported as
an error of the analysis itself.

## Main definitions

* `Sweep`: A session in the middle of a round.
* `Session.judgeLocally`: The local rule on one unit.
* `Session.propagate`: The call rule on one unit.
* `Session.resolve`: The dispatch rule on one unit.
* `Session.round`: One round.
-/

namespace CoreShell

/-- A session in the middle of a round. -/
structure Sweep where
  session : Session
  /-- Whether a rule has come to anything so far. -/
  changed : Bool := false

/-- The sweep after one more rule. -/
def Sweep.andThen (w after : Sweep) : Sweep :=
  { after with changed := w.changed || after.changed }

namespace Session

/-- A number added to an ascending list that may already hold it. -/
def insertAscending (n : Nat) : List Nat → List Nat
  | [] => [n]
  | m :: rest =>
    if n < m then n :: m :: rest
    else if n = m then m :: rest
    else m :: insertAscending n rest

/-- The session with a new grade for a unit. -/
def grade (s : Session) (id : UnitId) (g : Grade) : Session :=
  { s with grades := s.grades.setIfInBounds id g }

/-- The session with a diagnostic on a unit, if the unit is in scope. -/
def report (s : Session) (u : CodeUnit) (reason : Reason) (message : String) : Session :=
  { s with
    log := s.log.record
      { owner := s.program.typeName u.owner, unit := u.qualified, reason, message } }

/-- Apply the local rule to a unit. -/
def judgeLocally (s : Session) (u : CodeUnit) : Session :=
  match s.axis.judge s.program u with
  | .rejected finding => (s.grade u.id .not).report u finding.reason finding.message
  | .dispatch => { s.grade u.id .unsure with pending := insertAscending u.id s.pending }
  | .provisional floor =>
    if u.hasCalls then
      { s.grade u.id .unsure with floors := s.floors.setIfInBounds u.id (some floor) }
    else
      s.grade u.id floor

/-- Apply the call rule to a unit that waits on its calls. -/
def propagate (s : Session) (u : CodeUnit) : Except Error Sweep :=
  if s.gradeOf u.id ≠ .unsure then
    .error (.invariant ("call propagation reached " ++ u.qualified ++ " while it is " ++
      (s.gradeOf u.id).name))
  else
    match s.floors.getD u.id none with
    | none =>
      .error (.invariant ("call propagation reached " ++ u.qualified ++
        " without a local classification"))
    | some floor =>
      match s.program.evaluateCalls s.grades floor u with
      | .deferred => .ok { session := s }
      | .settled g => .ok { session := s.grade u.id g, changed := true }
      | .absorbed via =>
        .ok {
          session := (s.grade u.id .not).report u .impureCall
            (u.qualified ++ " calls " ++ s.program.unitName via ++ ", which is " ++
              s.axis.failure)
          changed := true }

/-- Apply the dispatch rule to a unit that waits on its overriders. -/
def resolve (s : Session) (u : CodeUnit) : Sweep :=
  match s.program.resolveDispatch s.grades u with
  | .pending => { session := s }
  | .resolved g =>
    { session := { s.grade u.id g with pending := s.pending.filter (· ≠ u.id) }
      changed := true }
  | .absorbed via =>
    { session :=
        ({ s.grade u.id .not with pending := s.pending.filter (· ≠ u.id) } : Session).report u
          .impureCall
          (u.qualified ++ " dispatches to " ++ s.program.unitName via ++ ", which is " ++
            s.axis.failure)
      changed := true }

end Session

namespace Sweep

/-- The local rule on one unit, if it was submitted and nobody has looked at
    it. -/
def judgeLocally (w : Sweep) (u : CodeUnit) : Sweep :=
  if u.submitted && w.session.gradeOf u.id = .unchecked then
    { session := w.session.judgeLocally u, changed := true }
  else
    w

/-- The call rule on one unit, if it waits on its calls. -/
def propagate (w : Sweep) (u : CodeUnit) : Except Error Sweep :=
  if w.session.gradeOf u.id = .unsure ∧ u.id ∉ w.session.pending then
    w.andThen <$> w.session.propagate u
  else
    .ok w

/-- The dispatch rule on the unit at a position. -/
def resolve (w : Sweep) (id : UnitId) : Sweep :=
  match w.session.program.units[id]? with
  | some u => w.andThen (w.session.resolve u)
  | none => w

/-- The local rule on every unit. -/
def locals (w : Sweep) : Sweep :=
  w.session.program.units.toList.foldl judgeLocally w

/-- The call rule on every unit. -/
def calls (w : Sweep) : Except Error Sweep :=
  w.session.program.units.toList.foldlM propagate w

/-- The dispatch rule on every unit that waits on its overriders when the
    sweep over them begins. -/
def dispatches (w : Sweep) : Sweep :=
  w.session.pending.foldl resolve w

end Sweep

/-- One round: local rule, call rule, dispatch rule. -/
def Session.round (s : Session) : Except Error Sweep := do
  let w ← (Sweep.locals { session := s }).calls
  return w.dispatches

end CoreShell
