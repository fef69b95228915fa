import CoreShell.Program.Index
import CoreShell.Rule.Call

/-!
# Dispatch Resolution

A unit without a body of its own is as good as its overriders. If they are
all strict it is strict, and if they all keep at least to their domain so does
it. One failing overrider is enough to make it fail, whatever the others are
going to be. A unit without overriders stays open.

## Main definitions

* `DispatchOutcome`: The three outcomes.
* `Program.resolveDispatch`: The outcome for a unit.
-/

namespace CoreShell

/-- What the overriders of a unit say about it. -/
inductive DispatchOutcome where
  /-- Nothing yet. -/
  | pending
  /-- The unit has this grade. -/
  | resolved (grade : Grade)
  /-- A failing overrider makes the unit fail. -/
  | absorbed (via : UnitId)
deriving DecidableEq, Inhabited

/-- What the overriders of a unit say about it. -/
def Program.resolveDispatch (p : Program) (grades : Array Grade) (u : CodeUnit) :
    DispatchOutcome :=
  let overriders := p.overridersOf u
  if overriders.isEmpty then .pending
  else if overriders.all fun id => gradeAt grades id = .strict then .resolved .strict
  else if overriders.all fun id => (gradeAt grades id).atLeast .domain then .resolved .domain
  else
    match overriders.find? fun id => gradeAt grades id = .not with
    | some via => .absorbed via
    | none => .pending

end CoreShell
