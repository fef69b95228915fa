import CoreShell.Digraph
import CoreShell.Program.Basic

/-!
# Call Cycles

A unit that reaches itself through its own calls can never be classified by
what it calls. Reports say so, which takes knowing the units on a cycle.

## Main definitions

* `Program.callGraph`: The units with everything they may call.
* `Program.liesOnCycle`: Whether a unit reaches itself through calls.
* `Program.cyclicUnits`: The units on a cycle in ascending order.
-/

namespace CoreShell

namespace Program

/-- The units with everything they may call. -/
def callGraph (p : Program) : Digraph :=
  { edges := p.units.map (·.targets) }

/-- Whether a unit reaches itself through one or more calls. -/
def liesOnCycle (p : Program) (id : UnitId) : Bool :=
  decide (id ∈ p.callGraph.after [] id)

/-- The units that reach themselves through calls, in ascending order. -/
def cyclicUnits (p : Program) : List UnitId :=
  (List.range p.units.size).filter p.liesOnCycle

end Program

end CoreShell
