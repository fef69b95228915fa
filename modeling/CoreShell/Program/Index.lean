import CoreShell.Digraph
import CoreShell.Program.Basic

/-!
# Whole-Program Facts

Freezing a program takes down two facts that no single declaration tells: who
writes each field, and which units override which. Both are looked up many
times by the classification rules, and both stay valid until the next
declaration.

Queries answer as of the last freeze. A program that was never frozen has no
writers and no overriders.

## Main definitions

* `Program.ancestors`: All proper supertypes of a type.
* `Program.buildIndex`: The facts about the program as it stands.
* `Program.freeze`: The program with current facts.
* `Program.writersOf`, `Program.overridersOf`: The facts as of the last
  freeze.
-/

namespace CoreShell

namespace Program

/-- The types with their direct supertypes. -/
def hierarchy (p : Program) : Digraph :=
  { edges := p.types.map (·.supertypes) }

/-- Every type reached from `id` through direct supertypes, without `id`
    itself. -/
def ancestors (p : Program) (id : TypeId) : List TypeId :=
  p.hierarchy.after [id] id

/-- Whether a unit has a body that a virtual call may end up in. -/
def isConcrete (p : Program) (u : CodeUnit) : Bool :=
  !u.isConstructor && !u.isAbstract && p.dispatchOf u.owner ≠ .interface

/-- The registry entries of one unit: one per proper supertype of its owner. -/
def registryEntries (p : Program) (u : CodeUnit) : List (Signature × UnitId) :=
  if p.isConcrete u then
    (p.ancestors u.owner).map fun ancestor => ({ u.signature with owner := ancestor }, u.id)
  else
    []

/-- The registry of the program as it stands. -/
def buildRegistry (p : Program) : Registry :=
  { entries := p.units.toList.flatMap p.registryEntries }

/-- The submitted units that list a field among their writes. -/
def currentWriters (p : Program) (f : FieldId) : List UnitId :=
  (p.units.toList.filter fun u => u.submitted && decide (f ∈ u.writes)).map (·.id)

/-- The facts about the program as it stands. -/
def buildIndex (p : Program) : Index :=
  { writers := ((List.range p.fields.size).map p.currentWriters).toArray
    registry := p.buildRegistry }

/-- Bring the facts about the whole program up to date. -/
def freeze (p : Program) : Program :=
  if p.frozen then p else { p with index := p.buildIndex, frozen := true }

/-- The submitted units that write a field, as of the last freeze. -/
def writersOf (p : Program) (f : FieldId) : List UnitId :=
  p.index.writers.getD f []

/-- The units that override a unit, as of the last freeze. -/
def overridersOf (p : Program) (u : CodeUnit) : List UnitId :=
  p.index.registry.find u.signature

end Program

end CoreShell
