import CoreShell.Program.Basic

/-!
# Dependency Direction

The functional core must not know the imperative shell. A core unit touches
the shell when it calls, constructs or accesses something whose owner is in
the shell, and every such edge is a violation.

A call site may resolve to several units. Those in the shell are reported by
name; if none is, but the call was declared against a shell type, that type is
reported in their place.

## Main definitions

* `DependencyKind`: How a unit touches something.
* `Dependency`: A unit, a kind and what is touched.
* `Program.shellEdges`: What a unit touches in the shell.
* `Program.violations`: The forbidden dependencies of a program, sorted.
-/

namespace CoreShell

/-- How a unit touches something. -/
inductive DependencyKind where
  | call
  | construction
  | fieldAccess
deriving DecidableEq, Inhabited

namespace DependencyKind

/-- The kinds in the order reports list them. -/
def rank : DependencyKind → Nat
  | call => 0
  | construction => 1
  | fieldAccess => 2

/-- The verb that reports use. -/
def verb : DependencyKind → String
  | call => "calls"
  | construction => "constructs"
  | fieldAccess => "accesses"

/-- The name of a kind in documents. -/
def name : DependencyKind → String
  | call => "call"
  | construction => "construction"
  | fieldAccess => "field_access"

end DependencyKind

/-- A unit that touches something it must not. -/
structure Dependency where
  unit : String
  kind : DependencyKind
  target : String
deriving DecidableEq, Inhabited

namespace Dependency

/-- The dependency as reports print it. -/
def text (d : Dependency) : String :=
  d.unit ++ " " ++ d.kind.verb ++ " " ++ d.target

/-- The order of reports: by unit, then by kind, then by target. Names compare
    by code points. -/
def le (a b : Dependency) : Bool :=
  decide (a.unit < b.unit) ||
    (decide (a.unit = b.unit) &&
      (decide (a.kind.rank < b.kind.rank) ||
        (decide (a.kind = b.kind) && decide (a.target ≤ b.target))))

end Dependency

namespace Program

/-- What a call site touches in the shell. -/
def shellCalls (p : Program) (shell : List String) (call : CallSite) : List String :=
  let hits := call.targets.filter fun t => Text.startsWithAny shell (p.ownerName t)
  if !hits.isEmpty then hits.map p.unitName
  else if Text.startsWithAny shell (p.typeName call.owner) then [p.typeName call.owner]
  else []

/-- What a unit touches in the shell, edge by edge. -/
def shellEdges (p : Program) (shell : List String) (u : CodeUnit) :
    List (DependencyKind × String) :=
  let calls := u.calls.flatMap (p.shellCalls shell)
  let constructions :=
    (u.constructs.filter fun c => Text.startsWithAny shell (p.ownerName c)).map p.unitName
  let accesses :=
    (((u.reads ++ u.writes).map p.field).filter fun f => Text.startsWithAny shell f.owner).map
      (·.qualified)
  calls.map (.call, ·) ++ constructions.map (.construction, ·) ++ accesses.map (.fieldAccess, ·)

/-- Whether a unit was submitted and its owner begins with one of the given
    names. -/
def belongsTo (p : Program) (layer : List String) (u : CodeUnit) : Bool :=
  u.submitted && Text.startsWithAny layer (p.typeName u.owner)

/-- The dependencies of the core on the shell, sorted and each once. Without a
    core or a shell there are none. -/
def violations (p : Program) (core shell : List String) : List Dependency :=
  if core.isEmpty || shell.isEmpty then []
  else
    let found := (p.units.toList.filter (p.belongsTo core)).flatMap fun u =>
      (p.shellEdges shell u).map fun edge =>
        { unit := u.qualified, kind := edge.1, target := edge.2 : Dependency }
    found.eraseDups.mergeSort Dependency.le

end Program

end CoreShell
