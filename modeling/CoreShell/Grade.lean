/-!
# Grades

The five marks a unit of code can carry. Two of them are temporary: a unit
nobody has looked at is `unchecked`, and one whose verdict waits on others is
`unsure`. The other three are final and say how well the unit keeps to the
property under study: `not` at all, within its own `domain`, or in the
`strict` sense.

The declaration order is a plain ranking, and `weakenTo` takes the lower of
two grades in it. `atLeast` is a different question: it asks whether a grade
is good enough where another is required, and it never compares a final grade
with a temporary one.

## Main definitions

* `Grade`: The five marks.
* `Grade.rank`: The position of a grade in the ranking.
* `Grade.isTemporary`, `Grade.isFinal`: Whether a later round may still
  change the grade.
* `Grade.atLeast`: Whether a grade meets a required one.
* `Grade.weakenTo`: The lower of two grades.
* `Grade.name`: The name of a grade.
-/

namespace CoreShell

/-- What is known about one unit of code along one axis. -/
inductive Grade where
  /-- Nobody has looked at the unit yet. -/
  | unchecked
  /-- The verdict waits on other units. -/
  | unsure
  /-- The unit does not have the property. -/
  | not
  /-- The unit has the property as long as its own state stays its own. -/
  | domain
  /-- The unit has the property without reservation. -/
  | strict
deriving DecidableEq, Inhabited

namespace Grade

/-- The position of a grade in the ranking, lowest first. -/
def rank : Grade → Nat
  | unchecked => 0
  | unsure => 1
  | not => 2
  | domain => 3
  | strict => 4

/-- How two grades stand to each other in the ranking. -/
def order (a b : Grade) : Ordering :=
  compare a.rank b.rank

/-- A temporary grade is one that a later round may still change. -/
def isTemporary : Grade → Bool
  | unchecked | unsure => true
  | not | domain | strict => false

/-- A final grade is never revised. -/
def isFinal (g : Grade) : Bool :=
  !g.isTemporary

/-- Whether grade `a` is good enough where `b` is required. Temporary and
    final grades are never compared with each other, and `not` meets nothing
    but itself. -/
def atLeast : (a b : Grade) → Bool
  | strict, strict | strict, domain => true
  | domain, domain => true
  | not, not => true
  | unsure, unsure | unsure, unchecked => true
  | unchecked, unchecked => true
  | _, _ => false

/-- The lower of two grades in the ranking. -/
def weakenTo (a b : Grade) : Grade :=
  if a.rank ≤ b.rank then a else b

/-- The name of a grade, the same on every axis. -/
def name : Grade → String
  | unchecked => "Unchecked"
  | unsure => "Unsure"
  | not => "Not"
  | domain => "Domain"
  | strict => "Strict"

/-- All grades, lowest first. -/
def all : List Grade :=
  [unchecked, unsure, not, domain, strict]

/-- The grade with the given name. -/
def ofName? (text : String) : Option Grade :=
  all.find? fun g => g.name = text

end Grade

end CoreShell
