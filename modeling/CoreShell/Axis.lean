import CoreShell.Grade

/-!
# Axes

A program is judged along two axes: whether its units are free of side
effects, and whether they are deterministic. Both use the same grades and the
same fixed point; they differ in their local rule, their standard catalogue
and their wording. The wording is here.

## Main definitions

* `Axis`: The two axes.
* `Axis.name`: The name of an axis in reports.
* `Axis.failure`: What a unit is called that does not have the property.
* `Axis.label`: A grade as reports print it.
* `Axis.valueName`: The name of a grade as a value of this axis.
* `Axis.gradeOfValue?`: The grade with a given value name.
-/

namespace CoreShell

/-- The property a program is judged by. -/
inductive Axis where
  /-- Freedom from side effects. -/
  | purity
  /-- Same inputs, same outcome. -/
  | determinism
deriving DecidableEq, Inhabited

namespace Axis

/-- The name of an axis in reports. -/
def name : Axis → String
  | purity => "purity"
  | determinism => "determinism"

/-- What a unit is said to be when it fails on this axis. -/
def failure : Axis → String
  | purity => "not side-effect free"
  | determinism => "non-deterministic"

/-- A grade as reports print it. -/
def label : Axis → Grade → String
  | purity, .unchecked => "unchecked (SEF)"
  | purity, .unsure => "unsure (SEF)"
  | purity, .not => "not SEF"
  | purity, .domain => "domain SEF"
  | purity, .strict => "strictly SEF"
  | determinism, .unchecked => "unchecked (DET)"
  | determinism, .unsure => "unsure (DET)"
  | determinism, .not => "not DET"
  | determinism, .domain => "domain DET"
  | determinism, .strict => "strictly DET"

/-- The name of a grade as a value of this axis. -/
def valueName : Axis → Grade → String
  | _, .unchecked => "Unchecked"
  | _, .unsure => "Unsure"
  | purity, .not => "NotFree"
  | purity, .domain => "DomainFree"
  | purity, .strict => "StrictFree"
  | determinism, .not => "NotDeterministic"
  | determinism, .domain => "DomainDeterministic"
  | determinism, .strict => "StrictlyDeterministic"

/-- The grade that a value name of this axis stands for. -/
def gradeOfValue? (axis : Axis) (text : String) : Option Grade :=
  Grade.all.find? fun g => axis.valueName g = text

theorem gradeOfValue?_valueName (axis : Axis) (g : Grade) :
    axis.gradeOfValue? (axis.valueName g) = some g := by
  cases axis <;> cases g <;> decide

end Axis

end CoreShell
