import CoreShell.Axis
import CoreShell.Config.Basic

/-!
# Architectures

The rule a program is checked against: a configuration that may carry a
description of its own. A rule is read from a configuration or put together
step by step.

## Main definitions

* `Architecture`: A configuration with a description.
* `Architecture.description`: The description, as given or made up from the
  settings.
* `Architecture.scope`: The owners to report on.
-/

namespace CoreShell

/-- The rule a program is checked against. -/
structure Architecture extends Config where
  /-- A description in place of the one made up from the settings. -/
  title : Option String := none
deriving DecidableEq, Inhabited

namespace Architecture

/-- The rule of a configuration. -/
def ofConfig (config : Config) : Architecture :=
  { config with }

/-- The rule with further core packages. -/
def addCore (a : Architecture) (starts : List String) : Architecture :=
  { a with core := a.core ++ starts }

/-- The rule with further shell packages. -/
def addShell (a : Architecture) (starts : List String) : Architecture :=
  { a with shell := a.shell ++ starts }

/-- The rule that reports on the given packages. -/
def reportOn (a : Architecture) (starts : List String) : Architecture :=
  { a with reportScope := some starts }

/-- The rule with or without the standard catalogues. -/
def useStandard (a : Architecture) (enabled : Bool) : Architecture :=
  { a with
    purity := { a.purity with useStandard := enabled }
    determinism := { a.determinism with useStandard := enabled } }

/-- A catalogue configuration with one more entry of a grade. Temporary grades
    have no entries. -/
def addEntry (c : CatalogConfig) (start : String) : Grade → CatalogConfig
  | .strict => { c with strict := c.strict ++ [start] }
  | .domain => { c with domain := c.domain ++ [start] }
  | .not => { c with not := c.not ++ [start] }
  | .unsure | .unchecked => c

/-- The rule with a package graded on an axis. -/
def gradePackage (a : Architecture) (start : String) (axis : Axis) (grade : Grade) :
    Architecture :=
  match axis with
  | .purity => { a with purity := addEntry a.purity start grade }
  | .determinism => { a with determinism := addEntry a.determinism start grade }

/-- The catalogue configuration of an axis. -/
def catalogOf (a : Architecture) : Axis → CatalogConfig
  | .purity => a.purity
  | .determinism => a.determinism

/-- The owners to report on: as set, or those of the core. -/
def scope (a : Architecture) : List String :=
  a.reportScope.getD a.core

/-- The packages that the rule grades itself, side effects first. -/
def customEntries (a : Architecture) : List String :=
  a.purity.entries ++ a.determinism.entries

/-- The description made up from the settings. -/
def settingsText (a : Architecture) : String :=
  let layers := "Functional core in [" ++ Text.join ", " a.core ++
    "] with imperative shell in [" ++ Text.join ", " a.shell ++ "]"
  let standard :=
    if a.purity.useStandard then "using the predefined catalog"
    else "using only customized catalog entries"
  let custom :=
    if a.customEntries.isEmpty then []
    else "with the following additionally classified packages" :: a.customEntries
  let checks := if a.checkDeterminism then [] else ["without determinism checks"]
  Text.join "\n" ([layers, standard] ++ custom ++ checks)

/-- The description of a rule. -/
def description (a : Architecture) : String :=
  a.title.getD a.settingsText

end Architecture

end CoreShell
