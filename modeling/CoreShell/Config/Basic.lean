import CoreShell.Axis
import CoreShell.Catalog
import CoreShell.Error
import CoreShell.Text.Blank

/-!
# Configurations

What a user can settle about a check: which packages form the core and the
shell, what to report on, whether determinism counts, how long a run may take,
and what is known about the packages the program calls.

Not every configuration makes sense. An empty beginning would match every
name, a package cannot be core and shell at once, and a run needs at least one
round; `Config.fault?` finds the first of these.

## Main definitions

* `Config`: The settings, with their defaults.
* `Config.catalogFor`: The catalogue for an axis.
* `ConfigFault`: What can be wrong with a configuration.
* `Config.fault?`: The first fault of a configuration.
* `Config.template`: The text of a fresh configuration file.
-/

namespace CoreShell

/-- The settings of a check. -/
structure Config where
  /-- Beginnings of the owners in the functional core. -/
  core : List String := []
  /-- Beginnings of the owners in the imperative shell. -/
  shell : List String := []
  /-- Beginnings of the owners to report on, if not those of the core. -/
  reportScope : Option (List String) := none
  /-- Whether core units must be deterministic too. -/
  checkDeterminism : Bool := true
  /-- The most rounds of a run. -/
  maxRounds : Option Nat := none
  /-- The catalogue for side effects. -/
  purity : CatalogConfig := {}
  /-- The catalogue for determinism. -/
  determinism : CatalogConfig := {}
deriving DecidableEq, Inhabited

/-- What can be wrong with a configuration. -/
inductive ConfigFault where
  /-- The text is not in the configuration format, with what its reader says
      about it. -/
  | malformed (detail : String)
  /-- The file could not be read. -/
  | unreadable (path : String) (fault : FileFault)
  /-- A beginning has no character other than blanks. -/
  | blankEntry
  /-- A beginning is listed for both layers. -/
  | sharedEntry (entry : String)
  /-- A run without a round. -/
  | noRounds
deriving DecidableEq, Inhabited

namespace ConfigFault

/-- The text of a fault. -/
def message : ConfigFault → String
  | malformed detail => "Failed to parse .funcore.toml: " ++ detail
  | unreadable path fault => "Failed to read " ++ path ++ ": " ++ fault.message
  | blankEntry => "empty package prefix"
  | sharedEntry entry => "'" ++ entry ++ "' is declared as both core and shell"
  | noRounds => "max_rounds must be positive"

/-- A fault as an error of the analysis. -/
def toError (fault : ConfigFault) : Error :=
  .configuration fault.message

end ConfigFault

namespace Config

/-- The name of a configuration file. -/
def fileName : String := ".funcore.toml"

/-- The text of a fresh configuration file, which sets every default. -/
def template : String :=
  Text.lines
    ["# funcore configuration",
     "",
     "[architecture]",
     "# Package prefixes of the functional core; every unit here must be side-effect free",
     "core = []",
     "# Package prefixes of the imperative shell; the core must not depend on them",
     "shell = []",
     "# Also require determinism from core units",
     "check_determinism = true",
     "",
     "[purity]",
     "# Merge in the built-in runtime-library catalog",
     "use_standard = true",
     "strict = []",
     "domain = []",
     "not = []",
     "",
     "[determinism]",
     "use_standard = true",
     "strict = []",
     "domain = []",
     "not = []"]

/-- The catalogue for an axis. -/
def catalogFor (c : Config) : Axis → CatalogConfig
  | .purity => c.purity
  | .determinism => c.determinism

/-- Every beginning that must not be blank. The report scope may be. -/
def entries (c : Config) : List String :=
  c.core ++ c.shell ++ c.purity.entries ++ c.determinism.entries

/-- The first fault of a configuration: blank entries before shared ones
    before a missing round. -/
def fault? (c : Config) : Option ConfigFault :=
  if c.entries.any fun entry => (Text.trim entry.toList).isEmpty then some .blankEntry
  else
    match c.core.find? fun entry => decide (entry ∈ c.shell) with
    | some entry => some (.sharedEntry entry)
    | none => if c.maxRounds = some 0 then some .noRounds else none

/-- A configuration without a fault. -/
def validate (c : Config) : Except ConfigFault Config :=
  match c.fault? with
  | some fault => .error fault
  | none => .ok c

end Config

end CoreShell
