import CoreShell.Axis

/-!
# Invocations

What a user can ask for on the command line, once the arguments are
understood, and what can be wrong with them.

## Main definitions

* `Invocation`: A command with its options.
* `UsageFault`: Why arguments are not an invocation.
* `logDirective`: What is logged at a verbosity.
-/

namespace CoreShell

/-- How a result is written. -/
inductive OutputFormat where
  | terminal
  | json
deriving DecidableEq, Inhabited

/-- The options of an architecture check. -/
structure CheckOptions where
  /-- The file with the program graph. -/
  graph : String
  config : Option String := none
  format : OutputFormat := .terminal
  /-- The file for the report, if it is not to be printed. -/
  output : Option String := none
  /-- Core packages in place of the configured ones. -/
  core : Option (List String) := none
  /-- Shell packages in place of the configured ones. -/
  shell : Option (List String) := none
  noDeterminism : Bool := false
  verbosity : Nat := 0
deriving DecidableEq, Inhabited

/-- The options of a classification. -/
structure ClassifyOptions where
  /-- The file with the program graph. -/
  graph : String
  config : Option String := none
  axis : Axis := .purity
  /-- The only unit to classify, if not all of them. -/
  unit : Option String := none
  format : OutputFormat := .terminal
  verbosity : Nat := 0
deriving DecidableEq, Inhabited

/-- A command with its options. -/
inductive Invocation where
  /-- Check a program against an architecture. -/
  | check (options : CheckOptions)
  /-- List the classification of a program's units. -/
  | classify (options : ClassifyOptions)
  /-- Write a fresh configuration file, over an existing one if forced. -/
  | init (force : Bool)
deriving DecidableEq, Inhabited

/-- Why arguments are not an invocation. Asking for help or for the version
    counts too, though it is no mistake. -/
inductive UsageFault where
  | help
  | version
  | noCommand
  | unknownCommand
  | missingArgument
  | unknownArgument
  | badValue
  | repeated
  | surplusValue
deriving DecidableEq, Inhabited

/-- The exit code of a call with such arguments. -/
def UsageFault.exitCode : UsageFault → Nat
  | help | version => 0
  | _ => 2

/-- What is wrong with such arguments, for the user. -/
def UsageFault.message : UsageFault → String
  | help => "help was asked for"
  | version => "the version was asked for"
  | noCommand => "a command is required"
  | unknownCommand => "there is no such command"
  | missingArgument => "the program graph is required"
  | unknownArgument => "there is no such argument"
  | badValue => "a value is missing or not possible"
  | repeated => "an argument cannot be given twice"
  | surplusValue => "an argument takes no value"

/-- The version line. -/
def versionText : String := "funcore 0.3.0\n"

/-- What is logged at a verbosity. -/
def logDirective : (verbosity : Nat) → String
  | 0 => "warn"
  | 1 => "funcore=info,warn"
  | 2 => "funcore=debug,info"
  | _ => "trace"

end CoreShell
