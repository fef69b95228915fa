import CoreShell.Command.Run

/-!
# Calls

A call of the program from its arguments to its outcome. Arguments that are
no invocation end the call before any file is touched; only the version is
printed then.

## Main definitions

* `Outcome`: How a call ends.
* `Outcome.exitCode`: The number a call ends with.
* `Outcome.failure?`: What a failed call says.
* `Command.call`: A call of the program.
-/

namespace CoreShell

/-- How a call ends. -/
inductive Outcome where
  /-- The arguments are no invocation. -/
  | refused (fault : UsageFault)
  /-- The command did what it was asked for. -/
  | finished
  /-- The command failed. -/
  | failed (failure : Failure)
deriving DecidableEq, Inhabited

namespace Outcome

/-- The number a call ends with. -/
def exitCode : Outcome → Nat
  | refused fault => fault.exitCode
  | finished => 0
  | failed _ => 1

/-- What a failed call says. -/
def failure? : Outcome → Option String
  | failed failure => some ("Error: " ++ failure.message)
  | _ => none

end Outcome

namespace Command

/-- A call of the program with arguments, where `config` is the configuration
    file that the environment names. -/
def call {m : Type → Type} [Monad m] (files : FileAccess m) (color : Bool)
    (config : Option String) (args : List String) : m Outcome := do
  match Invocation.ofArgs config args with
  | .error fault =>
    if fault = .version then files.print versionText
    return .refused fault
  | .ok invocation =>
    match ← (run files color invocation).run with
    | .ok () => return .finished
    | .error failure => return .failed failure

end Command

end CoreShell
