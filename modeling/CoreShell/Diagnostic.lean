import CoreShell.Text.Pieces

/-!
# Diagnostics

Why a unit was rejected or left undecided. A log collects diagnostics in
order and leaves out those whose owner is outside its scope. Records about a
run as a whole name no unit and ignore the scope.

Two reasons only make sense at the end of a run, since a further run may
settle what they complain about; they are dropped before the next one.

## Main definitions

* `Reason`: The reasons.
* `Diagnostic`: A reason with owner, unit and message.
* `Log`: The diagnostics in a scope.
* `Log.record`, `Log.recordRun`: Adding to a log.
-/

namespace CoreShell

/-- Why a diagnostic was recorded. -/
inductive Reason where
  | voidReturn
  | opaqueOperation
  | fieldWrite
  | fieldRead
  | impureCall
  | unresolved
  | nonConvergence
deriving DecidableEq, Inhabited

namespace Reason

/-- The reason as reports print it. -/
def label : Reason → String
  | voidReturn => "void-return"
  | opaqueOperation => "opaque-operation"
  | fieldWrite => "field-write"
  | fieldRead => "field-read"
  | impureCall => "impure-call"
  | unresolved => "unresolved"
  | nonConvergence => "non-convergence"

/-- The name of a reason in documents. -/
def name : Reason → String
  | voidReturn => "VoidReturn"
  | opaqueOperation => "OpaqueOperation"
  | fieldWrite => "FieldWrite"
  | fieldRead => "FieldRead"
  | impureCall => "ImpureCall"
  | unresolved => "Unresolved"
  | nonConvergence => "NonConvergence"

/-- All reasons. -/
def all : List Reason :=
  [voidReturn, opaqueOperation, fieldWrite, fieldRead, impureCall, unresolved, nonConvergence]

/-- The reason with a name. -/
def ofName? (text : String) : Option Reason :=
  all.find? fun r => r.name = text

/-- Whether the reason is about a run and not about a unit. -/
def isRunLevel : Reason → Bool
  | nonConvergence => true
  | _ => false

/-- Whether the reason only holds at the end of a run. -/
def isEndOfRun : Reason → Bool
  | unresolved | nonConvergence => true
  | _ => false

end Reason

/-- One record of a log. Records about a run have no owner and no unit. -/
structure Diagnostic where
  owner : String
  unit : String
  reason : Reason
  message : String
deriving DecidableEq, Inhabited

/-- The diagnostics of an analysis, in the order they were recorded. -/
structure Log where
  /-- Beginnings of the owners to report on; none means all owners. -/
  scope : List String := []
  entries : List Diagnostic := []
deriving DecidableEq, Inhabited

namespace Log

/-- Whether units of an owner are reported. -/
def inScope (log : Log) (owner : String) : Bool :=
  log.scope.isEmpty || Text.startsWithAny log.scope owner

/-- Record a diagnostic, unless its owner is out of scope. -/
def record (log : Log) (d : Diagnostic) : Log :=
  if log.inScope d.owner then { log with entries := log.entries ++ [d] } else log

/-- Record something about the run as a whole, whatever the scope. -/
def recordRun (log : Log) (reason : Reason) (message : String) : Log :=
  { log with entries := log.entries ++ [{ owner := "", unit := "", reason, message }] }

/-- The log without the records that only held at the end of a run. -/
def dropEndOfRun (log : Log) : Log :=
  { log with entries := log.entries.filter fun d => !d.reason.isEndOfRun }

/-- The log without its records. -/
def clear (log : Log) : Log :=
  { log with entries := [] }

/-- The records with a reason. -/
def withReason (log : Log) (reason : Reason) : List Diagnostic :=
  log.entries.filter fun d => d.reason = reason

/-- The records about a unit. -/
def forUnit (log : Log) (unit : String) : List Diagnostic :=
  log.entries.filter fun d => d.unit = unit

end Log

end CoreShell
