import CoreShell.Command.Line
import CoreShell.Config.Discovery
import CoreShell.Graph.Document
import CoreShell.Report.Document
import CoreShell.Report.Terminal

/-!
# Commands

What the three commands do. Each reads what it needs, and writes or prints its
result; a check that finds violations fails after its report is out.

## Main definitions

* `Failure`: Why a command fails.
* `Command.check`: The architecture check.
* `Command.classifications`: The classification of a program's units.
* `Command.classify`: The list of them.
* `Command.init`: The fresh configuration file.
* `Command.run`: The command of an invocation.
-/

namespace CoreShell

/-- Why a command fails. -/
inductive Failure where
  /-- Something went wrong. -/
  | error (cause : Error)
  /-- The program graph in a file could not be evaluated. -/
  | evaluation (path : String) (cause : Error)
  /-- The check found violations. -/
  | violations (count : Nat)
  /-- There is a configuration file already. -/
  | configExists
deriving DecidableEq, Inhabited

/-- The text of a failure. -/
def Failure.message : Failure → String
  | error cause => cause.message
  | evaluation path _ => "Failed to evaluate " ++ path
  | violations count =>
    "Architecture check failed with " ++ toString count ++ " violation(s)"
  | configExists => "Configuration file already exists. Use --force to overwrite."

namespace Command

variable {m : Type → Type} [Monad m]

/-- An action on files, as part of a command. -/
def onFiles {α : Type} (action : m (Except FileFault α)) : ExceptT Failure m α := do
  match ← ExceptT.lift action with
  | .ok result => return result
  | .error fault => throw (.error (.file fault))

/-- The result of an analysis, as part of a command. -/
def orFail {α : Type} (failure : Error → Failure) : Except Error α → ExceptT Failure m α
  | .ok result => pure result
  | .error cause => throw (failure cause)

/-- The configuration that a command works with. -/
def settings (files : FileAccess m) (named : Option String) : ExceptT Failure m Config := do
  match ← ExceptT.lift (Config.resolve files named) with
  | .ok config => return config
  | .error fault => throw (.error fault.toError)

/-- The program graph in a file. -/
def loadGraph (files : FileAccess m) (path : String) : ExceptT Failure m Graph := do
  match ← ExceptT.lift (files.read path) with
  | .error fault => throw (.error ((Error.file fault).inContext ("reading " ++ path)))
  | .ok text =>
    match Graph.parse text with
    | .ok graph => return graph
    | .error cause => throw (.error (.invalidGraph path cause.message))

/-- Print a document, or write it to a file in a directory that is created if
    need be. -/
def writeJson (files : FileAccess m) (document : Json) :
    (path : Option String) → ExceptT Failure m Unit
  | none => ExceptT.lift (files.print (document.pretty ++ "\n"))
  | some path => do
    match Path.parent? path with
    | some parent => unless parent.isEmpty do onFiles (files.createDirectories parent)
    | none => pure ()
    onFiles (files.write path document.pretty)

/-- Print a text, or write it to a file in an existing directory. -/
def writeText (files : FileAccess m) (text : String) :
    (path : Option String) → ExceptT Failure m Unit
  | none => ExceptT.lift (files.print text)
  | some path => onFiles (files.write path text)

/-- The settings of a check with what the command line puts in their place. -/
def override (options : CheckOptions) (config : Config) : Config :=
  { config with
    core := options.core.getD config.core
    shell := options.shell.getD config.shell
    checkDeterminism := config.checkDeterminism && !options.noDeterminism }

/-- Check a program against an architecture. -/
def check (files : FileAccess m) (color : Bool) (options : CheckOptions) :
    ExceptT Failure m Unit := do
  let config ← settings files options.config
  let graph ← loadGraph files options.graph
  let rule := Architecture.ofConfig (override options config)
  let result ← orFail (.evaluation options.graph) (rule.evaluate graph)
  match options.format with
  | .json => writeJson files result.toJson options.output
  | .terminal => writeText files (Report.evaluation color result) options.output
  if result.hasViolations then throw (.violations result.violationCount)

/-- The rows of a session: that of one unit, or those of all submitted ones. -/
def verdicts (s : Session) : (only : Option String) → Except Error (List Verdict)
  | some unit => do
    let grade ← s.query unit
    return [{ unit, classification := s.axis.label grade }]
  | none =>
    return (s.program.units.toList.filter (·.submitted)).map fun u =>
      { unit := u.qualified, classification := s.axis.label (s.gradeOf u.id) }

/-- The classification of one unit of a program, or of all submitted ones, along
    an axis. -/
def classifications (config : Config) (axis : Axis) (only : Option String) (graph : Graph) :
    Except Error (List Verdict) := do
  let (s, _) ← Session.analyze axis (config.catalogFor axis) [] config.maxRounds graph
  verdicts s only

/-- List the classification of a program's units. -/
def classify (files : FileAccess m) (color : Bool) (options : ClassifyOptions) :
    ExceptT Failure m Unit := do
  let config ← settings files options.config
  let graph ← loadGraph files options.graph
  let rows ← orFail .error (classifications config options.axis options.unit graph)
  match options.format with
  | .json => writeJson files (.array (rows.map Verdict.toJson)) none
  | .terminal => writeText files (Report.classifications color options.axis.name rows) none

/-- Write a fresh configuration file. -/
def init (files : FileAccess m) (force : Bool) : ExceptT Failure m Unit := do
  let path := Path.join "." Config.fileName
  let present ← ExceptT.lift (files.isPresent path)
  if present && !force then throw .configExists
  onFiles (files.write path Config.template)
  ExceptT.lift (files.print ("Created " ++ Config.fileName ++ " configuration file\n"))

/-- Do what an invocation asks for. -/
def run (files : FileAccess m) (color : Bool) : Invocation → ExceptT Failure m Unit
  | .check options => check files color options
  | .classify options => classify files color options
  | .init force => init files force

end Command

end CoreShell
