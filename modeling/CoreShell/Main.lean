import CoreShell.Command.Call

/-!
# The Program

The command line program: a call of the program on the files of the machine it
runs on.

## Main definitions

* `Machine.access`: Access to the files of the machine.
* `main`: The program.
-/

namespace CoreShell

namespace Machine

/-- What an error of the system means for a file. Of the two errors about the
    type of a file, number 20 is the one for a directory that is none; some
    calls report their numbers negated. -/
def faultOf : IO.Error → FileFault
  | .noFileOrDirectory .. => .notFound
  | .alreadyExists .. => .alreadyExists
  | .inappropriateType _ code _ =>
    if code = 20 || code + 20 = 0 then .notADirectory else .isADirectory
  | .invalidArgument _ code details =>
    if code = 36 || code + 36 = 0 then .nameTooLong else .other details
  | error => .other (toString error)

/-- An action of the system, with its errors as file faults. -/
def attempt {α : Type} (action : IO α) : IO (Except FileFault α) := do
  match ← action.toBaseIO with
  | .ok result => return .ok result
  | .error error => return .error (faultOf error)

/-- The text of a file. -/
def read (path : String) : IO (Except FileFault String) := do
  match ← attempt (IO.FS.readBinFile path) with
  | .error fault => return .error fault
  | .ok bytes =>
    match String.fromUTF8? bytes with
    | some text => return .ok text
    | none => return .error .notText

/-- The current directory, if it is known. -/
def currentDirectory : IO (Option String) := do
  match ← attempt IO.currentDir with
  | .ok directory => return some directory.toString
  | .error _ => return none

/-- Access to the files of the machine. -/
def access : FileAccess IO where
  read := read
  write path text := attempt (IO.FS.writeFile path text)
  createDirectories path := attempt (IO.FS.createDirAll path)
  isPresent path := (System.mkFilePath [path]).pathExists
  currentDirectory := currentDirectory
  print := IO.print

end Machine

/-- How the program is called. -/
def usageText : String :=
  "Usage: funcore <COMMAND>\n\n" ++
  "Commands:\n" ++
  "  check <GRAPH>     Check a program graph against the functional-core architecture\n" ++
  "                    [-c FILE] [-f terminal|json] [-o FILE] [--core A,B] [--shell A,B]\n" ++
  "                    [--no-determinism] [-v]\n" ++
  "  classify <GRAPH>  Print the classification of every unit along one axis\n" ++
  "                    [-c FILE] [-a purity|determinism] [-u UNIT] [-f terminal|json] [-v]\n" ++
  "  init              Write a default .funcore.toml in the current directory [-f]\n" ++
  "  help              Print this text\n"

/-- Tell the user how a call ended. -/
def Outcome.announce : Outcome → IO Unit
  | refused .help => IO.print usageText
  | refused .version | finished => pure ()
  | refused fault => IO.eprint ("error: " ++ fault.message ++ "\n\n" ++ usageText)
  | failed failure => IO.eprintln ("Error: " ++ failure.message)

end CoreShell

/-- The program. -/
def main (args : List String) : IO UInt32 := do
  let terminal ← (← IO.getStdout).isTty
  let color := CoreShell.Style.isWanted (← IO.getEnv "CLICOLOR_FORCE") (← IO.getEnv "NO_COLOR")
    (← IO.getEnv "CLICOLOR") terminal
  let outcome ← CoreShell.Command.call CoreShell.Machine.access color
    (← IO.getEnv "FUNCORE_CONFIG") args
  outcome.announce
  return UInt32.ofNat outcome.exitCode
