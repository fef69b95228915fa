import CoreShell.Config.Document
import CoreShell.FileAccess

/-!
# Finding a Configuration

Without a configuration named by the user, the nearest one counts: the
configuration file in the start directory or the closest directory above it. A
file that cannot be read or is not acceptable is passed over, and after ten
directories the search ends with the default configuration.

## Main definitions

* `Config.searchDepth`: How many directories are searched.
* `Config.firstIn`: The configuration in the first of several directories.
* `Config.discover`: The configuration for a directory.
* `Config.load`: The configuration in a given file.
* `Config.resolve`: The configuration in a given file, or the nearest one.
-/

namespace CoreShell

namespace Config

/-- How many directories are searched, the first one included. -/
def searchDepth : Nat := 10

/-- The configuration in the first of several directories that has an
    acceptable one, and the default if none has. -/
def firstIn {m : Type → Type} [Monad m] (read : String → m (Except FileFault String)) :
    (directories : List String) → m Config
  | [] => pure {}
  | directory :: rest => do
    match ← read (Path.join directory fileName) with
    | .error _ => firstIn read rest
    | .ok text =>
      match parse text with
      | .error _ => firstIn read rest
      | .ok config => return config

/-- The configuration for a directory: its own or the closest above it. -/
def discover {m : Type → Type} [Monad m] (read : String → m (Except FileFault String))
    (start : String) : m Config :=
  firstIn read (Path.ancestors searchDepth start)

/-- The configuration in a given file. -/
def load {m : Type → Type} [Monad m] (read : String → m (Except FileFault String))
    (path : String) : m (Except ConfigFault Config) := do
  match ← read path with
  | .error fault => return .error (.unreadable path fault)
  | .ok text => return parse text

/-- The configuration in the file a user names, or else the nearest one. A
    current directory that is not known has the default configuration. -/
def resolve {m : Type → Type} [Monad m] (files : FileAccess m) :
    (named : Option String) → m (Except ConfigFault Config)
  | some path => load files.read path
  | none => do
    match ← files.currentDirectory with
    | some directory => .ok <$> discover files.read directory
    | none => return .ok {}

end Config

end CoreShell
