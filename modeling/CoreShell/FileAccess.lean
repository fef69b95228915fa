import CoreShell.FileTree

/-!
# Access to Files

What a command needs from its surroundings: reading and writing files, and
printing. Commands are written against this interface, so that the same
command can act on the files of a machine or on a workspace held in memory.

## Main definitions

* `FileAccess`: The interface.
* `Workspace.access`: The interface on a workspace.
-/

namespace CoreShell

/-- What a command needs from its surroundings. -/
structure FileAccess (m : Type → Type) where
  /-- The text of a file. -/
  read : (path : String) → m (Except FileFault String)
  /-- Put a text into a file, which is created if need be. -/
  write : (path text : String) → m (Except FileFault Unit)
  /-- Create a directory and the missing ones on the way to it. -/
  createDirectories : (path : String) → m (Except FileFault Unit)
  /-- Whether there is a file or a directory. -/
  isPresent : (path : String) → m Bool
  /-- The current directory, if it is known. -/
  currentDirectory : m (Option String)
  /-- Print a text. -/
  print : (text : String) → m Unit

namespace Workspace

/-- A change of the workspace that may fail, in which case nothing changes. -/
def attempt (change : Workspace → Except FileFault Workspace) :
    StateM Workspace (Except FileFault Unit) :=
  fun w =>
    match change w with
    | .ok changed => (.ok (), changed)
    | .error fault => (.error fault, w)

/-- Access to the files of a workspace. -/
def access : FileAccess (StateM Workspace) where
  read path := fun w => (w.read path, w)
  write path text := attempt fun w => w.write path text
  createDirectories path := attempt fun w => w.createDirectories path
  isPresent path := fun w => (w.isPresent path, w)
  currentDirectory := fun w => (w.currentDirectory?, w)
  print text := fun w => ((), { w with printed := w.printed ++ text })

end Workspace

end CoreShell
