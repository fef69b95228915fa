import CoreShell.Error
import CoreShell.Path

/-!
# File Trees

The files that a command sees and leaves behind. A tree knows each directory
and file by the names on the way to it from the root, and every directory on
that way is in the tree as well.

A workspace is a tree with a current directory and with what was printed so
far. The current directory may be gone from the tree: it can still be left
upwards, but nothing is found or created in it.

## Main definitions

* `FileNode`: A directory, or a file with its bytes.
* `FileTree`: Directories and files by their place.
* `Workspace`: A tree with a current directory.
* `Workspace.locate`: The place a path leads to.
* `Workspace.read`, `Workspace.write`, `Workspace.createDirectories`: What
  commands do with files.
-/

namespace CoreShell

/-- What stands at a place in a file tree. -/
inductive FileNode where
  | directory
  | file (bytes : ByteArray)
deriving Inhabited

/-- Directories and files by the names on the way to them. The root itself is
    not listed. -/
structure FileTree where
  nodes : List (List String × FileNode) := []
deriving Inhabited

namespace FileTree

/-- What stands at a place. The root is a directory. -/
def node? (t : FileTree) (place : List String) : Option FileNode :=
  if place.isEmpty then some .directory else t.nodes.lookup place

/-- Whether a directory stands at a place. -/
def hasDirectory (t : FileTree) (place : List String) : Bool :=
  match t.node? place with
  | some .directory => true
  | _ => false

/-- The tree with something at a place, in place of what stood there. -/
def put (t : FileTree) (place : List String) (node : FileNode) : FileTree :=
  if t.nodes.any (·.1 = place) then
    { nodes := t.nodes.map fun n => if n.1 = place then (place, node) else n }
  else
    { nodes := t.nodes ++ [(place, node)] }

/-- The tree with a directory at a place and on the way to it. -/
def addDirectory (t : FileTree) (place : List String) : FileTree :=
  (List.range place.length).foldl
    (fun t n =>
      let ancestor := place.take (n + 1)
      if (t.node? ancestor).isSome then t else t.put ancestor .directory) t

/-- The tree with a file at a place and directories on the way to it. -/
def addFile (t : FileTree) (place : List String) (bytes : ByteArray) : FileTree :=
  (t.addDirectory place.dropLast).put place (.file bytes)

/-- The tree without what stands at a place. -/
def remove (t : FileTree) (place : List String) : FileTree :=
  { nodes := t.nodes.filter fun n => n.1 ≠ place }

/-- The files of a tree with their bytes. -/
def files (t : FileTree) : List (List String × ByteArray) :=
  t.nodes.filterMap fun n =>
    match n.2 with
    | .file bytes => some (n.1, bytes)
    | .directory => none

end FileTree

/-- A file tree with a current directory and what was printed so far. -/
structure Workspace where
  tree : FileTree := {}
  /-- The place of the current directory, which may be gone from the tree. -/
  directory : List String := []
  printed : String := ""
deriving Inhabited

namespace Workspace

/-- What stands at a place. The current directory counts as one even if it is
    gone. -/
def node? (w : Workspace) (place : List String) : Option FileNode :=
  if place = w.directory then some .directory else w.tree.node? place

/-- The place of a name in a directory. Nothing has a place in a directory that
    is gone, and neither has a name that is too long. -/
def child (w : Workspace) (parent : List String) (name : String) :
    Except FileFault (List String) :=
  if !w.tree.hasDirectory parent then .error .notFound
  else if name.utf8ByteSize > Path.maxNameBytes then .error .nameTooLong
  else .ok (parent ++ [name])

/-- The place that names lead to from a place, through directories only. -/
def follow (w : Workspace) (place : List String) : List String → Except FileFault (List String)
  | [] => .ok place
  | name :: rest =>
    match w.node? place with
    | none => .error .notFound
    | some (.file _) => .error .notADirectory
    | some .directory =>
      if name = "." then w.follow place rest
      else if name = ".." then w.follow place.dropLast rest
      else
        match w.child place name with
        | .error fault => .error fault
        | .ok next =>
          if (w.tree.node? next).isSome then w.follow next rest else .error .notFound

/-- The place a path starts from. -/
def startOf (w : Workspace) (path : String) : List String :=
  if Path.isAbsolute path then [] else w.directory

/-- What is wrong with a path whatever the files are. -/
def pathFault? (path : String) : Option FileFault :=
  if path.toList.contains '\x00' then some .zeroInName
  else if path.isEmpty then some .notFound
  else if path.utf8ByteSize > Path.maxBytes then some .nameTooLong
  else none

/-- The place that some of a path's names lead to. -/
def walk (w : Workspace) (path : String) (names : List String) :
    Except FileFault (List String) :=
  match pathFault? path with
  | some fault => .error fault
  | none => w.follow (w.startOf path) names

/-- The place of what a path leads to. A file must not be followed by a
    slash. -/
def locate (w : Workspace) (path : String) : Except FileFault (List String) := do
  let place ← w.walk path (Path.names path)
  match w.node? place with
  | some (.file _) => if Path.endsInSlash path then .error .notADirectory else .ok place
  | _ => .ok place

/-- Whether a path leads to a directory or a file. -/
def isPresent (w : Workspace) (path : String) : Bool :=
  (w.locate path).isOk

/-- Whether a path leads to a directory. -/
def isDirectory (w : Workspace) (path : String) : Bool :=
  match w.locate path with
  | .ok place =>
    match w.node? place with
    | some .directory => true
    | _ => false
  | .error _ => false

/-- The text of the file that a path leads to. -/
def read (w : Workspace) (path : String) : Except FileFault String := do
  let place ← w.locate path
  match w.node? place with
  | some (.file bytes) =>
    match String.fromUTF8? bytes with
    | some text => .ok text
    | none => .error .notText
  | some .directory => .error .isADirectory
  | none => .error .notFound

/-- The place of the directory that the last name of a path is in, and that
    name. Dots name nothing new, but a directory that is there. -/
def lastName (w : Workspace) (path : String) : Except FileFault (List String × String) := do
  let parent ← w.walk path (Path.names path).dropLast
  match w.node? parent, (Path.names path).getLast? with
  | none, _ => .error .notFound
  | some (.file _), _ => .error .notADirectory
  | some .directory, none => .error .isADirectory
  | some .directory, some name =>
    if name = "." ∨ name = ".." then .error .isADirectory else .ok (parent, name)

/-- The workspace with a text in the file that a path leads to. The file is
    created if need be, its directory is not. A path that ends in a slash is
    taken for a directory before anything is looked up. -/
def write (w : Workspace) (path text : String) : Except FileFault Workspace := do
  let (parent, name) ← w.lastName path
  if Path.endsInSlash path then .error .isADirectory
  else do
    let place ← w.child parent name
    if w.tree.hasDirectory place then .error .isADirectory
    else .ok { w with tree := w.tree.put place (.file text.toUTF8) }

/-- The workspace with one new directory. -/
def createDirectory (w : Workspace) (path : String) : Except FileFault Workspace :=
  match w.lastName path with
  | .error .isADirectory => .error .alreadyExists
  | .error fault => .error fault
  | .ok (parent, name) => do
    let place ← w.child parent name
    if (w.tree.node? place).isSome then .error .alreadyExists
    else .ok { w with tree := w.tree.put place .directory }

/-- The workspace with a directory and the missing ones on the way to it,
    given the path followed by its ancestors. -/
def createChain (w : Workspace) : List String → Except FileFault Workspace
  | [] => .ok w
  | path :: parents =>
    if path.isEmpty then .ok w
    else
      match w.createDirectory path with
      | .ok w => .ok w
      | .error .notFound => do
        let w ← w.createChain parents
        match w.createDirectory path with
        | .ok w => .ok w
        | .error fault => if w.isDirectory path then .ok w else .error fault
      | .error fault => if w.isDirectory path then .ok w else .error fault

/-- The workspace with a directory and the missing ones on the way to it. -/
def createDirectories (w : Workspace) (path : String) : Except FileFault Workspace :=
  w.createChain (Path.ancestors (path.length + 1) path)

/-- The current directory as a path, if it is still there. -/
def currentDirectory? (w : Workspace) : Option String :=
  if w.tree.hasDirectory w.directory then some ("/" ++ Text.join "/" w.directory) else none

end Workspace

end CoreShell
