import CoreShell.Text.Pieces

/-!
# Paths

Paths as texts, with names between slashes. Empty names and single dots do not
count, except for a dot at the very start; two dots are a name like any other,
since what they stand for is only known to the file system.

The parent of a path is the path without its last name, as text: everything in
front of it stays as it was written.

## Main definitions

* `parent?`: A path without its last name.
* `ancestors`: A path, its parent, and so on.
* `join`: A name below a directory.
* `names`: The names in a path.
-/

namespace CoreShell

namespace Path

/-- How many bytes a name may have. -/
def maxNameBytes : Nat := 255

/-- How many bytes a path may have. -/
def maxBytes : Nat := 4095

/-- Whether a path starts at the root. -/
def isAbsolute (path : String) : Bool :=
  path.toList.head? = some '/'

/-- The part of a path that names the place it starts from, and the rest: a
    slash for the root, a dot for the current directory, or nothing. -/
def divide : List Char → List Char × List Char
  | '/' :: rest => (['/'], rest)
  | ['.'] => (['.'], [])
  | '.' :: '/' :: rest => (['.'], '/' :: rest)
  | cs => ([], cs)

/-- Whether a piece between slashes counts as a name. -/
def isName (piece : List Char) : Bool :=
  piece ≠ [] && piece ≠ ['.']

/-- Pieces without those at the end that are no names. -/
def dropTrailing (pieces : List (List Char)) : List (List Char) :=
  (pieces.reverse.dropWhile fun piece => !isName piece).reverse

/-- A path without its last name. The root has no parent, and neither has the
    empty path. -/
def parent? (path : String) : Option String :=
  let (start, rest) := divide path.toList
  let pieces := dropTrailing (rest.splitOn '/')
  if pieces.isEmpty then
    if start = ['.'] then some "" else none
  else
    some (String.ofList (start ++ ['/'].intercalate (dropTrailing pieces.dropLast)))

/-- A path, its parent, and so on, at most `depth` of them. -/
def ancestors : (depth : Nat) → (start : String) → List String
  | 0, _ => []
  | depth + 1, start =>
    start :: match parent? start with
      | some parent => ancestors depth parent
      | none => []

/-- A relative path below a directory. An absolute path stays as it is. -/
def join (directory path : String) : String :=
  if isAbsolute path || directory.isEmpty then path
  else if directory.toList.getLast? = some '/' then directory ++ path
  else directory ++ "/" ++ path

/-- The pieces of a path between slashes that are not empty. -/
def names (path : String) : List String :=
  ((path.toList.splitOn '/').filter (· ≠ [])).map String.ofList

/-- Whether a path ends in a slash, and so can only mean a directory. -/
def endsInSlash (path : String) : Bool :=
  path.toList.getLast? = some '/'

end Path

end CoreShell
