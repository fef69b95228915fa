/-!
# Errors

Everything that can go wrong in an analysis, as causes, with the wording of
each in one place.

An error can be wrapped in a context that says what was being done. A wrapped
error keeps the text of what it wraps and nothing else of it.

## Main definitions

* `FileFault`: Why a file could not be read or written.
* `Error`: The causes.
* `Error.message`: The text of an error.
* `Error.inContext`: An error wrapped in a context.
* `Error.during`: A result whose error is wrapped in a context.
* `Error.isCallerFixable`: Whether the caller can do something about it.
-/

namespace CoreShell

/-- Why a file could not be read or written. -/
inductive FileFault where
  | notFound
  | alreadyExists
  | notADirectory
  | isADirectory
  /-- A path or a name in it has too many bytes. -/
  | nameTooLong
  /-- A path has a zero character in it. -/
  | zeroInName
  /-- The bytes of the file are no text. -/
  | notText
  /-- Anything else, in the words of the system. -/
  | other (text : String)
deriving DecidableEq, Inhabited

/-- The text of a file fault. -/
def FileFault.message : FileFault → String
  | notFound => "No such file or directory (os error 2)"
  | alreadyExists => "File exists (os error 17)"
  | notADirectory => "Not a directory (os error 20)"
  | isADirectory => "Is a directory (os error 21)"
  | nameTooLong => "File name too long (os error 36)"
  | zeroInName => "file name contained an unexpected NUL byte"
  | notText => "stream did not contain valid UTF-8"
  | other text => text

/-- What can go wrong in an analysis. -/
inductive Error where
  /-- A unit was asked for that the program does not know. -/
  | notRegistered (unit : String)
  /-- The analysis contradicts itself. -/
  | invariant (text : String)
  /-- A configuration is not acceptable. -/
  | configuration (text : String)
  /-- A file does not hold a program graph. -/
  | invalidGraph (path detail : String)
  /-- An error with a note on what was being done. -/
  | wrapped (context text : String)
  /-- A file could not be read or written. -/
  | file (fault : FileFault)
  /-- A text is no graph document, with what its reader says about it. -/
  | document (detail : String)
deriving DecidableEq, Inhabited

namespace Error

/-- The text of an error. -/
def message : Error → String
  | notRegistered unit => "Code unit not registered: " ++ unit
  | invariant text => "Internal invariant violated: " ++ text
  | configuration text => "Configuration error: " ++ text
  | invalidGraph path detail => "Invalid program graph " ++ path ++ ": " ++ detail
  | wrapped context text => context ++ ": " ++ text
  | file fault => fault.message
  | document detail => detail

/-- The error with a note on what was being done. -/
def inContext (e : Error) (context : String) : Error :=
  .wrapped context e.message

/-- A result with a note on what was being done, in case it is an error. -/
def during {α : Type} (context : String) (result : Except Error α) : Except Error α :=
  result.mapError (·.inContext context)

/-- Whether the caller can do something about an error. -/
def isCallerFixable : Error → Bool
  | invariant _ => false
  | _ => true

end Error

end CoreShell
