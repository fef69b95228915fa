import CoreShell.Name

/-!
# Declarations

What is handed over about a program: its types and its units, with every
reference written as a name. A `Graph` is a whole program in this form.

A unit lists its call sites, the fields it writes and reads, and the
constructors whose results it keeps to itself. A call site has the declared
owner of the call and every unit the call may resolve to.

Units and types can be written down field by field, or built up from
`UnitDecl.method`, `UnitDecl.construct` and their relatives.

## Main definitions

* `TypeDecl`, `UnitDecl`, `CallDecl`, `FieldRef`: The declarations.
* `Graph`: All declarations of a program.
* `UnitDecl.qualifiedName`: The name a unit is known by.
-/

namespace CoreShell

/-- Whether a unit is a constructor. -/
inductive UnitKind where
  | method
  | constructor
deriving DecidableEq, Inhabited

/-- How calls against a type find their target. -/
inductive Dispatch where
  | concrete
  | interface
  | abstract
deriving DecidableEq, Inhabited

/-- A type with its direct supertypes. -/
structure TypeDecl where
  name : String
  dispatch : Dispatch := .concrete
  supertypes : List String := []
deriving DecidableEq, Inhabited

namespace TypeDecl

/-- An ordinary class. -/
def concrete (name : String) : TypeDecl :=
  { name }

/-- An interface. -/
def interface (name : String) : TypeDecl :=
  { name, dispatch := .interface }

/-- An abstract class. -/
def abstractClass (name : String) : TypeDecl :=
  { name, dispatch := .abstract }

/-- The type with one more direct supertype. -/
def extending (t : TypeDecl) (supertype : String) : TypeDecl :=
  { t with supertypes := t.supertypes ++ [supertype] }

end TypeDecl

/-- A field, known by its enclosing type and its name. -/
structure FieldRef where
  owner : String
  name : String
deriving DecidableEq, Inhabited

/-- The name of a field with its type in front. -/
def FieldRef.qualified (f : FieldRef) : String :=
  f.owner ++ "." ++ f.name

/-- A call site: the declared owner of the call and every unit it may
    resolve to. -/
structure CallDecl where
  owner : String
  targets : List String
deriving DecidableEq, Inhabited

/-- A callable unit of code. -/
structure UnitDecl where
  owner : String
  name : String
  parameters : List String := []
  kind : UnitKind := .method
  /-- The unit has no body that could be looked at. -/
  native : Bool := false
  /-- The unit has no body of its own; its overriders do the work. -/
  isAbstract : Bool := false
  returnsVoid : Bool := false
  calls : List CallDecl := []
  writes : List FieldRef := []
  reads : List FieldRef := []
  /-- Constructors called locally whose result is not known to escape. -/
  constructs : List String := []
deriving DecidableEq, Inhabited

namespace UnitDecl

/-- A method without parameters that does nothing. -/
def method (owner name : String) : UnitDecl :=
  { owner, name }

/-- A constructor without parameters that does nothing. -/
def construct (owner : String) : UnitDecl :=
  { owner, name := Name.constructorName, kind := .constructor }

/-- The unit with the given parameters in place of its own. -/
def withParameters (u : UnitDecl) (parameters : List String) : UnitDecl :=
  { u with parameters }

/-- The unit, returning nothing. -/
def returningVoid (u : UnitDecl) : UnitDecl :=
  { u with returnsVoid := true }

/-- The unit as an opaque operation. -/
def asNative (u : UnitDecl) : UnitDecl :=
  { u with native := true }

/-- The unit without a body of its own. -/
def asAbstract (u : UnitDecl) : UnitDecl :=
  { u with isAbstract := true }

/-- The unit with one more call site, which may resolve to several units. -/
def callingAny (u : UnitDecl) (owner : String) (targets : List String) : UnitDecl :=
  { u with calls := u.calls ++ [{ owner, targets }] }

/-- The unit with one more call site, which resolves to one unit. -/
def calling (u : UnitDecl) (owner target : String) : UnitDecl :=
  u.callingAny owner [target]

/-- The unit with one more written field. -/
def writing (u : UnitDecl) (owner name : String) : UnitDecl :=
  { u with writes := u.writes ++ [{ owner, name }] }

/-- The unit with one more read field. -/
def reading (u : UnitDecl) (owner name : String) : UnitDecl :=
  { u with reads := u.reads ++ [{ owner, name }] }

/-- The unit with one more local construction. -/
def constructing (u : UnitDecl) (target : String) : UnitDecl :=
  { u with constructs := u.constructs ++ [target] }

/-- Only the declared kind makes a constructor, whatever the name says. -/
def isConstructor (u : UnitDecl) : Bool :=
  u.kind = .constructor

/-- The name a unit is known by. -/
def qualifiedName (u : UnitDecl) : String :=
  Name.qualify u.owner u.name u.parameters

end UnitDecl

/-- All declarations of a program. -/
structure Graph where
  types : List TypeDecl := []
  units : List UnitDecl := []
deriving DecidableEq, Inhabited

namespace Graph

/-- The graph with one more type at the end. -/
def withType (g : Graph) (t : TypeDecl) : Graph :=
  { g with types := g.types ++ [t] }

/-- The graph with one more unit at the end. -/
def withUnit (g : Graph) (u : UnitDecl) : Graph :=
  { g with units := g.units ++ [u] }

end Graph

end CoreShell
