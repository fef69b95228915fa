import CoreShell.Declaration
import CoreShell.Program.Intern
import CoreShell.Program.Registry

/-!
# Programs

A program is a graph of declarations with every name replaced by a position:
of a unit, a type or a field, in the order of first mention. Units and types
that are only referred to get a position too; a unit stays external until it
is submitted.

A unit may be submitted again and a type declared again, and the later
declaration replaces the earlier one without changing any position. Facts
about the whole program, who writes a field and who overrides a unit, are
taken down by freezing it; `Program.index` holds them as of the last freeze,
and `Program.frozen` says whether they are still current.

## Main definitions

* `CodeUnit`, `TypeInfo`, `CallSite`: Declarations with positions for names.
* `Program`: The interned declarations.
* `Program.declareType`, `Program.submit`, `Program.load`: Growing a program.
* `Program.unitId?`: The position of a qualified name.
-/

namespace CoreShell

/-- The position of a unit in its program. -/
abbrev UnitId := Nat

/-- The position of a type in its program. -/
abbrev TypeId := Nat

/-- The position of a field in its program. -/
abbrev FieldId := Nat

/-- A type as the program knows it. -/
structure TypeInfo where
  name : String
  dispatch : Dispatch := .concrete
  supertypes : List TypeId := []
  /-- Whether the type was declared, and not only referred to. -/
  declared : Bool := false
deriving DecidableEq, Inhabited

/-- A call site with its declared owner and the units it may resolve to. -/
structure CallSite where
  owner : TypeId
  targets : List UnitId
deriving DecidableEq, Inhabited

/-- A unit as the program knows it. -/
structure CodeUnit where
  id : UnitId
  qualified : String
  name : String
  parameters : List String
  kind : UnitKind
  owner : TypeId
  native : Bool := false
  isAbstract : Bool := false
  returnsVoid : Bool := false
  calls : List CallSite := []
  writes : List FieldId := []
  reads : List FieldId := []
  constructs : List UnitId := []
  /-- Whether the unit was submitted, and not only referred to. -/
  submitted : Bool := false
deriving DecidableEq, Inhabited

namespace CodeUnit

/-- Whether the unit is a constructor. -/
def isConstructor (u : CodeUnit) : Bool :=
  u.kind = .constructor

/-- All units the unit may call, call site by call site. -/
def targets (u : CodeUnit) : List UnitId :=
  u.calls.flatMap (·.targets)

/-- Whether some call site has a target. -/
def hasCalls (u : CodeUnit) : Bool :=
  u.calls.any fun call => !call.targets.isEmpty

/-- What virtual calls to the unit are resolved by. -/
def signature (u : CodeUnit) : Signature :=
  { owner := u.owner, name := u.name, parameters := u.parameters }

end CodeUnit

/-- Facts about a whole program. -/
structure Index where
  /-- For every field the submitted units that write it, in ascending
      order. -/
  writers : Array (List UnitId) := #[]
  registry : Registry := {}
deriving Inhabited

/-- The interned declarations of a program. -/
structure Program where
  units : Array CodeUnit := #[]
  types : Array TypeInfo := #[]
  fields : Array FieldRef := #[]
  /-- Facts about the whole program as of the last freeze. -/
  index : Index := {}
  /-- Whether nothing was declared or submitted since the last freeze. -/
  frozen : Bool := false
deriving Inhabited

namespace Program

/-- The position of the unit with a qualified name. -/
def unitId? (p : Program) (qualified : String) : Option UnitId :=
  p.units.findIdx? fun u => u.qualified = qualified

/-- The position of the type with a name. -/
def typeId? (p : Program) (name : String) : Option TypeId :=
  p.types.findIdx? fun t => t.name = name

/-- The qualified name of a unit. -/
def unitName (p : Program) (id : UnitId) : String :=
  (p.units[id]?.map (·.qualified)).getD ""

/-- The name of a type. -/
def typeName (p : Program) (id : TypeId) : String :=
  (p.types[id]?.map (·.name)).getD ""

/-- How calls against a type find their target. -/
def dispatchOf (p : Program) (id : TypeId) : Dispatch :=
  (p.types[id]?.map (·.dispatch)).getD .concrete

/-- The name of the type that owns a unit. -/
def ownerName (p : Program) (id : UnitId) : String :=
  (p.units[id]?.map fun u => p.typeName u.owner).getD ""

/-- The field at a position. -/
def field (p : Program) (id : FieldId) : FieldRef :=
  p.fields.getD id default

/-- Whether calls of a unit go to its overriders and not to its own body. -/
def dispatchesVirtually (p : Program) (u : CodeUnit) : Bool :=
  u.isAbstract || p.dispatchOf u.owner = .interface

/-- The position of a type, known from here on. -/
def internType (p : Program) (name : String) : Program × TypeId :=
  let (types, id) := intern TypeInfo.name (fun _ => { name }) name p.types
  ({ p with types }, id)

/-- A unit that is only referred to, as far as its name tells. -/
def external (qualified owner : String) (ownerId : TypeId) (id : UnitId) : CodeUnit :=
  let (name, parameters) := Name.split qualified owner
  { id, qualified, name, parameters, owner := ownerId,
    kind := if name = Name.constructorName then .constructor else .method }

/-- The position of a unit, known from here on. A new one is external and
    belongs to the given type. -/
def internUnit (p : Program) (qualified : String) (owner : TypeId) : Program × UnitId :=
  let (units, id) :=
    intern CodeUnit.qualified (external qualified (p.typeName owner) owner) qualified p.units
  ({ p with units }, id)

/-- The position of a unit that is called or constructed. A new one belongs
    to the owner in its own name, whatever the call site says. -/
def internReference (p : Program) (qualified : String) : Program × UnitId :=
  let (p, owner) := p.internType (Name.ownerOf qualified)
  p.internUnit qualified owner

/-- A call site with positions for names. -/
def internCall (p : Program) (call : CallDecl) : Program × CallSite :=
  let (p, owner) := p.internType call.owner
  let (p, targets) := internAll internReference p call.targets
  (p, { owner, targets })

/-- The position of a field. A new one makes its owner known as well. -/
def internField (p : Program) (f : FieldRef) : Program × FieldId :=
  match p.fields.findIdx? (· = f) with
  | some id => (p, id)
  | none =>
    let (p, _) := p.internType f.owner
    ({ p with fields := p.fields.push f }, p.fields.size)

/-- Declare a type, in place of any earlier declaration of its name. -/
def declareType (p : Program) (decl : TypeDecl) : Program × TypeId :=
  let (p, id) := p.internType decl.name
  let (p, supertypes) := internAll internType p decl.supertypes
  let declare (t : TypeInfo) : TypeInfo :=
    { t with dispatch := decl.dispatch, supertypes, declared := true }
  ({ p with types := p.types.modify id declare, frozen := false }, id)

/-- Submit a unit, in place of any earlier declaration of its qualified
    name. -/
def submit (p : Program) (decl : UnitDecl) : Program × UnitId :=
  let (p, owner) := p.internType decl.owner
  let (p, id) := p.internUnit decl.qualifiedName owner
  let (p, calls) := internAll internCall p decl.calls
  let (p, writes) := internAll internField p decl.writes
  let (p, reads) := internAll internField p decl.reads
  let (p, constructs) := internAll internReference p decl.constructs
  let declare (u : CodeUnit) : CodeUnit :=
    { id := u.id, qualified := u.qualified, name := decl.name, parameters := decl.parameters,
      kind := decl.kind, owner, native := decl.native, isAbstract := decl.isAbstract,
      returnsVoid := decl.returnsVoid, calls, writes, reads, constructs, submitted := true }
  ({ p with units := p.units.modify id declare, frozen := false }, id)

/-- Declare all types and then submit all units of a graph. -/
def load (p : Program) (g : Graph) : Program :=
  let p := g.types.foldl (fun p t => (p.declareType t).1) p
  g.units.foldl (fun p u => (p.submit u).1) p

/-- The program of a graph. -/
def ofGraph (g : Graph) : Program :=
  ({} : Program).load g

end Program

end CoreShell
