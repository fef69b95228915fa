import CoreShell.Declaration
import CoreShell.Error
import CoreShell.Json.Reader
import CoreShell.Json.Writer

/-!
# Graph Documents

A program graph as a JSON document. Every declaration is a record: an object
with a member per field, or an array of the fields in order. Fields that have
a default may be left out, from an array at its end; members that a record
does not know are ignored. A known member must not be repeated, and the name
of every member must denote a text.

A choice among named alternatives is a string, or an object with the name as
its only member and `null` for its value.

## Main definitions

* `Json.record?`: The fields of a record.
* `Graph.toJson`: The document of a graph, with every field.
* `Graph.ofJson?`: The graph of a document.
* `Graph.parse?`: The graph of a document as text.
* `Graph.parse`: The same, with what is wrong with other texts.

## Theorems

* `Graph.parse_eq_ok_iff`: What is read.
-/

namespace CoreShell

namespace Json

/-- The members of an object whose names all denote texts. -/
def namedMembers? (members : List (Option String × Json)) : Option (List (String × Json)) :=
  members.mapM fun m => m.1.map fun name => (name, m.2)

/-- The fields of a record with the given field names, each present or
    absent. -/
def record? (names : List String) : Json → Option (List (Option Json))
  | .object members => do
    let named ← namedMembers? members
    if names.any fun name => 1 < named.countP (·.1 = name) then none
    else return names.map fun name => (named.find? (·.1 = name)).map (·.2)
  | .array items =>
    if items.length ≤ names.length then
      some (items.map some ++ List.replicate (names.length - items.length) none)
    else none
  | _ => none

/-- A text. -/
def toText? : Json → Option String
  | .string text => text
  | _ => none

/-- A truth value. -/
def toBool? : Json → Option Bool
  | .bool b => some b
  | _ => none

/-- A list whose items all have the same form. -/
def toList? {α : Type} (item? : Json → Option α) : Json → Option (List α)
  | .array items => items.mapM item?
  | _ => none

/-- One of several named alternatives. -/
def toChoice? {α : Type} (choices : List (String × α)) : Json → Option α
  | .string (some name) => choices.lookup name
  | .object [(some name, .null)] => choices.lookup name
  | _ => none

/-- A field that must be present. -/
def required? {α : Type} (read? : Json → Option α) (field : Option Json) : Option α :=
  field.bind read?

/-- A field that has a default. -/
def optional? {α : Type} (read? : Json → Option α) (fallback : α) : Option Json → Option α
  | some json => read? json
  | none => some fallback

end Json

/-- The names of the dispatch kinds. -/
def Dispatch.names : List (String × Dispatch) :=
  [("concrete", .concrete), ("interface", .interface), ("abstract", .abstract)]

/-- The name of a dispatch kind. -/
def Dispatch.name : Dispatch → String
  | concrete => "concrete"
  | interface => "interface"
  | abstract => "abstract"

/-- The names of the unit kinds. -/
def UnitKind.names : List (String × UnitKind) :=
  [("method", .method), ("constructor", .constructor)]

/-- The name of a unit kind. -/
def UnitKind.name : UnitKind → String
  | method => "method"
  | constructor => "constructor"

namespace TypeDecl

/-- The document of a type. -/
def toJson (t : TypeDecl) : Json :=
  .fields
    [("name", .text t.name), ("dispatch", .text t.dispatch.name),
     ("supertypes", .texts t.supertypes)]

/-- The type of a document. -/
def ofJson? (json : Json) : Option TypeDecl := do
  let [name, dispatch, supertypes] ← json.record? ["name", "dispatch", "supertypes"] | none
  return {
    name := ← Json.required? Json.toText? name
    dispatch := ← Json.optional? (Json.toChoice? Dispatch.names) .concrete dispatch
    supertypes := ← Json.optional? (Json.toList? Json.toText?) [] supertypes }

end TypeDecl

namespace FieldRef

/-- The document of a field. -/
def toJson (f : FieldRef) : Json :=
  .fields [("owner", .text f.owner), ("name", .text f.name)]

/-- The field of a document. -/
def ofJson? (json : Json) : Option FieldRef := do
  let [owner, name] ← json.record? ["owner", "name"] | none
  return {
    owner := ← Json.required? Json.toText? owner
    name := ← Json.required? Json.toText? name }

end FieldRef

namespace CallDecl

/-- The document of a call site. -/
def toJson (c : CallDecl) : Json :=
  .fields [("owner", .text c.owner), ("targets", .texts c.targets)]

/-- The call site of a document. -/
def ofJson? (json : Json) : Option CallDecl := do
  let [owner, targets] ← json.record? ["owner", "targets"] | none
  return {
    owner := ← Json.required? Json.toText? owner
    targets := ← Json.required? (Json.toList? Json.toText?) targets }

end CallDecl

namespace UnitDecl

/-- The fields of a unit in the order of its record. -/
def fieldNames : List String :=
  ["owner", "name", "parameters", "kind", "native", "abstract", "returns_void", "calls",
   "writes", "reads", "constructs"]

/-- The document of a unit. -/
def toJson (u : UnitDecl) : Json :=
  .fields
    [("owner", .text u.owner), ("name", .text u.name), ("parameters", .texts u.parameters),
     ("kind", .text u.kind.name), ("native", .bool u.native), ("abstract", .bool u.isAbstract),
     ("returns_void", .bool u.returnsVoid), ("calls", .array (u.calls.map CallDecl.toJson)),
     ("writes", .array (u.writes.map FieldRef.toJson)),
     ("reads", .array (u.reads.map FieldRef.toJson)), ("constructs", .texts u.constructs)]

/-- The unit of a document. -/
def ofJson? (json : Json) : Option UnitDecl := do
  let [owner, name, parameters, kind, native, isAbstract, returnsVoid, calls, writes, reads,
    constructs] ← json.record? fieldNames | none
  return {
    owner := ← Json.required? Json.toText? owner
    name := ← Json.required? Json.toText? name
    parameters := ← Json.optional? (Json.toList? Json.toText?) [] parameters
    kind := ← Json.optional? (Json.toChoice? UnitKind.names) .method kind
    native := ← Json.optional? Json.toBool? false native
    isAbstract := ← Json.optional? Json.toBool? false isAbstract
    returnsVoid := ← Json.optional? Json.toBool? false returnsVoid
    calls := ← Json.optional? (Json.toList? CallDecl.ofJson?) [] calls
    writes := ← Json.optional? (Json.toList? FieldRef.ofJson?) [] writes
    reads := ← Json.optional? (Json.toList? FieldRef.ofJson?) [] reads
    constructs := ← Json.optional? (Json.toList? Json.toText?) [] constructs }

end UnitDecl

namespace Graph

/-- The document of a graph. -/
def toJson (g : Graph) : Json :=
  .fields
    [("types", .array (g.types.map TypeDecl.toJson)),
     ("units", .array (g.units.map UnitDecl.toJson))]

/-- The graph of a document. -/
def ofJson? (json : Json) : Option Graph := do
  let [types, units] ← json.record? ["types", "units"] | none
  return {
    types := ← Json.optional? (Json.toList? TypeDecl.ofJson?) [] types
    units := ← Json.optional? (Json.toList? UnitDecl.ofJson?) [] units }

/-- The graph of a document as text. -/
def parse? (document : String) : Option Graph := do
  let json ← Json.parse? document
  ofJson? json

/-- The graph of a document as text, or what is wrong with the text. -/
def parse (document : String) : Except Error Graph :=
  match Json.parse? document with
  | none => .error (.document "the text is not a JSON value")
  | some json =>
    match ofJson? json with
    | none => .error (.document "a field is missing or has a value of another kind")
    | some graph => .ok graph

theorem parse_eq_ok_iff (document : String) (g : Graph) :
    parse document = .ok g ↔ parse? document = some g := by
  unfold parse parse?
  cases Json.parse? document with
  | none => simp
  | some json =>
    rw [Option.bind_eq_bind, Option.bind_some]
    dsimp only
    cases ofJson? json with
    | none => simp
    | some graph => simp

/-- The document of a graph as text. -/
def render (g : Graph) : String :=
  String.ofList g.toJson.compact

end Graph

end CoreShell
