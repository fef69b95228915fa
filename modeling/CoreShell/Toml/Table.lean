import CoreShell.Toml.Basic

/-!
# Growing Tables

A document is a list of statements, and each of them adds to the tables that
are already there. A header opens a table, a doubled header appends an item to
an array of tables, and a key with a value goes into the table that was opened
last.

Nothing may be said twice. A header opens only what is new or was implied by
a longer header. Dotted keys go only through tables that are implied or that
other dotted keys made, and end only in the latter. Braces close a table for
good, and an array in brackets never grows.

## Main definitions

* `TomlTable`: A table that is being built.
* `TomlTable.put?`: A value under a path of dotted keys.
* `TomlTable.openTable?`: A table under a header.
* `TomlTable.openItem?`: An item under a doubled header.
-/

namespace CoreShell

/-- A table that is being built. -/
structure TomlTable where
  origin : TomlOrigin
  entries : List (String × Toml) := []
deriving Inhabited

namespace TomlTable

/-- The value of a key. -/
def get? (t : TomlTable) (key : String) : Option Toml :=
  t.entries.lookup key

/-- The table with a new value for a key, at the place of the old one or at
    the end. -/
def set (t : TomlTable) (key : String) (value : Toml) : TomlTable :=
  if t.entries.any (·.1 = key) then
    { t with entries := t.entries.map fun e => if e.1 = key then (key, value) else e }
  else
    { t with entries := t.entries ++ [(key, value)] }

/-- The table as a value. -/
def toToml (t : TomlTable) : Toml :=
  .table t.origin t.entries

/-- The table with a value changed in the last item of an array of tables. -/
def changeLast? (change? : TomlTable → Option TomlTable) (items : List Toml) : Option Toml :=
  match items.getLast? with
  | some (.table origin entries) => do
    let changed ← change? { origin, entries }
    return .array true (items.dropLast ++ [changed.toToml])
  | _ => none

/-- The table with a value under dotted keys. `nested` says whether this table
    was itself reached by a dotted key. -/
def put? (nested : Bool) : (path : List String) → (value : Toml) → TomlTable → Option TomlTable
  | [], _, _ => none
  | [key], value, t =>
    if (t.origin = .dotted) ≠ (nested = true) then none
    else if (t.get? key).isSome then none
    else some (t.set key value)
  | key :: rest, value, t =>
    match t.get? key with
    | none => (put? true rest value { origin := .dotted }).map fun inner => t.set key inner.toToml
    | some (.table origin entries) =>
      if origin = .implied ∨ origin = .dotted then
        (put? true rest value { origin, entries }).map fun inner => t.set key inner.toToml
      else none
    | some (.array true items) => (changeLast? (put? true rest value) items).map (t.set key)
    | some _ => none

/-- The table with a change at the end of a header's path. Tables on the way
    that are not there yet are implied; of an array of tables the last item is
    meant. -/
def within? (change? : TomlTable → Option TomlTable) :
    (path : List String) → TomlTable → Option TomlTable
  | [], t => change? t
  | key :: rest, t =>
    match t.get? key with
    | none =>
      (within? change? rest { origin := .implied }).map fun inner => t.set key inner.toToml
    | some (.table origin entries) =>
      if origin = .braces then none
      else (within? change? rest { origin, entries }).map fun inner => t.set key inner.toToml
    | some (.array true items) => (changeLast? (within? change? rest) items).map (t.set key)
    | some _ => none

/-- The table with a table of its own under a key. -/
def openKey? (key : String) (t : TomlTable) : Option TomlTable :=
  match t.get? key with
  | none => some (t.set key (.table .header []))
  | some (.table .implied entries) => some (t.set key (.table .header entries))
  | some _ => none

/-- The table with one more item in the array of tables under a key. -/
def appendKey? (key : String) (t : TomlTable) : Option TomlTable :=
  match t.get? key with
  | none => some (t.set key (.array true [.table .header []]))
  | some (.array true items) => some (t.set key (.array true (items ++ [.table .header []])))
  | some _ => none

/-- The document with the table of a header. -/
def openTable? (path : List String) (t : TomlTable) : Option TomlTable := do
  let key ← path.getLast?
  within? (openKey? key) path.dropLast t

/-- The document with the item of a doubled header. -/
def openItem? (path : List String) (t : TomlTable) : Option TomlTable := do
  let key ← path.getLast?
  within? (appendKey? key) path.dropLast t

end TomlTable

end CoreShell
