/-!
# Configuration Values

The values of the TOML configuration format. Tables and arrays remember how
they came about, because the format forbids to touch some of them again: a
table under its own header or between braces is complete, while one that only
lies on the way to another, or that dotted keys made, may still grow.

A number is told by its outline when a document is read, and what it stands
for only matters to those who look at it. So there are numbers that stand for
none: integers beyond 128 bits, without any digit or with a letter among their
digits, and floating-point numbers beyond the range of doubles. A document may
hold them wherever nobody looks; `Toml.isReadable` tells.

## Main definitions

* `TomlOrigin`: How a table came about.
* `Toml`: The values.
* `Toml.ofInteger`: The value of an integer.
* `Toml.isReadable`: Whether every number in a value stands for one.
-/

namespace CoreShell

/-- How a table came about. -/
inductive TomlOrigin where
  /-- It has a header of its own, or is the document itself. -/
  | header
  /-- It lies on the path of a header. -/
  | implied
  /-- Dotted keys made it. -/
  | dotted
  /-- It stands between braces. -/
  | braces
deriving DecidableEq, Inhabited

/-- A value of the configuration format. -/
inductive Toml where
  | text (value : String)
  /-- An integer of up to 128 bits. -/
  | integer (value : Int)
  /-- A floating-point number, whose value does not matter. -/
  | float
  /-- Something with the outline of a number that stands for none. -/
  | unreadable
  | boolean (value : Bool)
  /-- A date, a time, or both. -/
  | moment
  /-- An array, and whether headers of its items made it. -/
  | array (ofHeaders : Bool) (items : List Toml)
  | table (origin : TomlOrigin) (entries : List (String × Toml))
deriving Inhabited

namespace Toml

/-- Whether an integer fits into 128 bits, signed or unsigned. -/
def fits (n : Int) : Bool :=
  -Int.pow 2 127 ≤ n && n < Int.pow 2 128

/-- The value of an integer, if there is one. -/
def ofInteger : Option Int → Toml
  | some n => if fits n then .integer n else .unreadable
  | none => .unreadable

mutual

/-- Whether every number in a value stands for one. -/
def isReadable : Toml → Bool
  | .unreadable => false
  | .array _ items => areReadable items
  | .table _ entries => entriesReadable entries
  | .text _ | .integer _ | .float | .boolean _ | .moment => true

/-- Whether every number in several values stands for one. -/
def areReadable : List Toml → Bool
  | [] => true
  | item :: rest => isReadable item && areReadable rest

/-- Whether every number in the entries of a table stands for one. -/
def entriesReadable : List (String × Toml) → Bool
  | [] => true
  | (_, value) :: rest => isReadable value && entriesReadable rest

end

end Toml

end CoreShell
