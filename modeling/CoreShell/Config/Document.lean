import CoreShell.Config.Basic
import CoreShell.Toml.Reader

/-!
# Configuration Documents

A configuration as a document with three tables: the architecture and one
catalogue per axis. Every key is optional, and keys that are not known are
ignored as long as their values can be read.

A table may also be written as an array of its values in order, of which any
number may be missing at the end, and surplus ones do not matter. A date in
place of a table counts as a table without known keys.

## Main definitions

* `Toml.record?`: The values of a table by its keys.
* `Config.ofToml?`: The configuration of a document.
* `Config.parse`: The configuration of a text, checked.
-/

namespace CoreShell

namespace Toml

/-- The values of a table with the given keys, each present or absent. -/
def record? (keys : List String) : Toml → Option (List (Option Toml))
  | .table _ entries =>
    if entries.all fun entry => decide (entry.1 ∈ keys) || entry.2.isReadable then
      some (keys.map fun key => entries.lookup key)
    else none
  | .array _ items =>
    some (keys.zipIdx.map fun key => items[key.2]?)
  | .moment => some (keys.map fun _ => none)
  | _ => none

/-- A text. -/
def toText? : Toml → Option String
  | .text s => some s
  | _ => none

/-- A truth value. -/
def toBool? : Toml → Option Bool
  | .boolean b => some b
  | _ => none

/-- A number from zero up to the largest of 64 bits. -/
def toCount? : Toml → Option Nat
  | .integer n => if 0 ≤ n ∧ n < Int.pow 2 64 then some n.toNat else none
  | _ => none

/-- A list of texts. -/
def toTexts? : Toml → Option (List String)
  | .array _ items => items.mapM toText?
  | _ => none

/-- A value that may be missing. -/
def optional? {α : Type} (read? : Toml → Option α) (fallback : α) : Option Toml → Option α
  | some value => read? value
  | none => some fallback

end Toml

/-- The catalogue configuration of a table. -/
def CatalogConfig.ofToml? (toml : Toml) : Option CatalogConfig := do
  let [useStandard, strict, domain, not] ←
    toml.record? ["use_standard", "strict", "domain", "not"] | none
  return {
    useStandard := ← Toml.optional? Toml.toBool? true useStandard
    strict := ← Toml.optional? Toml.toTexts? [] strict
    domain := ← Toml.optional? Toml.toTexts? [] domain
    not := ← Toml.optional? Toml.toTexts? [] not }

namespace Config

/-- The settings in an architecture table, with empty catalogues. -/
def ofArchitecture? (toml : Toml) : Option Config := do
  let [core, shell, reportScope, checkDeterminism, maxRounds] ←
    toml.record? ["core", "shell", "report_scope", "check_determinism", "max_rounds"] | none
  return {
    core := ← Toml.optional? Toml.toTexts? [] core
    shell := ← Toml.optional? Toml.toTexts? [] shell
    reportScope := ← Toml.optional? (fun t => (Toml.toTexts? t).map some) none reportScope
    checkDeterminism := ← Toml.optional? Toml.toBool? true checkDeterminism
    maxRounds := ← Toml.optional? (fun t => (Toml.toCount? t).map some) none maxRounds }

/-- The configuration of a document. -/
def ofToml? (toml : Toml) : Option Config := do
  let [architecture, purity, determinism] ←
    toml.record? ["architecture", "purity", "determinism"] | none
  let settings ← Toml.optional? ofArchitecture? {} architecture
  return { settings with
    purity := ← Toml.optional? CatalogConfig.ofToml? {} purity
    determinism := ← Toml.optional? CatalogConfig.ofToml? {} determinism }

/-- The configuration of a text, if it has the right form and no fault. -/
def parse (text : String) : Except ConfigFault Config :=
  match Toml.parse? text with
  | none => .error (.malformed "the text is not a table of keys and values")
  | some toml =>
    match ofToml? toml with
    | none => .error (.malformed "a key has a value of another kind")
    | some config => config.validate

end Config

end CoreShell
