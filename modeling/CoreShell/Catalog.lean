import CoreShell.Grade
import CoreShell.Text.Pieces

/-!
# Catalogues

A catalogue lists beginnings of qualified names whose grade is known without
looking at any code. A name may match several entries; the best grade wins,
so a single strict entry outweighs any number of others.

Each list holds an entry once, however often it is added, so the size of a
catalogue counts distinct entries per grade.

## Main definitions

* `Catalog`: Three lists of beginnings, one per final grade.
* `Catalog.withStrict`, `Catalog.withDomain`, `Catalog.withNot`: More
  entries of one grade.
* `Catalog.lookup`: The grade of a qualified name.
* `Catalog.size`: The number of entries.
-/

namespace CoreShell

/-- Beginnings of qualified names with a known grade. -/
structure Catalog where
  /-- Beginnings graded `Grade.strict`. -/
  strict : List String := []
  /-- Beginnings graded `Grade.domain`. -/
  domain : List String := []
  /-- Beginnings graded `Grade.not`. -/
  not : List String := []
deriving DecidableEq, Inhabited

namespace Catalog

/-- The entries of a list together with further ones, each once and in the
    order of first mention. -/
def extend (entries more : List String) : List String :=
  more.foldl (fun known entry => if entry ∈ known then known else known ++ [entry]) entries

/-- The catalogue with further strict entries. -/
def withStrict (c : Catalog) (more : List String) : Catalog :=
  { c with strict := extend c.strict more }

/-- The catalogue with further domain entries. -/
def withDomain (c : Catalog) (more : List String) : Catalog :=
  { c with domain := extend c.domain more }

/-- The catalogue with further rejecting entries. -/
def withNot (c : Catalog) (more : List String) : Catalog :=
  { c with not := extend c.not more }

/-- The best grade among the entries a qualified name begins with. -/
def lookup (c : Catalog) (qualified : String) : Option Grade :=
  if Text.startsWithAny c.strict qualified then some .strict
  else if Text.startsWithAny c.domain qualified then some .domain
  else if Text.startsWithAny c.not qualified then some .not
  else none

/-- The number of entries. -/
def size (c : Catalog) : Nat :=
  c.strict.length + c.domain.length + c.not.length

/-- Whether the catalogue has no entry at all. -/
def isEmpty (c : Catalog) : Bool :=
  c.strict.isEmpty && c.domain.isEmpty && c.not.isEmpty

end Catalog

/-- The catalogue entries a configuration asks for on one axis. -/
structure CatalogConfig where
  /-- Whether the standard catalogue of the axis is included. -/
  useStandard : Bool := true
  /-- Further strict entries. -/
  strict : List String := []
  /-- Further domain entries. -/
  domain : List String := []
  /-- Further rejecting entries. -/
  not : List String := []
deriving DecidableEq, Inhabited

namespace CatalogConfig

/-- All entries of a configuration, best grade first. -/
def entries (c : CatalogConfig) : List String :=
  c.strict ++ c.domain ++ c.not

/-- The catalogue of a configuration over a given standard one. -/
def toCatalog (c : CatalogConfig) (standard : Catalog) : Catalog :=
  let base : Catalog := if c.useStandard then standard else {}
  ((base.withStrict c.strict).withDomain c.domain).withNot c.not

end CatalogConfig

end CoreShell
