import CoreShell.Declaration
import Mathlib.Data.List.Nodup
import Mathlib.Data.List.Perm.Basic
import Mathlib.Tactic.Common

/-!
# Inventories

What a program knows, with names in place of positions. A position says in
which order names were first mentioned, and nothing a program stands for
depends on that order. An inventory forgets it: it maps every name to what was
declared under it, or to what the name alone tells if it was only mentioned.

Declaring has two parts. Every name in a declaration is mentioned, which adds
what is not there and leaves the rest alone, and then the declared name gets
its new record. Mentions commute with everything, and two records under
different names commute with each other. So declarations without a common
name can be made in any order, which is `declareAll_perm`.

## Main definitions

* `UnitRecord`: What is known of a unit.
* `Inventory`: What is known of every name.
* `Inventory.mention`: The inventory in which further names are known.
* `Inventory.Within`: One inventory knows what another one knows.
* `Inventory.declareType`, `Inventory.submit`: One more declaration.
* `Declaration`: A type, a unit or a whole graph.
* `Inventory.declareAll`: One declaration after another.

## Theorems

* `mention_mention`: Mentions add up.
* `mention_known`: Names that are known can be mentioned again.
* `mention_putUnit`, `mention_putType`: A mention commutes with a new record.
* `submit_comm`, `declareType_comm`, `declareType_submit_comm`: Declarations of
  different names commute.
* `declareAll_eq_foldl`: A list of declarations is a list of single ones.
* `declareAll_perm`: The order of declarations without a common name does not
  matter.
-/

namespace CoreShell

/-- What the name of a unit tells about it. -/
def UnitDecl.ofReference (qualified : String) : UnitDecl :=
  let owner := Name.ownerOf qualified
  let name := (Name.split qualified owner).1
  { owner, name, parameters := (Name.split qualified owner).2,
    kind := if name = Name.constructorName then .constructor else .method }

/-- The types a unit mentions by name, its own owner first. -/
def UnitDecl.mentionedTypes (d : UnitDecl) : List String :=
  d.owner :: (d.calls.flatMap (fun c => c.owner :: c.targets.map Name.ownerOf) ++
    (d.writes.map FieldRef.owner ++ (d.reads.map FieldRef.owner ++
      d.constructs.map Name.ownerOf)))

/-- The units a unit mentions by name, without itself. -/
def UnitDecl.mentionedUnits (d : UnitDecl) : List String :=
  d.calls.flatMap CallDecl.targets ++ d.constructs

/-- What is known of a unit. -/
structure UnitRecord where
  /-- What it was submitted as, or what its name tells. -/
  decl : UnitDecl
  submitted : Bool
deriving DecidableEq

/-- What is known of every name. -/
@[ext]
structure Inventory where
  units : String → Option UnitRecord
  types : String → Option TypeDecl

namespace Inventory

/-- The inventory in which the given names are known as well. -/
def mention (inv : Inventory) (types units : List String) : Inventory :=
  { units := fun n => (inv.units n).or
      (if n ∈ units then some { decl := UnitDecl.ofReference n, submitted := false } else none)
    types := fun n => (inv.types n).or (if n ∈ types then some { name := n } else none) }

/-- The inventory with a new record for a unit. -/
def putUnit (inv : Inventory) (n : String) (r : UnitRecord) : Inventory :=
  { inv with units := fun m => if m = n then some r else inv.units m }

/-- The inventory with a new declaration for a type. -/
def putType (inv : Inventory) (d : TypeDecl) : Inventory :=
  { inv with types := fun m => if m = d.name then some d else inv.types m }

/-- The inventory after a type was declared. -/
def declareType (inv : Inventory) (d : TypeDecl) : Inventory :=
  (inv.mention (d.name :: d.supertypes) []).putType d

/-- The inventory after a unit was submitted. -/
def submit (inv : Inventory) (d : UnitDecl) : Inventory :=
  (inv.mention d.mentionedTypes d.mentionedUnits).putUnit d.qualifiedName
    { decl := d, submitted := true }

theorem mention_nil (inv : Inventory) : inv.mention [] [] = inv := by
  ext n : 2 <;> simp [mention]

theorem mention_mention (inv : Inventory) (ts us ts' us' : List String) :
    (inv.mention ts us).mention ts' us' = inv.mention (ts ++ ts') (us ++ us') := by
  -- A name adds the same record whether it is mentioned first or later.
  ext n : 2
  · simp only [mention, Option.or_assoc, List.mem_append]
    congr 1
    by_cases h : n ∈ us <;> by_cases h' : n ∈ us' <;> simp [h, h']
  · simp only [mention, Option.or_assoc, List.mem_append]
    congr 1
    by_cases h : n ∈ ts <;> by_cases h' : n ∈ ts' <;> simp [h, h']

/-- Mentioning names that are known changes nothing. -/
theorem mention_known (inv : Inventory) {ts us : List String}
    (hts : ∀ n ∈ ts, (inv.types n).isSome) (hus : ∀ n ∈ us, (inv.units n).isSome) :
    inv.mention ts us = inv := by
  ext n : 2
  · by_cases hn : n ∈ us
    · rcases Option.isSome_iff_exists.1 (hus n hn) with ⟨r, hr⟩
      simp only [mention, hr, Option.some_or]
    · simp only [mention, if_neg hn, Option.or_none]
  · by_cases hn : n ∈ ts
    · rcases Option.isSome_iff_exists.1 (hts n hn) with ⟨d, hd⟩
      simp only [mention, hd, Option.some_or]
    · simp only [mention, if_neg hn, Option.or_none]

/-- Only which names are mentioned matters. -/
theorem mention_congr (inv : Inventory) {ts ts' us us' : List String}
    (ht : ∀ n, n ∈ ts ↔ n ∈ ts') (hu : ∀ n, n ∈ us ↔ n ∈ us') :
    inv.mention ts us = inv.mention ts' us' := by
  ext n : 2
  · simp only [mention, hu]
  · simp only [mention, ht]

theorem mention_comm (inv : Inventory) (ts us ts' us' : List String) :
    (inv.mention ts us).mention ts' us' = (inv.mention ts' us').mention ts us := by
  rw [mention_mention, mention_mention]
  apply mention_congr
  · intro n
    simp only [List.mem_append, or_comm]
  · intro n
    simp only [List.mem_append, or_comm]

/-- What the first inventory knows, the second one knows as well. -/
structure Within (inv inv' : Inventory) : Prop where
  units : ∀ n r, inv.units n = some r → inv'.units n = some r
  types : ∀ n d, inv.types n = some d → inv'.types n = some d

theorem Within.mention {inv inv' : Inventory} (h : inv.Within inv') (ts us : List String) :
    inv.Within (inv'.mention ts us) := by
  refine ⟨fun n r hr => ?_, fun n d hd => ?_⟩
  · simp only [Inventory.mention, h.units n r hr, Option.some_or]
  · simp only [Inventory.mention, h.types n d hd, Option.some_or]

theorem mention_putUnit (inv : Inventory) (n : String) (r : UnitRecord) (ts us : List String) :
    (inv.putUnit n r).mention ts us = (inv.mention ts us).putUnit n r := by
  ext m : 2
  · by_cases h : m = n
    · simp [mention, putUnit, h]
    · simp [mention, putUnit, h]
  · rfl

theorem mention_putType (inv : Inventory) (d : TypeDecl) (ts us : List String) :
    (inv.putType d).mention ts us = (inv.mention ts us).putType d := by
  ext m : 2
  · rfl
  · by_cases h : m = d.name
    · simp [mention, putType, h]
    · simp [mention, putType, h]

theorem putUnit_comm (inv : Inventory) {n n' : String} (r r' : UnitRecord) (h : n ≠ n') :
    (inv.putUnit n r).putUnit n' r' = (inv.putUnit n' r').putUnit n r := by
  ext m : 2
  · by_cases hn : m = n
    · have hn' : m ≠ n' := fun hc => h (hn.symm.trans hc)
      simp only [putUnit, if_pos hn, if_neg hn']
    · simp only [putUnit, if_neg hn]
  · rfl

theorem putType_comm (inv : Inventory) {d d' : TypeDecl} (h : d.name ≠ d'.name) :
    (inv.putType d).putType d' = (inv.putType d').putType d := by
  ext m : 2
  · rfl
  · by_cases hn : m = d.name
    · have hn' : m ≠ d'.name := fun hc => h (hn.symm.trans hc)
      simp only [putType, if_pos hn, if_neg hn']
    · simp only [putType, if_neg hn]

theorem submit_comm (inv : Inventory) {d d' : UnitDecl}
    (h : d.qualifiedName ≠ d'.qualifiedName) :
    (inv.submit d).submit d' = (inv.submit d').submit d := by
  simp only [submit, mention_putUnit]
  rw [putUnit_comm _ _ _ h, mention_comm]

theorem declareType_comm (inv : Inventory) {d d' : TypeDecl} (h : d.name ≠ d'.name) :
    (inv.declareType d).declareType d' = (inv.declareType d').declareType d := by
  simp only [declareType, mention_putType]
  rw [putType_comm _ h, mention_comm]

theorem declareType_submit_comm (inv : Inventory) (t : TypeDecl) (d : UnitDecl) :
    (inv.declareType t).submit d = (inv.submit d).declareType t := by
  simp only [declareType, submit, mention_putType, mention_putUnit]
  rw [mention_comm]
  -- What is left are the two records, one among the types and one among the units.
  rfl

end Inventory

/-- A step in which a program grows. -/
inductive Declaration where
  | type (decl : TypeDecl)
  | unit (decl : UnitDecl)
  /-- All types and then all units of a graph. -/
  | graph (graph : Graph)
deriving DecidableEq

namespace Declaration

/-- The types that are declared, in order. -/
def types : Declaration → List TypeDecl
  | type d => [d]
  | unit _ => []
  | graph g => g.types

/-- The units that are submitted, in order. -/
def units : Declaration → List UnitDecl
  | type _ => []
  | unit d => [d]
  | graph g => g.units

/-- The single declarations, types before units. -/
def items (d : Declaration) : List (TypeDecl ⊕ UnitDecl) :=
  d.types.map Sum.inl ++ d.units.map Sum.inr

end Declaration

namespace Inventory

/-- The inventory after a single declaration. -/
def declareItem (inv : Inventory) : TypeDecl ⊕ UnitDecl → Inventory
  | .inl d => inv.declareType d
  | .inr d => inv.submit d

/-- The inventory after a declaration. -/
def declare (inv : Inventory) (d : Declaration) : Inventory :=
  d.units.foldl submit (d.types.foldl declareType inv)

/-- The inventory after one declaration after another. -/
def declareAll (inv : Inventory) (ds : List Declaration) : Inventory :=
  ds.foldl declare inv

theorem declare_eq_foldl (inv : Inventory) (d : Declaration) :
    inv.declare d = d.items.foldl declareItem inv := by
  rw [Declaration.items, List.foldl_append, List.foldl_map, List.foldl_map]
  rfl

theorem declareAll_eq_foldl (inv : Inventory) (ds : List Declaration) :
    inv.declareAll ds = (ds.flatMap Declaration.items).foldl declareItem inv := by
  induction ds generalizing inv with
  | nil => rfl
  | cons d rest ih =>
      rw [List.flatMap_cons, List.foldl_append, ← declare_eq_foldl]
      exact ih (inv.declare d)

theorem mem_items_inl {ds : List Declaration} {t : TypeDecl}
    (h : Sum.inl t ∈ ds.flatMap Declaration.items) : t ∈ ds.flatMap Declaration.types := by
  rcases List.mem_flatMap.1 h with ⟨d, hd, ht⟩
  rw [Declaration.items] at ht
  exact List.mem_flatMap.2 ⟨d, hd, by simpa using ht⟩

theorem mem_items_inr {ds : List Declaration} {u : UnitDecl}
    (h : Sum.inr u ∈ ds.flatMap Declaration.items) : u ∈ ds.flatMap Declaration.units := by
  rcases List.mem_flatMap.1 h with ⟨d, hd, hu⟩
  rw [Declaration.items] at hu
  exact List.mem_flatMap.2 ⟨d, hd, by simpa using hu⟩

/-- Declarations without a common name can be made in any order. -/
theorem declareAll_perm (inv : Inventory) {ds ds' : List Declaration} (hperm : ds.Perm ds')
    (htypes : ((ds.flatMap Declaration.types).map TypeDecl.name).Nodup)
    (hunits : ((ds.flatMap Declaration.units).map UnitDecl.qualifiedName).Nodup) :
    inv.declareAll ds = inv.declareAll ds' := by
  rw [declareAll_eq_foldl, declareAll_eq_foldl]
  -- A fold over a permuted list is the same if any two of its steps commute.
  refine (hperm.flatMap_right _).foldl_eq' ?_ inv
  rintro (t | u) hx (t' | u') hy z
  · -- Two types: under one name they are the same declaration.
    by_cases h : t.name = t'.name
    · rw [List.inj_on_of_nodup_map htypes (mem_items_inl hx) (mem_items_inl hy) h]
    · exact declareType_comm z h
  · exact declareType_submit_comm z t u'
  · exact (declareType_submit_comm z t' u).symm
  · -- Two units, likewise.
    by_cases h : u.qualifiedName = u'.qualifiedName
    · rw [List.inj_on_of_nodup_map hunits (mem_items_inr hx) (mem_items_inr hy) h]
    · exact submit_comm z h

end Inventory

end CoreShell
