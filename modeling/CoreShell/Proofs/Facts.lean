import CoreShell.Proofs.Reachability
import CoreShell.Proofs.WellFormed

/-!
# What the Index Says

Writers and overriders are looked up in an index that freezing a program makes
from its declarations. Read off the declarations directly, the writers of a
field are the submitted units that list it, and the overriders of a unit are
the units with a body, the same name and the same parameters whose owner has
the owner of the unit among its proper supertypes.

## Main definitions

* `Program.Indexed`: The index says what the declarations say.
* `Program.Below`: A type has another one among its proper supertypes.

## Theorems

* `freeze_indexed`: Freezing brings the index up to date.
* `mem_writersOf`: Who writes a field.
* `mem_overridersOf`: Who overrides a unit.
-/

namespace CoreShell

open Relation (ReflTransGen)

namespace Program

/-- The index says what the declarations say. -/
def Indexed (p : Program) : Prop :=
  p.index = p.buildIndex

theorem freeze_indexed {p : Program} (h : p.frozen = false) : p.freeze.Indexed := by
  rw [Indexed, freeze, if_neg (by simp [h])]
  rfl

/-- The second type is a direct supertype of the first. -/
def Extends (p : Program) (a b : TypeId) : Prop :=
  ∃ t, p.types[a]? = some t ∧ b ∈ t.supertypes

/-- The second type is a proper supertype of the first. -/
def Below (p : Program) (a b : TypeId) : Prop :=
  b ≠ a ∧ ReflTransGen p.Extends a b

theorem edge_iff (p : Program) (a b : TypeId) : p.hierarchy.Edge a b ↔ p.Extends a b := by
  rw [Digraph.Edge, Digraph.successors, hierarchy, Array.getD_eq_getD_getElem?, Array.getElem?_map,
    Extends]
  rcases h : p.types[a]? with _ | t <;> simp

theorem mem_ancestors (p : Program) (a b : TypeId) : b ∈ p.ancestors a ↔ p.Below a b := by
  have hedge : p.hierarchy.Edge = p.Extends := by
    funext x y
    exact propext (p.edge_iff x y)
  rw [ancestors, Digraph.mem_after_self_iff, hedge, Below]

theorem mem_registryEntries (p : Program) (u : CodeUnit) (entry : Signature × UnitId) :
    entry ∈ p.registryEntries u ↔ p.isConcrete u = true ∧ ∃ a, p.Below u.owner a ∧
      entry = ({ u.signature with owner := a }, u.id) := by
  rw [registryEntries]
  by_cases hu : p.isConcrete u = true
  · rw [if_pos hu, List.mem_map, and_iff_right hu]
    refine exists_congr fun a => ?_
    rw [mem_ancestors, eq_comm]
  · simp [hu]

theorem writersOf_eq {p : Program} (hindex : p.Indexed) {f : FieldId} (hf : f < p.fields.size) :
    p.writersOf f = p.currentWriters f := by
  rw [writersOf, hindex, buildIndex]
  simp [hf]

section Index

variable {p : Program} (hp : p.WellFormed) (hindex : p.Indexed)
include hp hindex

/-- The writers of a field are the submitted units that list it. -/
theorem mem_writersOf {f : FieldId} (hf : f < p.fields.size) (id : UnitId) :
    id ∈ p.writersOf f ↔ ∃ u, p.units[id]? = some u ∧ u.submitted = true ∧ f ∈ u.writes := by
  rw [writersOf_eq hindex hf, currentWriters]
  simp only [List.mem_map, List.mem_filter, Bool.and_eq_true, decide_eq_true_eq, hp.mem_units]
  constructor
  · rintro ⟨u, ⟨hu, hsub, hwrites⟩, rfl⟩
    exact ⟨u, hu, hsub, hwrites⟩
  · rintro ⟨u, hu, hsub, hwrites⟩
    have hid := hp.unit_id id u hu
    exact ⟨u, ⟨by rw [hid]; exact hu, hsub, hwrites⟩, hid⟩

/-- No unit counts twice among the writers of a field. -/
theorem writersOf_nodup {f : FieldId} (hf : f < p.fields.size) : (p.writersOf f).Nodup := by
  -- Units stand at their own positions, so their positions are keys, too.
  have hids : Distinct CodeUnit.id p.units := by
    intro i j u v hu hv heq
    rw [← hp.unit_id i u hu, ← hp.unit_id j v hv, heq]
  rw [writersOf_eq hindex hf, currentWriters]
  exact (distinct_nodup hids).sublist (List.filter_sublist.map CodeUnit.id)

/-- The overriders of a unit are the units with a body and the same signature
    further down. -/
theorem mem_overridersOf (u : CodeUnit) (id : UnitId) :
    id ∈ p.overridersOf u ↔ ∃ v, p.units[id]? = some v ∧ p.isConcrete v = true ∧
      p.Below v.owner u.owner ∧ v.name = u.name ∧ v.parameters = u.parameters := by
  -- The registry has an entry for every proper supertype of an owner. The one for
  -- the owner of `u` is the one that is found.
  have hfind : p.overridersOf u = ((p.units.toList.flatMap p.registryEntries).filter fun entry =>
      entry.1 = u.signature).map (·.2) := by
    rw [overridersOf, hindex]
    rfl
  rw [hfind]
  simp only [List.mem_map, List.mem_filter, List.mem_flatMap, decide_eq_true_eq, hp.mem_units,
    mem_registryEntries]
  constructor
  · rintro ⟨_, ⟨⟨v, hv, hconcrete, a, hbelow, rfl⟩, hsig⟩, rfl⟩
    simp only [CodeUnit.signature, Signature.mk.injEq] at hsig
    rcases hsig with ⟨rfl, hname, hparams⟩
    exact ⟨v, hv, hconcrete, hbelow, hname, hparams⟩
  · rintro ⟨v, hv, hconcrete, hbelow, hname, hparams⟩
    have hid := hp.unit_id id v hv
    refine ⟨_, ⟨⟨v, by rw [hid]; exact hv, hconcrete, u.owner, hbelow, rfl⟩, ?_⟩, hid⟩
    simp only [CodeUnit.signature, hname, hparams]

end Index

end Program

end CoreShell
