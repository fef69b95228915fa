import CoreShell.Proofs.Edits
import CoreShell.Proofs.Evaluation
import Mathlib.Data.List.Nodup
import Mathlib.Data.List.Perm.Basic

/-!
# Exact Overriders

Freezing a program enters every unit with a body under all proper supertypes of its
owner, and a unit without one looks up what was entered under its own owner. For the
look-up to be exact, the search for supertypes must neither miss a type nor find one
twice: a unit that is entered twice under one signature would be listed twice.

The search also has to end, whatever shape the hierarchy has. It takes one step for
every node that it takes from its stack. What goes onto the stack are edges, and the
edges that go out from a node go there once, when the node is seen. So the edges that
are left pay for the steps, and the search ends within as many steps as there are
edges in the graph.

## Main definitions

* `Digraph.edgesLeft`: The edges that may still go onto the stack.
* `Program.overrides`: Whether a unit overrides another.
* `Program.links`: The links between types and their direct supertypes.

## Theorems

* `walkWithin_eq_some`: A search with enough steps comes to its end.
* `registryEntries_find`: A unit is entered once under what it overrides.
* `overridersOf_eq`: Overriders are found in the order of all units.
* `ancestors_within`: The search for supertypes ends.
* `registry_exact`: The overriders and the supertypes after any history.
-/

namespace CoreShell

namespace Digraph

/-- The edges that go out from nodes a search has not seen. -/
def edgesLeft (g : Digraph) (seen : List Nat) : List Nat :=
  ((List.range g.edges.size).filter (· ∉ seen)).flatMap g.successors

/-- Seeing a node uses up the edges that go out from it. -/
theorem edgesLeft_cons (g : Digraph) {seen : List Nat} {node : Nat} (hseen : node ∉ seen) :
    (g.successors node).length + (g.edgesLeft (node :: seen)).length =
      (g.edgesLeft seen).length := by
  have hnodup : ((List.range g.edges.size).filter (· ∉ seen)).Nodup := List.nodup_range.filter _
  have hsplit : (List.range g.edges.size).filter (· ∉ node :: seen) =
      ((List.range g.edges.size).filter (· ∉ seen)).erase node := by
    rw [hnodup.erase_eq_filter, List.filter_filter]
    refine List.filter_congr fun x _ => ?_
    by_cases hx : x = node <;> simp [hx]
  rw [edgesLeft, edgesLeft, hsplit]
  by_cases hsize : node < g.edges.size
  · have hmem : node ∈ (List.range g.edges.size).filter (· ∉ seen) := by simp [hsize, hseen]
    have hperm := (List.perm_cons_erase hmem).flatMap_right g.successors
    rw [hperm.length_eq, List.flatMap_cons, List.length_append]
  · have hnot : node ∉ (List.range g.edges.size).filter (· ∉ seen) := by simp [hsize]
    rw [g.successors_of_le node (Nat.le_of_not_lt hsize), List.erase_of_not_mem hnot,
      List.length_nil, Nat.zero_add]

/-- A search that is allowed a step for every node on its stack and for every edge
    that is left comes to its end. -/
theorem walkWithin_eq_some (g : Digraph) {n : Nat} {seen stack : List Nat}
    (h : stack.length + (g.edgesLeft seen).length ≤ n) :
    g.walkWithin n seen stack = some (g.walk seen stack) := by
  induction n generalizing seen stack with
  | zero =>
      have hstack : stack = [] := List.eq_nil_of_length_eq_zero (by omega)
      rw [hstack, walkWithin, walk]
  | succ n ih =>
      cases stack with
      | nil => rw [walkWithin, walk]
      | cons node rest =>
          rw [List.length_cons] at h
          rw [walkWithin, walk]
          by_cases hseen : node ∈ seen
          · rw [if_pos hseen, if_pos hseen]
            exact ih (by omega)
          · -- The edges that go onto the stack are no longer left.
            have hedges := g.edgesLeft_cons hseen
            rw [if_neg hseen, if_neg hseen, ih, Option.map_some]
            rw [List.length_append, List.length_reverse]
            omega

/-- At the start all edges of the graph are left. -/
theorem edgesLeft_nil (g : Digraph) : g.edgesLeft [] = g.edges.toList.flatten := by
  have hedges : (List.range g.edges.size).map g.successors = g.edges.toList := by
    refine List.ext_getElem (by simp) fun i hi _ => ?_
    rw [List.length_map, List.length_range] at hi
    simp [successors, hi]
  rw [edgesLeft, List.filter_eq_self.2 (by simp), List.flatMap_def, hedges]

/-- A search from the successors of a node takes no more steps than there are
    edges. -/
theorem after_within (g : Digraph) (node : Nat) :
    g.walkWithin (g.edgesLeft []).length [node] (g.successors node).reverse =
      some (g.after [node] node) := by
  refine walkWithin_eq_some g ?_
  have hedges := g.edgesLeft_cons (List.not_mem_nil (a := node))
  rw [List.length_reverse]
  omega

end Digraph

namespace Program

theorem ancestors_nodup (p : Program) (a : TypeId) : (p.ancestors a).Nodup :=
  p.hierarchy.walk_nodup _ _

/-- The first unit has a body that calls of the second may end up in. -/
def overrides (p : Program) (v u : CodeUnit) : Bool :=
  p.isConcrete v && decide (u.owner ∈ p.ancestors v.owner) &&
    decide (v.name = u.name ∧ v.parameters = u.parameters)

/-- A unit is entered once under the signature of a unit that it overrides, and not
    at all under any other. -/
theorem registryEntries_find (p : Program) (v u : CodeUnit) :
    ((p.registryEntries v).filter fun entry => entry.1 = u.signature).map (·.2) =
      if p.overrides v u then [v.id] else [] := by
  rw [registryEntries, overrides]
  by_cases hv : p.isConcrete v = true
  · rw [if_pos hv, List.filter_map, List.map_map, hv, Bool.true_and]
    have hentry : ∀ a : TypeId, ({ v.signature with owner := a } : Signature) = u.signature ↔
        a = u.owner ∧ v.name = u.name ∧ v.parameters = u.parameters := by
      intro a
      simp [CodeUnit.signature]
    by_cases hsame : v.name = u.name ∧ v.parameters = u.parameters
    · -- The owner of `u` is found among the supertypes once or not at all.
      have hfilter : (p.ancestors v.owner).filter ((fun entry => decide (entry.1 = u.signature)) ∘
          fun a => (({ v.signature with owner := a } : Signature), v.id)) =
          (p.ancestors v.owner).filter (· = u.owner) := by
        refine List.filter_congr fun a _ => ?_
        simp [hentry, hsame]
      rw [hfilter, List.filter_eq, (p.ancestors_nodup v.owner).count]
      by_cases hmem : u.owner ∈ p.ancestors v.owner <;> simp [hmem, hsame]
    · have hfilter : (p.ancestors v.owner).filter ((fun entry => decide (entry.1 = u.signature)) ∘
          fun a => (({ v.signature with owner := a } : Signature), v.id)) = [] := by
        refine List.filter_eq_nil_iff.2 fun a _ => ?_
        simp [hentry, hsame]
      rw [hfilter]
      simp [hsame]
  · simp [hv]

section Overriders

variable {p : Program} (hp : p.WellFormed) (hindex : p.Indexed)

include hindex in
/-- The overriders of a unit are found in the order of all units. -/
theorem overridersOf_eq (u : CodeUnit) :
    p.overridersOf u = (p.units.toList.filter fun v => p.overrides v u).map CodeUnit.id := by
  have hfind : p.overridersOf u = ((p.units.toList.flatMap p.registryEntries).filter fun entry =>
      entry.1 = u.signature).map (·.2) := by
    rw [overridersOf, hindex]
    rfl
  rw [hfind, List.filter_flatMap, List.map_flatMap]
  simp only [registryEntries_find]
  induction p.units.toList with
  | nil => rfl
  | cons v rest ih =>
      rw [List.flatMap_cons, ih, List.filter_cons]
      by_cases hv : p.overrides v u = true <;> simp [hv]

include hp in
/-- Units stand in the order of their positions. -/
theorem units_pairwise : (p.units.toList.map CodeUnit.id).Pairwise (· < ·) := by
  have hids : p.units.toList.map CodeUnit.id = List.range p.units.size := by
    refine List.ext_getElem? fun i => ?_
    rw [List.getElem?_map, Array.getElem?_toList]
    rcases hu : p.units[i]? with _ | u
    · rw [List.getElem?_eq_none (by simpa using hu), Option.map_none]
    · rw [List.getElem?_range (lt_size_of_getElem? hu), Option.map_some, hp.unit_id i u hu]
  rw [hids]
  exact List.pairwise_lt_range

include hp hindex in
theorem overridersOf_pairwise (u : CodeUnit) : (p.overridersOf u).Pairwise (· < ·) := by
  rw [overridersOf_eq hindex]
  exact (units_pairwise hp).sublist (List.filter_sublist.map CodeUnit.id)

end Overriders

/-- A proper supertype is reached by one or more links. -/
theorem below_iff (p : Program) (a b : TypeId) :
    p.Below a b ↔ b ≠ a ∧ Relation.TransGen p.Extends a b := by
  rw [Below, Relation.reflTransGen_iff_eq_or_transGen]
  tauto

/-- The links between types and their direct supertypes. -/
def links (p : Program) : List TypeId :=
  p.types.toList.flatMap TypeInfo.supertypes

/-- The search for supertypes takes no more steps than there are links. -/
theorem ancestors_within (p : Program) (a : TypeId) :
    p.hierarchy.walkWithin p.links.length [a] (p.hierarchy.successors a).reverse =
      some (p.ancestors a) := by
  have hlinks : p.links = p.hierarchy.edgesLeft [] := by
    rw [Digraph.edgesLeft_nil, links, hierarchy, Array.toList_map, List.flatMap_def]
  rw [hlinks]
  exact p.hierarchy.after_within a

/-- The registry is exact. Take a program through any history of declarations and
    freezes, and freeze it. Its types may extend each other in any way, in cycles, to
    themselves and repeatedly. Then the overriders of a unit are listed in ascending
    order, and they are the units, submitted or not, that are no constructors, not
    abstract and not owned by an interface, that have the same name and the same
    parameters, and whose owner is another type and reaches the owner of the unit by one
    or more links to direct supertypes. And the search for the supertypes of a type ends
    within as many steps as there are links, and lists every type that is reached from
    it, other than itself, once. -/
theorem registry_exact (edits : List Edit) :
    let p := (({} : Program).editAll edits).freeze
    (∀ u : CodeUnit, (p.overridersOf u).Pairwise (· < ·) ∧
      ∀ j, j ∈ p.overridersOf u ↔ ∃ v, p.units[j]? = some v ∧ v.isConstructor = false ∧
        v.isAbstract = false ∧ p.dispatchOf v.owner ≠ .interface ∧ v.name = u.name ∧
        v.parameters = u.parameters ∧ v.owner ≠ u.owner ∧
        Relation.TransGen p.Extends v.owner u.owner) ∧
    ∀ a : TypeId,
      p.hierarchy.walkWithin p.links.length [a] (p.hierarchy.successors a).reverse =
        some (p.ancestors a) ∧
      (p.ancestors a).Nodup ∧
      ∀ b, b ∈ p.ancestors a ↔ b ≠ a ∧ Relation.TransGen p.Extends a b := by
  have hmade := editAll_madeFrom edits
  have hindex := freeze_indexed_of_current hmade.indexed
  have hp := freeze_wellFormed hmade.wellFormed
  intro p
  refine ⟨fun u => ⟨overridersOf_pairwise hp hindex u, fun j => ?_⟩, fun a =>
    ⟨p.ancestors_within a, p.ancestors_nodup a, fun b => ?_⟩⟩
  · rw [mem_overridersOf hp hindex]
    refine exists_congr fun v => and_congr_right fun _ => ?_
    rw [below_iff, isConcrete]
    simp only [Bool.and_eq_true, Bool.not_eq_true', decide_eq_true_eq, ne_eq,
      eq_comm (a := u.owner)]
    tauto
  · rw [mem_ancestors, below_iff]

end Program

end CoreShell
