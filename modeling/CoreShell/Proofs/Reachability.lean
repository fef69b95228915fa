import CoreShell.Program.Cycle
import Mathlib.Logic.Relation
import Mathlib.Tactic.Common

/-!
# Depth-First Search

What a search finds is what can be reached. Both halves go by the recursion of
the search itself. Everything found is reached from the stack, since only
successors of found nodes are ever added to it. And the nodes that were seen or
found are closed under successors at the end, though not on the way, so every
path that starts among them stays among them.

The graph to be searched is that of calls. A unit lies on a cycle if calls lead
from it back to it.

## Main definitions

* `Digraph.Edge`: An edge of a graph.
* `Program.Calls`: A call by positions.

## Theorems

* `exists_reaches_of_mem_walk`: What is found is reached from the stack.
* `not_mem_seen_of_mem_walk`: What was seen before is not found again.
* `walk_nodup`: No node is found twice.
* `mem_walk_of_mem_stack`: The stack is seen or found.
* `mem_walk_of_edge`: The successors of what is found are seen or found.
* `mem_after_self_iff`: A search without its start finds everything else that
  the start reaches.
* `mem_after_iff`: A search that has seen nothing finds everything that one or more
  edges lead to.
* `Program.liesOnCycle_iff`: When a unit lies on a call cycle.
-/

namespace CoreShell

namespace Digraph

open Relation

/-- There is an edge from `a` to `b`. -/
def Edge (g : Digraph) (a b : Nat) : Prop :=
  b ∈ g.successors a

theorem exists_reaches_of_mem_walk (g : Digraph) (seen stack : List Nat) (x : Nat)
    (h : x ∈ g.walk seen stack) : ∃ y ∈ stack, ReflTransGen g.Edge y x := by
  induction seen, stack using walk.induct g with
  | case1 seen =>
      rw [walk] at h
      exact absurd h (by simp only [List.not_mem_nil, not_false_eq_true])
  | case2 seen node rest hseen ih =>
      rw [walk, if_pos hseen] at h
      rcases ih h with ⟨y, hy, hpath⟩
      exact ⟨y, List.mem_cons_of_mem node hy, hpath⟩
  | case3 seen node rest hseen ih =>
      rw [walk, if_neg hseen] at h
      rcases List.mem_cons.1 h with rfl | h
      · exact ⟨x, List.mem_cons_self, ReflTransGen.refl⟩
      · rcases ih h with ⟨y, hy, hpath⟩
        -- A successor of the node was reached from the node before.
        rcases List.mem_append.1 hy with hsucc | hrest
        · exact ⟨node, List.mem_cons_self, ReflTransGen.head (List.mem_reverse.1 hsucc) hpath⟩
        · exact ⟨y, List.mem_cons_of_mem node hrest, hpath⟩

theorem not_mem_seen_of_mem_walk (g : Digraph) (seen stack : List Nat) (x : Nat)
    (h : x ∈ g.walk seen stack) : x ∉ seen := by
  induction seen, stack using walk.induct g with
  | case1 seen =>
      rw [walk] at h
      exact absurd h (by simp only [List.not_mem_nil, not_false_eq_true])
  | case2 seen node rest hseen ih =>
      rw [walk, if_pos hseen] at h
      exact ih h
  | case3 seen node rest hseen ih =>
      rw [walk, if_neg hseen] at h
      rcases List.mem_cons.1 h with rfl | h
      · exact hseen
      · exact fun hx => ih h (List.mem_cons_of_mem node hx)

/-- A search finds no node twice. -/
theorem walk_nodup (g : Digraph) (seen stack : List Nat) : (g.walk seen stack).Nodup := by
  induction seen, stack using walk.induct g with
  | case1 seen =>
      rw [walk]
      exact List.nodup_nil
  | case2 seen node rest hseen ih =>
      rw [walk, if_pos hseen]
      exact ih
  | case3 seen node rest hseen ih =>
      rw [walk, if_neg hseen]
      -- From here on the node counts as seen, so it is not found again.
      refine List.nodup_cons.2 ⟨fun hnode => ?_, ih⟩
      exact not_mem_seen_of_mem_walk g _ _ node hnode List.mem_cons_self

theorem mem_walk_of_mem_stack (g : Digraph) (seen stack : List Nat) (x : Nat)
    (h : x ∈ stack) : x ∈ seen ∨ x ∈ g.walk seen stack := by
  induction seen, stack using walk.induct g with
  | case1 seen => exact absurd h (by simp only [List.not_mem_nil, not_false_eq_true])
  | case2 seen node rest hseen ih =>
      rw [walk, if_pos hseen]
      rcases List.mem_cons.1 h with rfl | h
      · exact Or.inl hseen
      · exact ih h
  | case3 seen node rest hseen ih =>
      rw [walk, if_neg hseen]
      rcases List.mem_cons.1 h with rfl | h
      · exact Or.inr List.mem_cons_self
      · rcases ih (List.mem_append_right _ h) with hx | hx
        -- Among the nodes seen from here on, the head is one found just now.
        · rcases List.mem_cons.1 hx with rfl | hx
          · exact Or.inr List.mem_cons_self
          · exact Or.inl hx
        · exact Or.inr (List.mem_cons_of_mem node hx)

theorem mem_walk_of_edge (g : Digraph) (seen stack : List Nat) (x y : Nat)
    (h : x ∈ g.walk seen stack) (hedge : g.Edge x y) : y ∈ seen ∨ y ∈ g.walk seen stack := by
  induction seen, stack using walk.induct g with
  | case1 seen =>
      rw [walk] at h
      exact absurd h (by simp only [List.not_mem_nil, not_false_eq_true])
  | case2 seen node rest hseen ih =>
      rw [walk, if_pos hseen] at h ⊢
      exact ih h
  | case3 seen node rest hseen ih =>
      rw [walk, if_neg hseen] at h ⊢
      -- The node is seen from here on; before, it counts as found.
      have hsplit : y ∈ node :: seen ∨
          y ∈ g.walk (node :: seen) ((g.successors node).reverse ++ rest) := by
        rcases List.mem_cons.1 h with rfl | h
        · apply mem_walk_of_mem_stack
          exact List.mem_append_left _ (List.mem_reverse.2 hedge)
        · exact ih h
      rcases hsplit with hy | hy
      · rcases List.mem_cons.1 hy with rfl | hy
        · exact Or.inr List.mem_cons_self
        · exact Or.inl hy
      · exact Or.inr (List.mem_cons_of_mem node hy)

/-- A search that has seen its start finds everything else that the start
    reaches. -/
theorem mem_after_self_iff (g : Digraph) (node x : Nat) :
    x ∈ g.after [node] node ↔ x ≠ node ∧ ReflTransGen g.Edge node x := by
  constructor
  · intro h
    refine ⟨fun hx => not_mem_seen_of_mem_walk g _ _ x h (by simp [hx]), ?_⟩
    rcases exists_reaches_of_mem_walk g _ _ x h with ⟨y, hy, hpath⟩
    exact ReflTransGen.head (List.mem_reverse.1 hy) hpath
  · rintro ⟨hne, hpath⟩
    -- The induction along the path passes through the start as well.
    have hfound : x = node ∨ x ∈ g.after [node] node := by
      clear hne
      induction hpath with
      | refl => exact Or.inl rfl
      | @tail y z _ hedge ih =>
          have hclosed : z ∈ [node] ∨ z ∈ g.after [node] node := by
            rcases ih with rfl | hy
            · exact mem_walk_of_mem_stack g _ _ z (List.mem_reverse.2 hedge)
            · exact mem_walk_of_edge g _ _ y z hy hedge
          rcases hclosed with hz | hz
          · exact Or.inl (List.mem_singleton.1 hz)
          · exact Or.inr hz
    exact hfound.resolve_left hne

/-- A search that has seen nothing finds everything that one or more edges lead to,
    which may be its start again. -/
theorem mem_after_iff (g : Digraph) (node x : Nat) :
    x ∈ g.after [] node ↔ TransGen g.Edge node x := by
  constructor
  · intro h
    rcases exists_reaches_of_mem_walk g _ _ x h with ⟨y, hy, hpath⟩
    exact TransGen.head' (List.mem_reverse.1 hy) hpath
  · intro hpath
    induction hpath with
    | single hedge =>
        have hfound := mem_walk_of_mem_stack g [] _ _ (List.mem_reverse.2 hedge)
        exact hfound.resolve_left List.not_mem_nil
    | tail _ hedge ih =>
        exact (mem_walk_of_edge g _ _ _ _ ih hedge).resolve_left List.not_mem_nil

end Digraph

namespace Program

open Relation (TransGen)

/-- A unit has a call site with the given target. -/
def Calls (p : Program) (a b : UnitId) : Prop :=
  ∃ u, p.units[a]? = some u ∧ b ∈ u.targets

instance (p : Program) (a b : UnitId) : Decidable (p.Calls a b) :=
  inferInstanceAs (Decidable (∃ u ∈ p.units[a]?, b ∈ u.targets))

theorem callGraph_edge (p : Program) : p.callGraph.Edge = p.Calls := by
  funext a b
  rw [Digraph.Edge, Digraph.successors, callGraph, Array.getD_eq_getD_getElem?,
    Array.getElem?_map, Calls]
  rcases p.units[a]? with _ | u <;> simp

/-- A unit lies on a call cycle if one or more calls lead back to it. -/
theorem liesOnCycle_iff (p : Program) (id : UnitId) :
    p.liesOnCycle id = true ↔ TransGen p.Calls id id := by
  rw [liesOnCycle, decide_eq_true_eq, Digraph.mem_after_iff, callGraph_edge]

end Program

end CoreShell
