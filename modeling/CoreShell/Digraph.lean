/-!
# Directed Graphs

Reachability in a finite directed graph, in the order a depth-first search
finds it. Supertypes and calls both form such graphs, and both may contain
cycles, self-loops and repeated edges.

The search keeps a stack of nodes to visit and a list of nodes already seen.
Successors go onto the stack in order, so the last of them is visited first.
Every visit of a node of the graph takes it out of the unseen ones, and every
other step shortens the stack, so the search ends.

## Main definitions

* `Digraph`: The successors of every node.
* `Digraph.walk`: The nodes a search finds from a stack.
* `Digraph.after`: The nodes a search finds from the successors of a node.

## Theorems

* `successors_of_le`: Outside the graph there are no successors.
* `unseen_cons_le`: Seeing more leaves no more unseen.
* `unseen_cons_lt`: Seeing a new node of the graph leaves fewer unseen.
-/

namespace CoreShell

/-- A directed graph on the numbers below its size. -/
structure Digraph where
  /-- The successors of every node, in the order of its edges. -/
  edges : Array (List Nat) := #[]

namespace Digraph

/-- The successors of a node, in the order of its edges. -/
def successors (g : Digraph) (node : Nat) : List Nat :=
  g.edges.getD node []

/-- How many nodes of the graph are not among the seen ones. -/
def unseen (g : Digraph) (seen : List Nat) : Nat :=
  ((List.range g.edges.size).filter (· ∉ seen)).length

theorem successors_of_le (g : Digraph) (node : Nat) (h : g.edges.size ≤ node) :
    g.successors node = [] := by
  simp only [successors, Array.getD_eq_getD_getElem?]
  rw [Array.getElem?_eq_none h]
  rfl

theorem unseen_cons_le (g : Digraph) (seen : List Nat) (node : Nat) :
    g.unseen (node :: seen) ≤ g.unseen seen := by
  simp only [unseen, ← List.countP_eq_length_filter]
  apply List.countP_mono_left
  intro x _ hx
  simp only [List.mem_cons, not_or, decide_eq_true_eq] at hx ⊢
  exact hx.2

theorem unseen_cons_lt (g : Digraph) (seen : List Nat) (node : Nat)
    (hsize : node < g.edges.size) (hseen : node ∉ seen) :
    g.unseen (node :: seen) < g.unseen seen := by
  have hsplit : (List.range g.edges.size).filter (· ∉ node :: seen) =
      ((List.range g.edges.size).filter (· ∉ seen)).filter (· ≠ node) := by
    rw [List.filter_filter]
    apply List.filter_congr
    intro x _
    simp [not_or]
  simp only [unseen]
  rw [hsplit]
  apply List.length_filter_lt_length_iff_exists.2
  refine ⟨node, ?_, by simp⟩
  simp [hsize, hseen]

/-- The nodes a depth-first search finds from a stack, in the order it finds
    them, leaving out the seen ones. The head of the stack is next. -/
def walk (g : Digraph) (seen stack : List Nat) : List Nat :=
  match stack with
  | [] => []
  | node :: rest =>
    if node ∈ seen then g.walk seen rest
    else node :: g.walk (node :: seen) ((g.successors node).reverse ++ rest)
termination_by (g.unseen seen, stack.length)
decreasing_by
  · exact Prod.Lex.right _ (Nat.lt_succ_self _)
  · rename_i hseen
    rcases Nat.lt_or_ge node g.edges.size with hsize | hsize
    · exact Prod.Lex.left _ _ (unseen_cons_lt g seen node hsize hseen)
    · rw [successors_of_le g node hsize]
      rcases Nat.lt_or_eq_of_le (unseen_cons_le g seen node) with h | h
      · exact Prod.Lex.left _ _ h
      · rw [h]
        exact Prod.Lex.right _ (by simp)

/-- The nodes a search finds from the successors of `node`, leaving out the
    seen ones. -/
def after (g : Digraph) (seen : List Nat) (node : Nat) : List Nat :=
  g.walk seen (g.successors node).reverse

end Digraph

end CoreShell
