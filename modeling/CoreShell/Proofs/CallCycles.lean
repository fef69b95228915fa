import CoreShell.Program.Cycle
import CoreShell.Proofs.Freshness
import CoreShell.Proofs.Reachability
import Mathlib.Tactic.IntervalCases

/-!
# Units on a Call Cycle

A unit lies on a cycle if one or more calls lead back to it. The search says so for one
unit after the other. Another way to find them is to group the nodes of the call graph into
strongly connected components first: a component with two members is full of cycles, and a
component with one member is a cycle only if the member calls itself. `Components` says what
such groups have to satisfy, however they were found, and both ways agree on all of them.

What lies on a cycle can be read off the declarations as well. A name calls the targets of
all call sites in its latest declaration, and a name without one calls nothing.

## Main definitions

* `Digraph.Mutual`: Two nodes that reach each other.
* `Digraph.Components`: The nodes in strongly connected groups.
* `Digraph.membersOnCycles`: The members of groups that contain a cycle.
* `CallsByName`: A call by the latest declarations.

## Theorems

* `Digraph.mem_membersOnCycles_iff`: The groups with a cycle hold the nodes on a cycle.
* `Program.mem_cyclicUnits`: The search finds the units that reach themselves.
* `Program.MadeFrom.exists_calls_path`: A chain of names is a chain of units.
* `Program.cyclic_units_exact`: The units on a cycle, by positions, components and names.
-/

namespace CoreShell

open Relation

namespace Digraph

/-- Each of two nodes can be reached from the other. -/
def Mutual (g : Digraph) (a b : Nat) : Prop :=
  ReflTransGen g.Edge a b ∧ ReflTransGen g.Edge b a

/-- The nodes of a graph in groups, the strongly connected components. -/
structure Components (g : Digraph) (groups : List (List Nat)) : Prop where
  /-- Every node is in one group, once. -/
  nodes : groups.flatten.Perm (List.range g.edges.size)
  connected : ∀ group ∈ groups, ∀ a ∈ group, ∀ b ∈ group, g.Mutual a b
  maximal : ∀ group ∈ groups, ∀ a ∈ group, ∀ b, g.Mutual a b → b ∈ group

/-- The members of all groups with more than one member, or with a first member that has
    an edge to itself. -/
def membersOnCycles (g : Digraph) (groups : List (List Nat)) : List Nat :=
  (groups.filter fun group =>
    decide (1 < group.length) || group.head?.any fun a => decide (a ∈ g.successors a)).flatten

theorem Edge.lt_size {g : Digraph} {a b : Nat} (h : g.Edge a b) : a < g.edges.size := by
  by_contra hle
  rw [Edge, g.successors_of_le a (Nat.le_of_not_lt hle)] at h
  exact List.not_mem_nil h

/-- A node reaches itself if it shares a group with another one. -/
theorem Mutual.transGen {g : Digraph} {a b : Nat} (h : g.Mutual a b) (hne : b ≠ a) :
    TransGen g.Edge a a :=
  ((reflTransGen_iff_eq_or_transGen.1 h.1).resolve_left hne).trans_left h.2

/-- Groups are the components if their members reach each other and a rank that no edge
    raises tells them apart. -/
theorem components_of_rank {g : Digraph} {groups : List (List Nat)} (rank : Nat → Nat)
    (hnodes : groups.flatten.Perm (List.range g.edges.size))
    (hconnected : ∀ group ∈ groups, ∀ a ∈ group, ∀ b ∈ group, ReflTransGen g.Edge a b)
    (hrank : ∀ a b, g.Edge a b → rank b ≤ rank a)
    (happart : ∀ group ∈ groups, ∀ a ∈ group, ∀ b, rank b = rank a → b ∈ group) :
    g.Components groups := by
  have hpath : ∀ a b, ReflTransGen g.Edge a b → rank b ≤ rank a := by
    intro a b h
    induction h with
    | refl => exact Nat.le_refl _
    | tail _ hedge ih => exact Nat.le_trans (hrank _ _ hedge) ih
  refine ⟨hnodes, fun group hgroup a ha b hb => ?_, fun group hgroup a ha b h => ?_⟩
  · exact ⟨hconnected group hgroup a ha b hb, hconnected group hgroup b hb a ha⟩
  · exact happart group hgroup a ha b (Nat.le_antisymm (hpath a b h.1) (hpath b a h.2))

section Components

variable {g : Digraph} {groups : List (List Nat)} (h : g.Components groups)
include h

theorem Components.exists_group {a : Nat} (ha : a < g.edges.size) : ∃ group ∈ groups, a ∈ group :=
  List.mem_flatten.1 (h.nodes.mem_iff.2 (List.mem_range.2 ha))

theorem Components.group_nodup {group : List Nat} (hgroup : group ∈ groups) : group.Nodup :=
  (List.nodup_flatten.1 (h.nodes.nodup_iff.2 List.nodup_range)).1 group hgroup

/-- The groups with a cycle hold exactly the nodes that one or more edges lead back to. -/
theorem mem_membersOnCycles_iff (a : Nat) :
    a ∈ g.membersOnCycles groups ↔ TransGen g.Edge a a := by
  simp only [membersOnCycles, List.mem_flatten, List.mem_filter, Bool.or_eq_true,
    decide_eq_true_eq, Option.any_eq_true]
  constructor
  · rintro ⟨group, ⟨hgroup, hlong | ⟨b, hb, hloop⟩⟩, ha⟩
    · -- Among two members one is not the node itself.
      have hother : ∃ b ∈ group, b ≠ a := by
        by_contra hnone
        push Not at hnone
        have hall := List.eq_replicate_of_mem hnone
        have hnodup := h.group_nodup hgroup
        rw [hall, List.nodup_replicate] at hnodup
        exact absurd hlong (Nat.not_lt.2 hnodup)
      rcases hother with ⟨b, hb, hne⟩
      exact (h.connected group hgroup a ha b hb).transGen hne
    · -- The first member is on the way from the node to itself, and goes round once.
      have hmutual := h.connected group hgroup a ha b (List.mem_of_mem_head? hb)
      exact (TransGen.tail' hmutual.1 hloop).trans_left hmutual.2
  · intro hcycle
    rcases TransGen.head'_iff.1 hcycle with ⟨b, hedge, hback⟩
    rcases h.exists_group (Edge.lt_size hedge) with ⟨group, hgroup, ha⟩
    have hb : b ∈ group := h.maximal group hgroup a ha b ⟨ReflTransGen.single hedge, hback⟩
    refine ⟨group, ⟨hgroup, ?_⟩, ha⟩
    -- A single member can only go round by an edge to itself.
    match group, ha, hb with
    | [c], ha, hb =>
        rw [List.mem_singleton] at ha hb
        rw [hb, ha] at hedge
        exact Or.inr ⟨c, rfl, hedge⟩
    | _ :: _ :: _, _, _ => exact Or.inl (by simp)

end Components

end Digraph

/-- By its latest declaration, a unit has a call site with the given target. -/
def CallsByName (units : List UnitDecl) (n m : String) : Prop :=
  ∃ d, latestUnder n units = some d ∧ ∃ c ∈ d.calls, m ∈ c.targets

namespace Program

theorem Calls.lt_size {p : Program} {a b : UnitId} (h : p.Calls a b) : a < p.units.size := by
  rcases h with ⟨u, hu, _⟩
  exact lt_size_of_getElem? hu

/-- The search finds the units that one or more calls lead back to. -/
theorem mem_cyclicUnits (p : Program) (id : UnitId) :
    id ∈ p.cyclicUnits ↔ TransGen p.Calls id id := by
  rw [cyclicUnits, List.mem_filter, List.mem_range, liesOnCycle_iff, and_iff_right_iff_imp]
  intro hcycle
  rcases TransGen.head'_iff.1 hcycle with ⟨b, hcall, _⟩
  exact hcall.lt_size

theorem cyclicUnits_pairwise (p : Program) : p.cyclicUnits.Pairwise (· < ·) :=
  List.pairwise_lt_range.filter _

theorem WellFormed.unitName_injective {p : Program} (hp : p.WellFormed) {i j : UnitId}
    (hi : i < p.units.size) (hj : j < p.units.size) (h : p.unitName i = p.unitName j) : i = j := by
  rcases getElem?_of_lt_size hi with ⟨u, hu⟩
  rcases getElem?_of_lt_size hj with ⟨v, hv⟩
  rw [unitName_of_getElem? hu, unitName_of_getElem? hv] at h
  exact hp.unit_names i j u v hu hv h

theorem WellFormed.target_lt_size {p : Program} (hp : p.WellFormed) {a b : UnitId}
    (h : p.Calls a b) : b < p.units.size := by
  rcases h with ⟨u, hu, htarget⟩
  rcases List.mem_flatMap.1 htarget with ⟨c, hc, hb⟩
  exact ((hp.units_inRange a u hu).calls c hc).2 b hb

section MadeFrom

variable {items : List (TypeDecl ⊕ UnitDecl)} {p : Program} (h : MadeFrom items p)
include h

/-- A call is one of the latest declaration of its caller. -/
theorem MadeFrom.callsByName {a b : UnitId} (hcall : p.Calls a b) :
    CallsByName (submissions items) (p.unitName a) (p.unitName b) := by
  rcases hcall with ⟨u, hu, htarget⟩
  rcases List.mem_flatMap.1 htarget with ⟨c, hc, hb⟩
  have hmem := Array.mem_of_getElem? hu
  -- A unit that was never submitted has no call sites.
  have hsubmitted : u.submitted = true := by
    by_contra hs
    have hempty := (h.external_empty hmem (by simpa using hs)).1
    rw [hempty] at hc
    exact List.not_mem_nil hc
  refine ⟨p.readUnit u, ?_, p.readCall c, List.mem_map_of_mem hc, List.mem_map_of_mem hb⟩
  rw [unitName_of_getElem? hu]
  exact h.latest_of_submitted hmem hsubmitted

/-- What a declaration calls is called by the unit that was declared. -/
theorem MadeFrom.exists_calls {n m : String} (hcall : CallsByName (submissions items) n m) :
    ∃ a b, p.Calls a b ∧ p.unitName a = n ∧ p.unitName b = m := by
  rcases hcall with ⟨d, hd, c, hc, hm⟩
  rcases h.exists_unit hd with ⟨u, hu, hname, _, rfl⟩
  rcases List.mem_map.1 hc with ⟨site, hsite, rfl⟩
  rcases List.mem_map.1 hm with ⟨b, hb, rfl⟩
  have hat := h.wellFormed.getElem?_of_mem hu
  have htarget : b ∈ u.targets := List.mem_flatMap.2 ⟨site, hsite, hb⟩
  exact ⟨u.id, b, ⟨u, hat, htarget⟩, (unitName_of_getElem? hat).trans hname, rfl⟩

/-- A chain of calls by name is one by positions. -/
theorem MadeFrom.exists_calls_path {n m : String}
    (hpath : TransGen (CallsByName (submissions items)) n m) :
    ∃ a b, TransGen p.Calls a b ∧ a < p.units.size ∧ b < p.units.size ∧
      p.unitName a = n ∧ p.unitName b = m := by
  induction hpath with
  | single hcall =>
      rcases h.exists_calls hcall with ⟨a, b, hab, ha, hb⟩
      exact ⟨a, b, .single hab, hab.lt_size, h.wellFormed.target_lt_size hab, ha, hb⟩
  | tail _ hcall ih =>
      rcases ih with ⟨a, b, hab, ha, hb, hn, hm⟩
      rcases h.exists_calls hcall with ⟨b', c, hbc, hm', hk⟩
      -- The chain goes on where it ended, since a name has one position.
      obtain rfl := h.wellFormed.unitName_injective hbc.lt_size hb (hm'.trans hm.symm)
      exact ⟨a, c, hab.tail hbc, ha, h.wellFormed.target_lt_size hbc, hn, hk⟩

/-- A unit lies on a cycle if the latest declarations lead from its name back to it. -/
theorem MadeFrom.exists_cyclic_iff (n : String) :
    (∃ id ∈ p.cyclicUnits, p.unitName id = n) ↔
      TransGen (CallsByName (submissions items)) n n := by
  constructor
  · rintro ⟨id, hid, rfl⟩
    exact ((mem_cyclicUnits p id).1 hid).lift p.unitName fun _ _ hcall => h.callsByName hcall
  · intro hpath
    rcases h.exists_calls_path hpath with ⟨a, b, hab, ha, hb, hn, hm⟩
    obtain rfl := h.wellFormed.unitName_injective ha hb (hn.trans hm.symm)
    exact ⟨a, (mem_cyclicUnits p a).2 hab, hn⟩

end MadeFrom

/-- The units on a call cycle are listed in ascending order, and they are those that one or
    more calls lead back to. They are the members of the strongly connected components that
    have more than one member or a member that calls itself. After any history, a name is one
    of theirs exactly if the latest declarations lead from the name back to it. -/
theorem cyclic_units_exact (p : Program) :
    p.cyclicUnits.Pairwise (· < ·) ∧
    (∀ id, id ∈ p.cyclicUnits ↔ TransGen p.Calls id id) ∧
    (∀ groups, p.callGraph.Components groups →
      ∀ id, id ∈ p.callGraph.membersOnCycles groups ↔ id ∈ p.cyclicUnits) ∧
    ∀ edits : List Edit, p = ({} : Program).editAll edits →
      ∀ n, (∃ id ∈ p.cyclicUnits, p.unitName id = n) ↔
        TransGen (CallsByName (submissions (edits.flatMap Edit.items))) n n := by
  refine ⟨p.cyclicUnits_pairwise, p.mem_cyclicUnits, fun groups h id => ?_, ?_⟩
  · rw [Digraph.mem_membersOnCycles_iff h, callGraph_edge, mem_cyclicUnits]
  · rintro edits rfl n
    exact (editAll_madeFrom edits).exists_cyclic_iff n

/-- Two units call each other, one of them twice and along with a unit of a library. A third
    unit calls itself. -/
def pingPong : List Edit :=
  [.declare (.unit (((UnitDecl.method "a.Ping" "ping").calling "a.Pong" "a.Pong.pong()").callingAny
      "a.Pong" ["a.Pong.pong()", "lib.Log.write()"])),
    .declare (.unit ((UnitDecl.method "a.Pong" "pong").calling "a.Ping" "a.Ping.ping()")),
    .declare (.unit ((UnitDecl.method "a.Tree" "walk").calling "a.Tree" "a.Tree.walk()"))]

theorem pingPong_components :
    (({} : Program).editAll pingPong).callGraph.Components [[2], [1, 0], [3]] := by
  have hgraph : (({} : Program).editAll pingPong).callGraph =
      { edges := #[[1, 1, 2], [0], [], [3]] } :=
    congrArg Digraph.mk (by decide +kernel)
  rw [hgraph]
  refine Digraph.components_of_rank (fun a => if a = 2 then 0 else max 1 a) (by decide) ?_ ?_ ?_
  · have hping : Digraph.Edge { edges := #[[1, 1, 2], [0], [], [3]] } 0 1 := by
      simp [Digraph.Edge, Digraph.successors]
    have hpong : Digraph.Edge { edges := #[[1, 1, 2], [0], [], [3]] } 1 0 := by
      simp [Digraph.Edge, Digraph.successors]
    simp [ReflTransGen.refl, ReflTransGen.single hping, ReflTransGen.single hpong]
  · intro a b h
    have hlt : a < 4 := h.lt_size
    interval_cases a <;> simp only [Digraph.Edge, Digraph.successors] at h <;>
      revert b <;> decide
  · intro group hgroup a ha b hb
    simp only [List.mem_cons, List.not_mem_nil, or_false] at hgroup
    rcases hgroup with rfl | rfl | rfl <;>
      simp only [List.mem_cons, List.not_mem_nil, or_false] at ha ⊢ <;> grind

/-- The library unit is a component without a cycle, and the unit that calls itself is one
    with a cycle. -/
theorem cyclic_units_exact_pingPong :
    let p := ({} : Program).editAll pingPong
    p.callGraph.Components [[2], [1, 0], [3]] ∧
      (∀ id, id ∈ p.cyclicUnits ↔ id ∈ [1, 0, 3]) ∧
      TransGen (CallsByName (submissions (pingPong.flatMap Edit.items))) "a.Pong.pong()"
        "a.Pong.pong()" ∧
      ¬ TransGen (CallsByName (submissions (pingPong.flatMap Edit.items))) "lib.Log.write()"
        "lib.Log.write()" := by
  intro p
  rcases cyclic_units_exact p with ⟨_, _, hcomponents, hnames⟩
  have hmembers : ∀ id, id ∈ p.cyclicUnits ↔ id ∈ [1, 0, 3] := by
    intro id
    rw [← hcomponents _ pingPong_components id,
      show p.callGraph.membersOnCycles [[2], [1, 0], [3]] = [1, 0, 3] by decide +kernel]
  refine ⟨pingPong_components, hmembers, ?_, ?_⟩
  · exact (hnames pingPong rfl _).1 ⟨1, (hmembers 1).2 (by decide), by decide +kernel⟩
  · intro hcycle
    rcases (hnames pingPong rfl _).2 hcycle with ⟨id, hid, hname⟩
    have hother : ∀ i ∈ [1, 0, 3], p.unitName i ≠ "lib.Log.write()" := by decide +kernel
    exact hother id ((hmembers id).1 hid) hname

end Program

end CoreShell
