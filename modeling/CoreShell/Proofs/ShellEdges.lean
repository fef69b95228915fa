import CoreShell.Dependency
import CoreShell.Proofs.Freshness
import CoreShell.Proofs.Texts
import Mathlib.Data.List.Sort
import Mathlib.Data.Prod.Lex
import Mathlib.Data.String.Basic

/-!
# What the Core Touches of the Shell

The violations of an architecture are collected unit by unit and edge by edge, with
positions for names, and then sorted. What is in the list can be said by declarations.
A unit of the core touches the shell by what it calls, constructs, reads or writes, and
the owner of a unit that is called or constructed is the one in its latest declaration,
or the one in its name if it was never submitted.

A call site counts by its targets. Only if none of them is in the shell does the
declared owner of the call count. So a site that touches the shell in any way is listed,
with the most precise name there is.

The list is sorted by names, and its members depend on the latest declarations alone.
Positions have no part in it, and neither has the order of declarations.

## Main definitions

* `Dependency.key`: What dependencies are sorted by.
* `UnitDecl.Touches`: One edge from a unit to the shell.
* `UnitDecl.ReachesInto`: Some edge of a unit touches the shell.
* `ownerUnder`: The owner of a unit by its name.

## Theorems

* `Dependency.sorted_pairwise`: Sorting makes a strictly ascending list.
* `UnitDecl.exists_touches_iff`: A site that touches the shell is listed.
* `Program.MadeFrom.mem_shellEdges`: The edges of a unit, by declarations.
* `Program.MadeFrom.mem_violations`: The violations, by declarations.
* `Program.MadeFrom.violations_eq`: Nothing but the latest declarations counts.
* `Program.violations_are_shell_edges`: The violations after any history.
-/

namespace CoreShell

namespace Dependency

/-- What dependencies are sorted by: the unit, then the kind, then the target. -/
def key (d : Dependency) : String ×ₗ Nat ×ₗ String :=
  toLex (d.unit, toLex (d.kind.rank, d.target))

theorem rank_inj {k k' : DependencyKind} : k.rank = k'.rank ↔ k = k' := by
  cases k <;> cases k' <;> decide

theorem key_injective : Function.Injective key := by
  intro a b h
  simp only [key, toLex_inj, Prod.mk.injEq, rank_inj] at h
  rcases a with ⟨unit, kind, target⟩
  rcases b with ⟨unit', kind', target'⟩
  rcases h with ⟨rfl, rfl, rfl⟩
  rfl

theorem le_iff (a b : Dependency) : a.le b = true ↔ a.key ≤ b.key := by
  simp only [le, key, Prod.Lex.toLex_le_toLex, Bool.or_eq_true, Bool.and_eq_true,
    decide_eq_true_eq, rank_inj]

/-- Sorting dependencies that are listed once makes a strictly ascending list. -/
theorem sorted_pairwise {l : List Dependency} (h : l.Nodup) :
    (l.mergeSort le).Pairwise fun a b => a.key < b.key := by
  have hsorted : (l.mergeSort le).Pairwise fun a b => le a b = true := by
    refine List.pairwise_mergeSort (fun a b c hab hbc => ?_) (fun a b => ?_) l
    · rw [le_iff] at hab hbc ⊢
      exact hab.trans hbc
    · rw [Bool.or_eq_true, le_iff, le_iff]
      exact le_total a.key b.key
  have hnodup : (l.mergeSort le).Nodup := (List.mergeSort_perm l le).nodup_iff.2 h
  refine (hsorted.and hnodup).imp fun {a b} hab => ?_
  exact lt_of_le_of_ne ((le_iff a b).1 hab.1) fun hc => hab.2 (key_injective hc)

end Dependency

namespace UnitDecl

/-- An edge from a unit to the shell, if units belong to the given owners. -/
inductive Touches (ownerOf : String → String) (shell : List String) (d : UnitDecl) :
    DependencyKind → String → Prop
  /-- A call site has a target in the shell. -/
  | target {c : CallDecl} {t : String} (site : c ∈ d.calls) (target : t ∈ c.targets)
      (within : InLayer shell (ownerOf t)) : Touches ownerOf shell d .call t
  /-- A call site has no target in the shell, but its declared owner is. -/
  | owner {c : CallDecl} (site : c ∈ d.calls)
      (outside : ∀ t ∈ c.targets, ¬ InLayer shell (ownerOf t))
      (within : InLayer shell c.owner) : Touches ownerOf shell d .call c.owner
  | construction {t : String} (constructed : t ∈ d.constructs)
      (within : InLayer shell (ownerOf t)) : Touches ownerOf shell d .construction t
  | access {f : FieldRef} (touched : f ∈ d.reads ∨ f ∈ d.writes)
      (within : InLayer shell f.owner) : Touches ownerOf shell d .fieldAccess f.qualified

/-- Some call, construction or field of a unit touches the shell. -/
def ReachesInto (ownerOf : String → String) (shell : List String) (d : UnitDecl) : Prop :=
  (∃ c ∈ d.calls, InLayer shell c.owner ∨ ∃ t ∈ c.targets, InLayer shell (ownerOf t)) ∨
  (∃ t ∈ d.constructs, InLayer shell (ownerOf t)) ∨
  ∃ f, (f ∈ d.reads ∨ f ∈ d.writes) ∧ InLayer shell f.owner

/-- No edge that touches the shell is left out. -/
theorem exists_touches_iff (ownerOf : String → String) (shell : List String) (d : UnitDecl) :
    (∃ kind t, d.Touches ownerOf shell kind t) ↔ d.ReachesInto ownerOf shell := by
  constructor
  · rintro ⟨kind, t, hedge⟩
    cases hedge with
    | target hsite htarget hwithin => exact Or.inl ⟨_, hsite, Or.inr ⟨_, htarget, hwithin⟩⟩
    | owner hsite _ hwithin => exact Or.inl ⟨_, hsite, Or.inl hwithin⟩
    | construction hmem hwithin => exact Or.inr (Or.inl ⟨_, hmem, hwithin⟩)
    | access htouched hwithin => exact Or.inr (Or.inr ⟨_, htouched, hwithin⟩)
  · rintro (⟨c, hsite, hcall⟩ | ⟨t, hmem, hwithin⟩ | ⟨f, htouched, hwithin⟩)
    · -- A target in the shell is named in place of the owner.
      by_cases htargets : ∃ t ∈ c.targets, InLayer shell (ownerOf t)
      · rcases htargets with ⟨t, htarget, hwithin⟩
        exact ⟨_, _, .target hsite htarget hwithin⟩
      · have hwithin := hcall.resolve_right htargets
        push Not at htargets
        exact ⟨_, _, .owner hsite htargets hwithin⟩
    · exact ⟨_, _, .construction hmem hwithin⟩
    · exact ⟨_, _, .access htouched hwithin⟩

end UnitDecl

/-- The owner of a unit: the one in its latest declaration, or the one in its name. -/
def ownerUnder (units : List UnitDecl) (n : String) : String :=
  (recordUnder units n).decl.owner

namespace Program

theorem mem_shellCalls (p : Program) (shell : List String) (call : CallSite) (t : String) :
    t ∈ p.shellCalls shell call ↔
      (∃ i ∈ call.targets, InLayer shell (p.ownerName i) ∧ p.unitName i = t) ∨
      (∀ i ∈ call.targets, ¬ InLayer shell (p.ownerName i)) ∧
        InLayer shell (p.typeName call.owner) ∧ p.typeName call.owner = t := by
  have hits : ∀ i, i ∈ call.targets.filter (fun i => Text.startsWithAny shell (p.ownerName i)) ↔
      i ∈ call.targets ∧ InLayer shell (p.ownerName i) := by
    intro i
    rw [List.mem_filter, startsWithAny_iff]
  rw [shellCalls]
  by_cases hnone : ∀ i ∈ call.targets, ¬ InLayer shell (p.ownerName i)
  · have hempty : call.targets.filter (fun i => Text.startsWithAny shell (p.ownerName i)) = [] :=
      List.eq_nil_iff_forall_not_mem.2 fun i hi => hnone i ((hits i).1 hi).1 ((hits i).1 hi).2
    have hfalse : ¬ ∃ i ∈ call.targets, InLayer shell (p.ownerName i) ∧ p.unitName i = t :=
      fun ⟨i, hi, hwithin, _⟩ => hnone i hi hwithin
    rw [or_iff_right hfalse, and_iff_right hnone]
    simp only [hempty, List.isEmpty_nil, Bool.not_true, Bool.false_eq_true, if_false]
    by_cases howner : InLayer shell (p.typeName call.owner)
    · rw [if_pos ((startsWithAny_iff _ _).2 howner), List.mem_singleton, and_iff_right howner,
        eq_comm]
    · rw [if_neg fun hc => howner ((startsWithAny_iff _ _).1 hc)]
      exact iff_of_false List.not_mem_nil fun hc => howner hc.1
  · have hsome : (call.targets.filter fun i =>
        Text.startsWithAny shell (p.ownerName i)).isEmpty = false := by
      push Not at hnone
      rcases hnone with ⟨i, hi, hwithin⟩
      simpa using List.ne_nil_of_mem ((hits i).2 ⟨hi, hwithin⟩)
    simp only [hsome, Bool.not_false, if_true, List.mem_map, hits, hnone, false_and, or_false,
      and_assoc]

section MadeFrom

variable {items : List (TypeDecl ⊕ UnitDecl)} {p : Program} (h : MadeFrom items p)
include h

/-- The owner of a unit is known from its name. -/
theorem MadeFrom.ownerName_eq {i : UnitId} (hi : i < p.units.size) :
    p.ownerName i = ownerUnder (submissions items) (p.unitName i) := by
  rcases getElem?_of_lt_size hi with ⟨v, hv⟩
  rw [ownerName, unitName_of_getElem? hv, hv, ownerUnder, ← h.record_eq hv]
  rfl

/-- What a unit touches is what its declaration says. -/
theorem MadeFrom.mem_shellEdges (shell : List String) {u : CodeUnit} (hu : u ∈ p.units)
    (kind : DependencyKind) (t : String) :
    (kind, t) ∈ p.shellEdges shell u ↔
      (p.readUnit u).Touches (ownerUnder (submissions items)) shell kind t := by
  have hrange := h.wellFormed.units_inRange _ u (h.wellFormed.getElem?_of_mem hu)
  have htarget : ∀ c ∈ u.calls, ∀ i ∈ c.targets,
      p.ownerName i = ownerUnder (submissions items) (p.unitName i) :=
    fun c hc i hi => h.ownerName_eq ((hrange.calls c hc).2 i hi)
  simp only [shellEdges, List.mem_append, List.mem_map, List.mem_flatMap, List.mem_filter,
    startsWithAny_iff, mem_shellCalls, Prod.mk.injEq]
  constructor
  · rintro ((⟨t, ⟨c, hc, ⟨i, hi, hwithin, rfl⟩ | ⟨hnone, hwithin, rfl⟩⟩, rfl, rfl⟩ |
      ⟨_, ⟨i, ⟨hi, hwithin⟩, rfl⟩, rfl, rfl⟩) | ⟨_, ⟨f, ⟨⟨i, hi, rfl⟩, hwithin⟩, rfl⟩, rfl, rfl⟩)
    · rw [htarget c hc i hi] at hwithin
      exact .target (List.mem_map_of_mem hc) (List.mem_map_of_mem hi) hwithin
    · refine .owner (c := p.readCall c) (List.mem_map_of_mem hc) (fun t ht => ?_) hwithin
      rcases List.mem_map.1 ht with ⟨i, hi, rfl⟩
      rw [← htarget c hc i hi]
      exact hnone i hi
    · rw [h.ownerName_eq (hrange.constructs i hi)] at hwithin
      exact .construction (List.mem_map_of_mem hi) hwithin
    · refine .access ?_ hwithin
      exact hi.imp List.mem_map_of_mem List.mem_map_of_mem
  · intro hedge
    cases hedge with
    | target hsite hmem hwithin =>
        rcases List.mem_map.1 hsite with ⟨c, hc, rfl⟩
        rcases List.mem_map.1 hmem with ⟨i, hi, rfl⟩
        rw [← htarget c hc i hi] at hwithin
        exact Or.inl (Or.inl ⟨_, ⟨c, hc, Or.inl ⟨i, hi, hwithin, rfl⟩⟩, rfl, rfl⟩)
    | owner hsite hnone hwithin =>
        rcases List.mem_map.1 hsite with ⟨c, hc, rfl⟩
        refine Or.inl (Or.inl ⟨_, ⟨c, hc, Or.inr ⟨fun i hi => ?_, hwithin, rfl⟩⟩, rfl, rfl⟩)
        rw [htarget c hc i hi]
        exact hnone _ (List.mem_map_of_mem hi)
    | construction hmem hwithin =>
        rcases List.mem_map.1 hmem with ⟨i, hi, rfl⟩
        rw [← h.ownerName_eq (hrange.constructs i hi)] at hwithin
        exact Or.inl (Or.inr ⟨_, ⟨i, ⟨hi, hwithin⟩, rfl⟩, rfl, rfl⟩)
    | @access f htouched hwithin =>
        have hmem : ∃ i, (i ∈ u.reads ∨ i ∈ u.writes) ∧ p.field i = f := by
          rcases htouched with hread | hwrite
          · rcases List.mem_map.1 hread with ⟨i, hi, heq⟩
            exact ⟨i, Or.inl hi, heq⟩
          · rcases List.mem_map.1 hwrite with ⟨i, hi, heq⟩
            exact ⟨i, Or.inr hi, heq⟩
        exact Or.inr ⟨_, ⟨f, ⟨hmem, hwithin⟩, rfl⟩, rfl, rfl⟩

/-- The violations are the edges from the submitted units of the core to the shell. -/
theorem MadeFrom.mem_violations {core shell : List String} (hcore : core ≠ []) (hshell : shell ≠ [])
    (d : Dependency) :
    d ∈ p.violations core shell ↔
      ∃ u, latestUnder d.unit (submissions items) = some u ∧ InLayer core u.owner ∧
        u.Touches (ownerUnder (submissions items)) shell d.kind d.target := by
  have hlayers : ¬ (core.isEmpty || shell.isEmpty) = true := by
    simp [hcore, hshell]
  rw [violations, if_neg hlayers, List.mem_mergeSort, List.mem_eraseDups]
  simp only [List.mem_flatMap, List.mem_filter, List.mem_map, belongsTo, Bool.and_eq_true,
    startsWithAny_iff, Array.mem_toList_iff]
  constructor
  · rintro ⟨u, ⟨hu, hs, hwithin⟩, ⟨kind, t⟩, hedge, rfl⟩
    exact ⟨p.readUnit u, h.latest_of_submitted hu hs, hwithin,
      (h.mem_shellEdges shell hu kind t).1 hedge⟩
  · rintro ⟨e, hlatest, hwithin, hedge⟩
    rcases h.exists_unit hlatest with ⟨u, hu, hname, hs, rfl⟩
    refine ⟨u, ⟨hu, hs, hwithin⟩, (d.kind, d.target), (h.mem_shellEdges shell hu _ _).2 hedge, ?_⟩
    rw [hname]

end MadeFrom

theorem violations_pairwise (p : Program) (core shell : List String) :
    (p.violations core shell).Pairwise fun a b => a.key < b.key := by
  rw [violations]
  split
  · exact List.Pairwise.nil
  · exact Dependency.sorted_pairwise (nodup_eraseDups _)

/-- The violations depend on nothing but the latest declarations. -/
theorem MadeFrom.violations_eq {items items' : List (TypeDecl ⊕ UnitDecl)} {p q : Program}
    (hp : MadeFrom items p) (hq : MadeFrom items' q)
    (hlatest : ∀ n, latestUnder n (submissions items') = latestUnder n (submissions items))
    {core shell : List String} (hcore : core ≠ []) (hshell : shell ≠ []) :
    q.violations core shell = p.violations core shell := by
  have howner : ownerUnder (submissions items') = ownerUnder (submissions items) := by
    funext n
    rw [ownerUnder, recordUnder, hlatest, ownerUnder, recordUnder]
  have hirrefl : Std.Irrefl fun a b : Dependency => a.key < b.key := ⟨fun a => lt_irrefl a.key⟩
  have hantisymm : Std.Antisymm fun a b : Dependency => a.key < b.key :=
    ⟨fun a b hab hba => absurd hba (lt_asymm hab)⟩
  -- Strictly ascending lists are determined by their members.
  refine (q.violations_pairwise core shell).eq_of_mem_iff (p.violations_pairwise core shell)
    fun d => ?_
  rw [hq.mem_violations hcore hshell, hp.mem_violations hcore hshell, hlatest, howner]

/-- After any history, the violations are listed in strictly ascending order of unit, kind
    and target, and they are the edges by which a submitted unit of the core touches the
    shell. So a unit of the core has a violation exactly if some call, construction or
    field of it reaches into the shell, and if no unit was submitted twice, the list does
    not depend on the order of declarations. -/
theorem violations_are_shell_edges (edits : List Edit) {core shell : List String}
    (hcore : core ≠ []) (hshell : shell ≠ []) :
    let units := submissions (edits.flatMap Edit.items)
    let p := ({} : Program).editAll edits
    (p.violations core shell).Pairwise (fun a b => a.key < b.key) ∧
    (∀ d, d ∈ p.violations core shell ↔ ∃ u, latestUnder d.unit units = some u ∧
      InLayer core u.owner ∧ u.Touches (ownerUnder units) shell d.kind d.target) ∧
    (∀ n u, latestUnder n units = some u → InLayer core u.owner →
      ((∃ d ∈ p.violations core shell, d.unit = n) ↔ u.ReachesInto (ownerUnder units) shell)) ∧
    ∀ edits' : List Edit, (submissions (edits'.flatMap Edit.items)).Perm units →
      (units.map UnitDecl.qualifiedName).Nodup →
      (({} : Program).editAll edits').violations core shell = p.violations core shell := by
  intro units p
  have hmade := editAll_madeFrom edits
  have hmem : ∀ d, d ∈ p.violations core shell ↔ ∃ u, latestUnder d.unit units = some u ∧
      InLayer core u.owner ∧ u.Touches (ownerUnder units) shell d.kind d.target :=
    hmade.mem_violations hcore hshell
  refine ⟨p.violations_pairwise core shell, hmem, fun n u hu hwithin => ?_,
    fun edits' hperm hnodup => ?_⟩
  · rw [← UnitDecl.exists_touches_iff]
    constructor
    · rintro ⟨d, hd, rfl⟩
      rcases (hmem d).1 hd with ⟨v, hv, _, hedge⟩
      rw [hu, Option.some.injEq] at hv
      rw [hv]
      exact ⟨_, _, hedge⟩
    · rintro ⟨kind, t, hedge⟩
      exact ⟨{ unit := n, kind, target := t }, (hmem _).2 ⟨u, hu, hwithin, hedge⟩, rfl⟩
  · exact hmade.violations_eq (editAll_madeFrom edits') (latestUnder_perm hperm hnodup) hcore hshell

/-- A unit of the core paints a window of the shell through a widget of the core, and has
    the widget flush the screen. -/
def paintedWindow : List Edit :=
  [.declare (.unit (((UnitDecl.method "core.App" "paint").calling "core.Widget"
      "shell.Window.paint()").calling "shell.Screen" "core.Widget.flush()")),
    .declare (.unit (UnitDecl.method "core.Widget" "flush"))]

/-- The first call is listed by its target and the second one by its owner. The widget
    touches nothing, and it might as well be declared first. -/
theorem violations_are_shell_edges_paintedWindow :
    let p := ({} : Program).editAll paintedWindow
    { unit := "core.App.paint()", kind := .call, target := "shell.Window.paint()" } ∈
      p.violations ["core."] ["shell."] ∧
    { unit := "core.App.paint()", kind := .call, target := "shell.Screen" } ∈
      p.violations ["core."] ["shell."] ∧
    (¬ ∃ d ∈ p.violations ["core."] ["shell."], d.unit = "core.Widget.flush()") ∧
    (({} : Program).editAll paintedWindow.reverse).violations ["core."] ["shell."] =
      p.violations ["core."] ["shell."] := by
  rcases violations_are_shell_edges paintedWindow (List.cons_ne_nil "core." [])
    (List.cons_ne_nil "shell." []) with ⟨_, hmem, hreaches, horder⟩
  have hpaint : latestUnder "core.App.paint()" (submissions (paintedWindow.flatMap Edit.items)) =
      some (((UnitDecl.method "core.App" "paint").calling "core.Widget"
        "shell.Window.paint()").calling "shell.Screen" "core.Widget.flush()") := by
    decide +kernel
  refine ⟨(hmem _).2 ⟨_, hpaint, by decide +kernel, ?_⟩,
    (hmem _).2 ⟨_, hpaint, by decide +kernel, ?_⟩, ?_,
    horder _ (by decide +kernel) (by decide +kernel)⟩
  · exact .target (c := { owner := "core.Widget", targets := ["shell.Window.paint()"] })
      (by decide +kernel) (by decide +kernel) (by decide +kernel)
  · exact .owner (c := { owner := "shell.Screen", targets := ["core.Widget.flush()"] })
      (by decide +kernel) (by decide +kernel) (by decide +kernel)
  · rw [hreaches _ (UnitDecl.method "core.Widget" "flush") (by decide +kernel) (by decide +kernel)]
    simp [UnitDecl.ReachesInto, UnitDecl.method]

end Program

end CoreShell
