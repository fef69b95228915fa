import CoreShell.Proofs.Alike
import CoreShell.Proofs.Derivation

/-!
# The Order of Declarations

Declarations without a common name can be made in any order. The programs they
lead to have the same inventory, so their units are twins, and a derivation for
one twin turns into one for the other. A run computes derivations and nothing
else, so both runs end with the same grades under every name, and whatever
depends on grades and declarations only is the same as well.

## Main definitions

* `Program.carry`: Grades carried over from twins.
* `Session.gradeNamed`: The grade under a name.

## Theorems

* `Compatible.derives`: Derivations carry over to twins.
* `Outcome.gradeOf_eq`: Twins end with the same grade.
* `run_order_irrelevant`: Nothing about a run depends on the order.
-/

namespace CoreShell

namespace Program

/-- A unit is found under its own name. -/
theorem unitId?_eq_some_iff {p : Program} (hp : p.WellFormed) {name : String} {i : UnitId} :
    p.unitId? name = some i ↔ ∃ u, p.units[i]? = some u ∧ u.qualified = name :=
  findIdx?_eq_some_iff hp.unit_names

/-- The grades of one program, carried over to the twins in another. -/
def carry (p q : Program) (grade : UnitId → Grade) (j : UnitId) : Grade :=
  match q.units[j]?.bind fun v => p.unitId? v.qualified with
  | some i => grade i
  | none => .unchecked

theorem carry_eq {p q : Program} (hp : p.WellFormed) {i j : UnitId} (hij : SameUnit p q i j)
    (grade : UnitId → Grade) : carry p q grade j = grade i := by
  rcases hij with ⟨u, v, hu, hv, heq⟩
  have hfind : p.unitId? v.qualified = some i := (unitId?_eq_some_iff hp).2 ⟨u, hu, heq⟩
  rw [carry, hv, Option.bind_some, hfind]

theorem exists_of_carry {p q : Program} (hp : p.WellFormed) {grade : UnitId → Grade} {j : UnitId}
    (h : (carry p q grade j).isFinal = true) : ∃ i, SameUnit p q i j := by
  rcases hv : q.units[j]? with _ | v
  · rw [carry, hv] at h
    exact absurd h Bool.false_ne_true
  · rcases hi : p.unitId? v.qualified with _ | i
    · rw [carry, hv, Option.bind_some, hi] at h
      exact absurd h Bool.false_ne_true
    · rcases (unitId?_eq_some_iff hp).1 hi with ⟨u, hu, heq⟩
      exact ⟨i, u, v, hu, hv, heq⟩

/-- Derivations carry over to twins. -/
theorem Compatible.derives {p q : Program} (h : Compatible p q) {axis : Axis} {catalog : Catalog}
    {i : UnitId} {g : Grade} (hd : Derives axis catalog p i g) {j : UnitId}
    (hij : SameUnit p q i j) : Derives axis catalog q j g := by
  refine hd.induction (P := fun i g => ∀ j, SameUnit p q i j → Derives axis catalog q j g)
    ?_ ?_ j hij
  · intro i u g hu hlist j hij
    rcases h.twins hij with ⟨u', v, rfl, rfl, hw⟩
    rw [hw.left, Option.some.injEq] at hu
    subst hu
    exact .listed hw.right (by rw [← hw.qualified, hlist])
  · intro i u g grade hsubject hknown hverdict j hij
    rcases h.twins hij with ⟨u', v, rfl, rfl, hw⟩
    have hu := hsubject.unit
    rw [hw.left, Option.some.injEq] at hu
    subst hu
    -- The verdict rests on grades for units of `p`; `q` gets those of their twins.
    refine .of_verdict ⟨hw.right, ?_, ?_⟩ (fun k hk => ?_)
      (hw.verdict (fun a b hab => (carry_eq h.left hab grade).symm) h hsubject.submitted hverdict)
    · rw [← hw.submitted]
      exact hsubject.submitted
    · rw [← hw.qualified]
      exact hsubject.unlisted
    · rcases exists_of_carry h.left hk with ⟨a, hak⟩
      rw [carry_eq h.left hak] at hk ⊢
      exact hknown a hk k hak

end Program

open Program (Alike Compatible SameUnit Twins)

namespace Session

/-- The grade under a name. -/
def gradeNamed (s : Session) (name : String) : Option Grade :=
  (s.program.unitId? name).map s.gradeOf

@[simp]
theorem finish_gradeNamed (r : Progress) (bound : Nat) :
    (r.finish bound).gradeNamed = r.session.gradeNamed := by
  rw [r.finish_eq]
  rfl

theorem query_eq (s : Session) (name : String) :
    s.query name =
      match s.gradeNamed name with
      | some g => .ok g
      | none => .error (.notRegistered name) := by
  rw [query, gradeNamed]
  cases s.program.unitId? name <;> rfl

/-- The grades are those of the units, in order. -/
theorem Current.grades_eq {s : Session} (hs : s.Current) :
    s.grades.toList = s.program.units.toList.map fun u => s.gradeOf u.id := by
  refine List.ext_getElem? fun i => ?_
  rw [List.getElem?_map, Array.getElem?_toList, Array.getElem?_toList]
  rcases hu : s.program.units[i]? with _ | u
  · rw [Array.getElem?_eq_none_iff] at hu
    rw [Option.map_none, Array.getElem?_eq_none_iff, hs.grades_size]
    exact hu
  · rw [Option.map_some, hs.id_eq hu, gradeOf, gradeAt, Array.getD_eq_getD_getElem?,
      Array.getElem?_eq_getElem (hs.id_lt_grades hu), Option.getD_some]

/-- The counts are those of the grades under all names. -/
theorem Current.countOf_eq {s : Session} (hs : s.Current) (g : Grade) :
    s.countOf g = (s.program.units.toList.map CodeUnit.qualified).countP
      fun name => s.gradeNamed name = some g := by
  rw [countOf, hs.grades_eq, List.countP_map, List.countP_map]
  refine List.countP_congr fun u hu => ?_
  have hfind := (Program.unitId?_eq_some_iff hs.wellFormed).2 ⟨u, hs.wellFormed.mem_units.1 hu, rfl⟩
  simp only [Function.comp_apply, gradeNamed, hfind, Option.map_some, Option.some.injEq]

/-- The units that wait on their overriders at the end. -/
theorem Current.mem_pending {s : Session} (hs : s.Current) {id : UnitId} :
    id ∈ s.pending ↔ ∃ u, s.program.units[id]? = some u ∧ s.gradeOf id = .unsure ∧
      s.axis.judge s.program u = .dispatch := by
  constructor
  · intro hpending
    rcases hs.opened_of_pending hpending with ⟨u, hsubject, hgrade, hjudge⟩
    exact ⟨u, hsubject.unit, hgrade, hjudge⟩
  · rintro ⟨u, hu, hgrade, hjudge⟩
    -- An unsure unit that is not pending waits on its calls, not on overriders.
    by_contra hclosed
    rcases hs.waiting_of_unsure hu hgrade hclosed with ⟨floor, _, hjudge', _⟩
    exact absurd (hjudge.symm.trans hjudge') (by simp)

theorem Current.pendingNames_nodup {s : Session} (hs : s.Current) :
    (s.pending.map s.program.unitName).Nodup := by
  have hpending : s.pending.Nodup := hs.pending_sorted.imp fun h => Nat.ne_of_lt h
  refine hpending.map_on fun i hi j hj heq => ?_
  rcases hs.mem_pending.1 hi with ⟨u, hu, _⟩
  rcases hs.mem_pending.1 hj with ⟨v, hv, _⟩
  rw [Program.unitName_of_getElem? hu, Program.unitName_of_getElem? hv] at heq
  exact hs.wellFormed.unit_names i j u v hu hv heq

/-- Two sessions that classify alike programs in the same way, at the end of
    their rounds. -/
structure Comparable (r r' : Session) : Prop where
  alike : Alike r.program r'.program
  axis : r.axis = r'.axis
  catalog : r.catalog = r'.catalog
  scope : r.log.scope = r'.log.scope
  left : r.Current
  right : r'.Current
  grades : ∀ i j, SameUnit r.program r'.program i j → r.gradeOf i = r'.gradeOf j

theorem Comparable.symm {r r' : Session} (h : Comparable r r') : Comparable r' r :=
  ⟨h.alike.symm, h.axis.symm, h.catalog.symm, h.scope.symm, h.right, h.left,
    fun i j hij => (h.grades j i hij.symm).symm⟩

/-- Twins end with the same grade. -/
theorem Outcome.gradeOf_eq {s s' r r' : Session} (h : s.Outcome r) (h' : s'.Outcome r')
    (haxis : s.axis = s'.axis) (hcatalog : s.catalog = s'.catalog)
    (hcompatible : Compatible s.program.freeze s'.program.freeze) {i j : UnitId}
    (hij : SameUnit s.program.freeze s'.program.freeze i j) : r.gradeOf i = r'.gradeOf j := by
  have hleft := h.derives_iff i
  have hright := h'.derives_iff j
  rw [← haxis, ← hcatalog] at hright
  by_cases hfinal : (r.gradeOf i).isFinal = true
  · have hderives := hcompatible.derives ((hleft _).2 ⟨rfl, hfinal⟩) hij
    exact ((hright _).1 hderives).1.symm
  by_cases hfinal' : (r'.gradeOf j).isFinal = true
  · have hderives := hcompatible.symm.derives ((hright _).2 ⟨rfl, hfinal'⟩) hij.symm
    exact ((hleft _).1 hderives).1
  · -- Neither is decided, so only whether they were submitted counts.
    rcases hcompatible.twins hij with ⟨u, v, rfl, rfl, hw⟩
    rw [Bool.not_eq_true] at hfinal hfinal'
    rw [h.stable.gradeOf_of_not_final h.current (h.program_eq ▸ hw.left) hfinal,
      h'.stable.gradeOf_of_not_final h'.current (h'.program_eq ▸ hw.right) hfinal', hw.submitted]

namespace Comparable

variable {r r' : Session} (h : Comparable r r')
include h

theorem exists_twins {i : UnitId} {u : CodeUnit} (hu : r.program.units[i]? = some u) :
    ∃ v, u.id = i ∧ Twins r.program r'.program u v ∧ r.gradeOf i = r'.gradeOf v.id := by
  have hid := h.left.id_eq hu
  subst hid
  rcases h.alike.exists_sameUnit hu with ⟨j, hj⟩
  rcases h.alike.compatible.twins_of_left hu hj with ⟨v, hw⟩
  exact ⟨v, rfl, hw, h.grades _ _ hw.sameUnit⟩

theorem mem_names {name : String} (hname : name ∈ r.program.units.toList.map CodeUnit.qualified) :
    name ∈ r'.program.units.toList.map CodeUnit.qualified := by
  rcases List.mem_map.1 hname with ⟨u, hu, rfl⟩
  rcases h.exists_twins (h.left.wellFormed.mem_units.1 hu) with ⟨v, _, hw, _⟩
  exact List.mem_map.2 ⟨v, h.right.mem_units hw.right, hw.qualified.symm⟩

/-- The same names are known. -/
theorem names_perm : (r.program.units.toList.map CodeUnit.qualified).Perm
    (r'.program.units.toList.map CodeUnit.qualified) := by
  refine (List.perm_ext_iff_of_nodup (distinct_nodup h.left.wellFormed.unit_names)
    (distinct_nodup h.right.wellFormed.unit_names)).2 fun name => ?_
  exact ⟨h.mem_names, h.symm.mem_names⟩

theorem gradeNamed_of_some {name : String} {g : Grade} (hg : r.gradeNamed name = some g) :
    r'.gradeNamed name = some g := by
  rcases Option.map_eq_some_iff.1 hg with ⟨i, hi, rfl⟩
  rcases (Program.unitId?_eq_some_iff h.left.wellFormed).1 hi with ⟨u, hu, rfl⟩
  rcases h.exists_twins hu with ⟨v, _, hw, hgrade⟩
  have hfind := (Program.unitId?_eq_some_iff h.right.wellFormed).2 ⟨v, hw.right, hw.qualified.symm⟩
  rw [gradeNamed, hfind, Option.map_some, hgrade]

/-- Every name has the same grade. -/
theorem gradeNamed_eq : r.gradeNamed = r'.gradeNamed := by
  funext name
  exact Option.ext fun g => ⟨h.gradeNamed_of_some, h.symm.gradeNamed_of_some⟩

theorem judge_eq {u v : CodeUnit} (hw : Twins r.program r'.program u v) :
    r.axis.judge r.program u = r'.axis.judge r'.program v := by
  rw [h.axis]
  exact hw.judge_eq h.alike.compatible r'.axis

theorem mem_pendingNames {name : String} (hname : name ∈ r.pending.map r.program.unitName) :
    name ∈ r'.pending.map r'.program.unitName := by
  rcases List.mem_map.1 hname with ⟨i, hi, rfl⟩
  rcases h.left.mem_pending.1 hi with ⟨u, hu, hgrade, hjudge⟩
  rcases h.exists_twins hu with ⟨v, _, hw, heq⟩
  refine List.mem_map.2 ⟨v.id, h.right.mem_pending.2 ⟨v, hw.right, ?_, ?_⟩, ?_⟩
  · rw [← heq, hgrade]
  · rw [← h.judge_eq hw, hjudge]
  · rw [Program.unitName_of_getElem? hw.right, Program.unitName_of_getElem? hu, hw.qualified]

/-- The same units wait on their overriders. -/
theorem pending_perm : (r.pending.map r.program.unitName).Perm
    (r'.pending.map r'.program.unitName) :=
  (List.perm_ext_iff_of_nodup h.left.pendingNames_nodup h.right.pendingNames_nodup).2
    fun _ => ⟨h.mem_pendingNames, h.symm.mem_pendingNames⟩

theorem countOf_eq (g : Grade) : r.countOf g = r'.countOf g := by
  rw [h.left.countOf_eq, h.right.countOf_eq, h.gradeNamed_eq]
  exact h.names_perm.countP_eq _

theorem counts_eq : r.counts = r'.counts := by
  have hlength := h.pending_perm.length_eq
  rw [List.length_map, List.length_map] at hlength
  simp only [counts, h.countOf_eq, hlength]

theorem inScope_eq (owner : String) : r.log.inScope owner = r'.log.inScope owner := by
  rw [Log.inScope, Log.inScope, h.scope]

/-- The same is to be said of failing units. -/
theorem failing {key : String × String × Reason} (hkey : r.Failing key) : r'.Failing key := by
  rcases hkey with ⟨i, u, hsubject, hfails, hscope, rfl⟩
  rcases h.exists_twins hsubject.unit with ⟨v, _, hw, heq⟩
  have howner : r.program.typeName u.owner = r'.program.typeName v.owner :=
    congrArg UnitDecl.owner hw.decl
  refine ⟨v.id, v, ⟨hw.right, ?_, ?_⟩, heq.symm.trans hfails, ?_, ?_⟩
  · rw [← hw.submitted]
    exact hsubject.submitted
  · rw [← hw.qualified, ← h.catalog]
    exact hsubject.unlisted
  · rw [← howner, ← h.inScope_eq]
    exact hscope
  · simp only [lineOf, failureReason, howner, hw.qualified, h.judge_eq hw]

/-- The same is to be said of unsure units. -/
theorem unsettled {key : String × String × Reason} (hkey : r.Unsettled key) :
    r'.Unsettled key := by
  rcases hkey with ⟨i, u, hu, hunsure, hscope, rfl⟩
  rcases h.exists_twins hu with ⟨v, _, hw, heq⟩
  have howner : r.program.typeName u.owner = r'.program.typeName v.owner :=
    congrArg UnitDecl.owner hw.decl
  refine ⟨v.id, v, hw.right, heq.symm.trans hunsure, ?_, ?_⟩
  · rw [← howner, ← h.inScope_eq]
    exact hscope
  · rw [howner, hw.qualified]

end Comparable

/-- Declarations without a common name lead to alike programs in any order. -/
theorem alike_of_perm {axis : Axis} {catalog : Catalog} {scope : List String}
    {ds ds' : List Declaration} {s s' : Session} (h : Declared axis catalog scope ds s)
    (h' : Declared axis catalog scope ds' s') (hperm : ds.Perm ds')
    (htypes : ((ds.flatMap Declaration.types).map TypeDecl.name).Nodup)
    (hunits : ((ds.flatMap Declaration.units).map UnitDecl.qualifiedName).Nodup) :
    Alike s.program.freeze s'.program.freeze := by
  refine ⟨Program.freeze_wellFormed h.lawful.wellFormed,
    Program.freeze_wellFormed h'.lawful.wellFormed, Program.freeze_indexed h.frozen,
    Program.freeze_indexed h'.frozen, ?_⟩
  rw [Program.freeze_inventory, Program.freeze_inventory, h.program_eq, h'.program_eq,
    (Program.declareAll_inventory Program.wellFormed_empty ds).2,
    (Program.declareAll_inventory Program.wellFormed_empty ds').2]
  exact Inventory.declareAll_perm _ hperm htypes hunits

theorem Outcome.comparable {s s' r r' : Session} (h : s.Outcome r) (h' : s'.Outcome r')
    (haxis : s.axis = s'.axis) (hcatalog : s.catalog = s'.catalog)
    (hscope : s.log.scope = s'.log.scope)
    (halike : Alike s.program.freeze s'.program.freeze) : Comparable r r' := by
  refine ⟨?_, ?_, ?_, ?_, h.current, h'.current, fun i j hij => ?_⟩
  · rw [h.program_eq, h'.program_eq]
    exact halike
  · rw [h.axis_eq, h'.axis_eq, haxis]
  · rw [h.catalog_eq, h'.catalog_eq, hcatalog]
  · rw [h.scope_eq, h'.scope_eq, hscope]
  · rw [h.program_eq, h'.program_eq] at hij
    exact h.gradeOf_eq h' haxis hcatalog halike.compatible hij

/-- What the logs say at the end, apart from the order and the messages. -/
theorem Comparable.keys_perm {r r' : Progress} (h : Comparable r.session r'.session)
    (hr : r.converged = true) (hr' : r'.converged = true) (hb : r.session.Balanced)
    (hb' : r'.session.Balanced) (bound bound' : Nat) :
    ((r.finish bound).log.entries.map Diagnostic.key).Perm
      ((r'.finish bound').log.entries.map Diagnostic.key) := by
  -- No unit is named twice, so the lists can be compared by their members.
  have hnodup : ∀ {l : List Diagnostic}, (l.map Diagnostic.unit).Nodup →
      (l.map Diagnostic.key).Nodup := by
    intro l hl
    refine List.Nodup.of_map (fun key : String × String × Reason => key.2.1) ?_
    rw [List.map_map]
    exact hl
  refine (List.perm_ext_iff_of_nodup (hnodup (r.finish_nodup hr h.left hb bound))
    (hnodup (r'.finish_nodup hr' h.right hb' bound'))).2 fun key => ?_
  rw [r.finish_keys hr h.left hb, r'.finish_keys hr' h.right hb']
  exact ⟨Or.imp h.failing h.unsettled, Or.imp h.symm.failing h.symm.unsettled⟩

/-- Declare types of different names and units of different names in any two
    orders, and run without a limit. Both runs succeed, know the same units,
    give every name the same grade, leave the same units waiting on overriders,
    count the same, and report the same units for the same reasons. -/
theorem run_order_irrelevant (axis : Axis) (catalog : Catalog) (scope : List String)
    {ds ds' : List Declaration} (hperm : ds.Perm ds')
    (htypes : ((ds.flatMap Declaration.types).map TypeDecl.name).Nodup)
    (hunits : ((ds.flatMap Declaration.units).map UnitDecl.qualifiedName).Nodup) :
    ∃ t summary t' summary',
      ((start axis catalog scope).declareAll ds).run = .ok (t, summary) ∧
      ((start axis catalog scope).declareAll ds').run = .ok (t', summary') ∧
      (t.program.units.toList.map CodeUnit.qualified).Perm
        (t'.program.units.toList.map CodeUnit.qualified) ∧
      (∀ name, t.query name = t'.query name) ∧
      (t.pending.map t.program.unitName).Perm (t'.pending.map t'.program.unitName) ∧
      summary.counts = summary'.counts ∧ t.counts = t'.counts ∧
      (t.log.entries.map Diagnostic.key).Perm (t'.log.entries.map Diagnostic.key) := by
  have hs := start_declareAll axis catalog scope ds
  have hs' := start_declareAll axis catalog scope ds'
  rcases run_outcome hs.lawful hs.frozen hs.maxRounds_eq with
    ⟨r, summary, hrun, hcounts, hr, houtcome⟩
  rcases run_outcome hs'.lawful hs'.frozen hs'.maxRounds_eq with
    ⟨r', summary', hrun', hcounts', hr', houtcome'⟩
  -- Both runs end stable, so all that is left is to compare what they ended with.
  have h := houtcome.comparable houtcome' (hs.axis_eq.trans hs'.axis_eq.symm)
    (hs.catalog_eq.trans hs'.catalog_eq.symm) (hs.scope_eq.trans hs'.scope_eq.symm)
    (alike_of_perm hs hs' hperm htypes hunits)
  have hkeys := h.keys_perm hr hr' houtcome.balanced houtcome'.balanced
  refine ⟨_, summary, _, summary', hrun, hrun', ?_, fun name => ?_, ?_, ?_, ?_, hkeys _ _⟩
  · rw [r.finish_program, r'.finish_program]
    exact h.names_perm
  · rw [query_eq, query_eq, finish_gradeNamed, finish_gradeNamed, h.gradeNamed_eq]
  · rw [r.finish_program, r'.finish_program, r.finish_pending, r'.finish_pending]
    exact h.pending_perm
  · rw [hcounts, hcounts', r.finish_counts, r'.finish_counts, h.counts_eq]
  · rw [r.finish_counts, r'.finish_counts, h.counts_eq]

/-- An interface, a unit behind it, and an opaque unit behind that one. -/
def shapes : List Declaration :=
  [.type (TypeDecl.interface "a.Shape"),
    .unit (UnitDecl.method "a.Shape" "area").asAbstract,
    .type ((TypeDecl.concrete "a.Disc").extending "a.Shape"),
    .unit ((UnitDecl.method "a.Disc" "area").calling "a.Log" "a.Log.write()"),
    .unit (UnitDecl.method "a.Log" "write").asNative]

/-- Backwards, every reference comes before what it refers to. -/
theorem run_order_irrelevant_shapes :
    shapes.Perm shapes.reverse ∧ ∃ t summary t' summary',
      ((start .purity {} []).declareAll shapes).run = .ok (t, summary) ∧
      ((start .purity {} []).declareAll shapes.reverse).run = .ok (t', summary') ∧
      (∀ name, t.query name = t'.query name) ∧
      (t.log.entries.map Diagnostic.key).Perm (t'.log.entries.map Diagnostic.key) := by
  have hperm := (List.reverse_perm shapes).symm
  rcases run_order_irrelevant .purity {} [] hperm (by decide +kernel) (by decide +kernel) with
    ⟨t, summary, t', summary', hrun, hrun', _, hquery, _, _, _, hkeys⟩
  exact ⟨hperm, t, summary, t', summary', hrun, hrun', hquery, hkeys⟩

end Session

end CoreShell
