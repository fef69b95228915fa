import CoreShell.Proofs.Mentions
import CoreShell.Proofs.Overriders
import Mathlib.Data.List.Induction

/-!
# Facts That Are Never Out of Date

Freezing a program takes its facts down only if something was declared since the
last time. Whether something was declared is noted by a flag, and every declaration
has to take it back. If one of them did not, the facts of an earlier program would be
served for a later one.

None of them fails to. So a program that counts as frozen answers who overrides a unit
as if it were asked about its declarations just now, and who writes a field as the
latest declarations say, without a unit that has written it once and no longer does.
To take the facts down at every occasion would not make a difference.

## Main definitions

* `Program.refreeze`: Freezing without a look at the flag.
* `Program.editAllAnew`: A history in which freezing never looks at the flag.

## Theorems

* `MadeFrom.exists_unit`: A unit that was submitted is known as its latest declaration.
* `MadeFrom.exists_reference`: A unit that was only mentioned is known by its name.
* `MadeFrom.mem_writersOf`: Who writes a field, by declarations.
* `editAll_eq_anew`: The flag only saves work.
* `frozen_facts_are_current`: The facts of a frozen program after any history.
-/

namespace CoreShell

namespace Program

theorem WellFormed.field_injective {p : Program} (hp : p.WellFormed) {f g : FieldId}
    (hf : f < p.fields.size) (hg : g < p.fields.size) (h : p.field f = p.field g) : f = g := by
  rcases getElem?_of_lt_size hf with ⟨x, hx⟩
  rcases getElem?_of_lt_size hg with ⟨y, hy⟩
  rw [field_of_getElem? hx, field_of_getElem? hy] at h
  exact hp.field_names f g x y hx hy h

/-- A unit lists a field exactly if its declaration does. -/
theorem WellFormed.mem_writes {p : Program} (hp : p.WellFormed) {u : CodeUnit} (hu : u ∈ p.units)
    {f : FieldId} (hf : f < p.fields.size) : p.field f ∈ (p.readUnit u).writes ↔ f ∈ u.writes := by
  have hrange := hp.units_inRange _ u (hp.getElem?_of_mem hu)
  constructor
  · intro hmem
    rcases List.mem_map.1 hmem with ⟨g, hg, heq⟩
    rw [← hp.field_injective (hrange.writes g hg) hf heq]
    exact hg
  · exact fun hmem => List.mem_map_of_mem hmem

/-- A unit is a writer of a field if it was submitted and lists the field. -/
theorem WellFormed.id_mem_writersOf {p : Program} (hp : p.WellFormed) (hindex : p.Indexed)
    {u : CodeUnit} (hu : u ∈ p.units) {f : FieldId} (hf : f < p.fields.size) :
    u.id ∈ p.writersOf f ↔ u.submitted = true ∧ f ∈ u.writes := by
  have hat := hp.getElem?_of_mem hu
  rw [Program.mem_writersOf hp hindex hf]
  constructor
  · rintro ⟨v, hv, hwrites⟩
    rw [hat, Option.some.injEq] at hv
    rw [hv]
    exact hwrites
  · exact fun hwrites => ⟨u, hat, hwrites⟩

/-- The writers of a field are listed in ascending order. -/
theorem writersOf_pairwise {p : Program} (hp : p.WellFormed) (hindex : p.Indexed) {f : FieldId}
    (hf : f < p.fields.size) : (p.writersOf f).Pairwise (· < ·) := by
  rw [writersOf_eq hindex hf, currentWriters]
  exact (units_pairwise hp).sublist (List.filter_sublist.map CodeUnit.id)

section MadeFrom

variable {items : List (TypeDecl ⊕ UnitDecl)} {p : Program} (h : MadeFrom items p)
include h

/-- A name that was mentioned is known as what the declarations tell about it. -/
theorem MadeFrom.exists_known {n : String}
    (hn : n ∈ (submissions items).flatMap UnitDecl.unitNames) :
    ∃ u ∈ p.units, u.qualified = n ∧
      { decl := p.readUnit u, submitted := u.submitted } = recordUnder (submissions items) n := by
  have hrecord := h.units n
  rw [if_pos hn, inventory] at hrecord
  rcases Option.map_eq_some_iff.1 hrecord with ⟨u, hu, heq⟩
  rcases of_entryAt_eq_some hu with ⟨hname, i, hi⟩
  exact ⟨u, Array.mem_of_getElem? hi, hname, heq⟩

/-- A unit that was submitted is known as its latest declaration. -/
theorem MadeFrom.exists_unit {n : String} {d : UnitDecl}
    (hd : latestUnder n (submissions items) = some d) :
    ∃ u ∈ p.units, u.qualified = n ∧ u.submitted = true ∧ p.readUnit u = d := by
  have hknown : n ∈ (submissions items).flatMap UnitDecl.unitNames :=
    List.mem_flatMap.2 ⟨d, mem_of_latestUnder hd,
      qualifiedName_of_latestUnder hd ▸ List.mem_cons_self⟩
  rcases h.exists_known hknown with ⟨u, hu, hname, hrecord⟩
  rw [recordUnder, hd, UnitRecord.mk.injEq] at hrecord
  exact ⟨u, hu, hname, hrecord.2, hrecord.1⟩

/-- A unit that was mentioned and never submitted is known as what its name tells. -/
theorem MadeFrom.exists_reference {n : String}
    (hmention : ∃ e ∈ submissions items, n ∈ e.mentionedUnits)
    (hnever : ∀ e ∈ submissions items, e.qualifiedName ≠ n) :
    ∃ u ∈ p.units, u.qualified = n ∧ u.submitted = false ∧
      p.readUnit u = UnitDecl.ofReference n := by
  rcases hmention with ⟨e, he, hn⟩
  have hknown : n ∈ (submissions items).flatMap UnitDecl.unitNames :=
    List.mem_flatMap.2 ⟨e, he, List.mem_cons_of_mem _ hn⟩
  rcases h.exists_known hknown with ⟨u, hu, hname, hrecord⟩
  rw [recordUnder_of_forall_ne hnever, UnitRecord.mk.injEq] at hrecord
  exact ⟨u, hu, hname, hrecord.2, hrecord.1⟩

/-- The writers of a field are the units whose latest declarations list it. -/
theorem MadeFrom.mem_writersOf (hindex : p.Indexed) {i : FieldId} {f : FieldRef}
    (hf : p.fieldId? f = some i) (j : UnitId) :
    j ∈ p.writersOf i ↔ ∃ n d, p.unitId? n = some j ∧
      latestUnder n (submissions items) = some d ∧ f ∈ d.writes := by
  have hp := h.wellFormed
  rcases (findIdx?_eq_some_iff hp.field_names).1 hf with ⟨_, hat, rfl⟩
  have hlt := lt_size_of_getElem? hat
  rw [← field_of_getElem? hat]
  constructor
  · intro hj
    rcases (Program.mem_writersOf hp hindex hlt j).1 hj with ⟨u, hu, hsub, hwrites⟩
    have hmem := Array.mem_of_getElem? hu
    refine ⟨u.qualified, p.readUnit u, ?_, h.latest_of_submitted hmem hsub, ?_⟩
    · exact (findIdx?_eq_some_iff hp.unit_names).2 ⟨u, hu, rfl⟩
    · exact (hp.mem_writes hmem hlt).2 hwrites
  · rintro ⟨n, d, hj, hlatest, hwrites⟩
    rcases (findIdx?_eq_some_iff hp.unit_names).1 hj with ⟨u, hu, rfl⟩
    rcases h.exists_unit hlatest with ⟨v, hv, hname, hsub, rfl⟩
    -- Units are told apart by their names, so the one at `j` is the submitted one.
    rw [← hp.unit_names _ _ v u (hp.getElem?_of_mem hv) hu hname, hp.id_mem_writersOf hindex hv hlt]
    exact ⟨hsub, (hp.mem_writes hv hlt).1 hwrites⟩

end MadeFrom

/-- The program with facts that were taken down just now, whether or not it counts as
    frozen. -/
def refreeze (p : Program) : Program :=
  { p with index := p.buildIndex, frozen := true }

/-- The program after an edit, if freezing always takes down the facts. -/
def editAnew (p : Program) : Edit → Program
  | .declare d => p.declare d
  | .freeze => p.refreeze

/-- The program after a history in which freezing always takes down the facts. -/
def editAllAnew (p : Program) (edits : List Edit) : Program :=
  edits.foldl editAnew p

/-- If the flag is right, a look at it only saves work. -/
theorem freeze_eq_refreeze {p : Program} (h : p.frozen = true → p.Indexed) :
    p.freeze = p.refreeze := by
  rw [freeze, refreeze]
  by_cases hfrozen : p.frozen = true
  · rw [if_pos hfrozen, ← hfrozen, ← h hfrozen]
  · rw [if_neg hfrozen]

theorem editAll_eq_anew (edits : List Edit) :
    ({} : Program).editAll edits = ({} : Program).editAllAnew edits := by
  induction edits using List.reverseRecOn with
  | nil => rfl
  | append_singleton rest e ih =>
      have hlast : ({} : Program).editAllAnew (rest ++ [e]) =
          (({} : Program).editAll rest).editAnew e := by
        rw [ih, editAllAnew, List.foldl_concat, editAllAnew]
      rw [hlast, editAll, List.foldl_concat]
      cases e with
      | declare d => rfl
      | freeze => exact freeze_eq_refreeze (editAll_madeFrom rest).indexed

/-- After any history, a program that counts as frozen has facts that are right. Asked
    who overrides a unit, it answers what a registry would that was built just now. The
    writers of a field are listed in ascending order, and they are the units whose latest
    declarations list the field among their writes. So freezing a program gives what
    taking down the facts in any case would give, and this holds of whole histories,
    too. -/
theorem frozen_facts_are_current (edits : List Edit) :
    let p := ({} : Program).editAll edits
    (p.frozen = true →
      (∀ u, p.overridersOf u = p.buildRegistry.find u.signature) ∧
      ∀ f i, p.fieldId? f = some i → (p.writersOf i).Pairwise (· < ·) ∧
        ∀ j, j ∈ p.writersOf i ↔ ∃ n d, p.unitId? n = some j ∧
          latestUnder n (submissions (edits.flatMap Edit.items)) = some d ∧ f ∈ d.writes) ∧
    p.freeze = p.refreeze ∧ p = ({} : Program).editAllAnew edits := by
  have hmade := editAll_madeFrom edits
  have hp := hmade.wellFormed
  intro p
  refine ⟨fun hfrozen => ?_, freeze_eq_refreeze hmade.indexed, editAll_eq_anew edits⟩
  have hindex := hmade.indexed hfrozen
  refine ⟨fun u => ?_, fun f i hi => ⟨?_, hmade.mem_writersOf hindex hi⟩⟩
  · rw [overridersOf, hindex]
    rfl
  · rcases (findIdx?_eq_some_iff hp.field_names).1 hi with ⟨_, hat, _⟩
    exact writersOf_pairwise hp hindex (lt_size_of_getElem? hat)

/-- A constructor and a setter write a field, and the setter is declared again without
    the write. -/
def retiredSetter : List Edit :=
  [.declare (.unit ((UnitDecl.construct "a.Core").writing "a.Core" "talks")),
    .declare (.unit ((UnitDecl.method "a.Core" "setTalks").writing "a.Core" "talks")),
    .freeze,
    .declare (.unit (UnitDecl.method "a.Core" "setTalks")),
    .freeze]

/-- At the end, only the constructor is left of the two. -/
theorem frozen_facts_are_current_retiredSetter :
    let p := ({} : Program).editAll retiredSetter
    p.frozen = true ∧ p.fieldId? { owner := "a.Core", name := "talks" } = some 0 ∧
      p.writersOf 0 = [0] ∧ ∀ j, j ∈ p.writersOf 0 ↔ ∃ n d, p.unitId? n = some j ∧
        latestUnder n (submissions (retiredSetter.flatMap Edit.items)) = some d ∧
          { owner := "a.Core", name := "talks" } ∈ d.writes := by
  have hfrozen : (({} : Program).editAll retiredSetter).frozen = true := by decide +kernel
  have hfield : (({} : Program).editAll retiredSetter).fieldId?
      { owner := "a.Core", name := "talks" } = some 0 := by decide +kernel
  have hcurrent := (frozen_facts_are_current retiredSetter).1 hfrozen
  exact ⟨hfrozen, hfield, by decide +kernel, (hcurrent.2 _ _ hfield).2⟩

end Program

end CoreShell
