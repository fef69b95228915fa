import CoreShell.Proofs.History

/-!
# Sessions Before Their First Run

Until its first run, a session has every unit at its start: the grade that the
catalogue gives it, or none, and no floor. The tables grow with the program, one
submission at a time, and a unit that is submitted again goes back to a start it
has never left.

## Main definitions

* `Session.Untouched`: Every unit is where it starts.

## Theorems

* `Untouched.extend`: A submission puts new units at their start.
* `declareAll_untouched`: No declaration moves a unit from its start.
-/

namespace CoreShell

namespace Session

/-- The tables of a session before any run: every unit is where it starts. -/
structure Untouched (s : Session) : Prop where
  grades : s.grades = s.program.units.map s.initialGrade
  floors : s.floors = s.program.units.map fun _ => none
  pending : s.pending = []

end Session

namespace Program

/-- A table of the units that only looks at their names keeps its entries when
    the program learns of more units. -/
theorem map_units_append {α : Type} {p q : Program} (h : p.KeepsNames q) {f : CodeUnit → α}
    (hf : ∀ u v : CodeUnit, u.qualified = v.qualified → f u = f v) :
    p.units.map f ++ (q.units.extract p.units.size).map f = q.units.map f := by
  have hsize := h.units_size_le
  refine Array.ext_getElem? fun i => ?_
  -- An old unit may have a new record by now, but it has its old name.
  by_cases hi : i < p.units.size
  · rcases h.units i hi with ⟨hlt, hname⟩
    rcases getElem?_of_lt_size hi with ⟨u, hu⟩
    rcases getElem?_of_lt_size hlt with ⟨v, hv⟩
    rw [unitName_of_getElem? hu, unitName_of_getElem? hv] at hname
    rw [Array.getElem?_append_left (by rw [Array.size_map]; exact hi), Array.getElem?_map,
      Array.getElem?_map, hu, hv, Option.map_some, Option.map_some, hf v u hname]
  · have hge : p.units.size ≤ i := Nat.le_of_not_lt hi
    rw [Array.getElem?_append_right (by rw [Array.size_map]; exact hge), Array.size_map,
      Array.getElem?_map, Array.getElem?_map, Array.getElem?_extract]
    by_cases hlt : i < q.units.size
    · rw [if_pos (by omega), Nat.add_sub_cancel' hge]
    · rw [if_neg (by omega), Array.getElem?_eq_none (Nat.le_of_not_lt hlt)]

theorem submit_keepsNames {p : Program} (hp : p.WellFormed) (d : UnitDecl) :
    p.KeepsNames (p.submit d).1 := by
  rcases submit_prepared hp d with ⟨q, owner, id, body, hq, hsubmit⟩
  rw [hsubmit]
  exact keepsNames_trans hq.keepsNames (keepsNames_modifyUnit q id _ fun _ => rfl)

theorem internAll_internType_units (p : Program) (names : List String) :
    (internAll internType p names).1.units = p.units := by
  induction names generalizing p with
  | nil => rfl
  | cons name rest ih => exact ih (p.internType name).1

theorem declareType_units (p : Program) (d : TypeDecl) :
    (p.declareType d).1.units = p.units :=
  internAll_internType_units (p.internType d.name).1 d.supertypes

end Program

namespace Session

/-- Writing down what is there changes nothing. -/
theorem setIfInBounds_self {α : Type} {xs : Array α} {i : Nat} {a : α}
    (h : ∀ b, xs[i]? = some b → a = b) : xs.setIfInBounds i a = xs := by
  refine Array.ext_getElem? fun j => ?_
  rw [Array.getElem?_setIfInBounds]
  by_cases hij : i = j
  · subst hij
    rw [if_pos rfl]
    by_cases hlt : i < xs.size
    · rcases getElem?_of_lt_size hlt with ⟨b, hb⟩
      rw [if_pos hlt, hb, h b hb]
    · rw [if_neg hlt, Array.getElem?_eq_none (Nat.le_of_not_lt hlt)]
  · rw [if_neg hij]

theorem Untouched.declareType {s : Session} (hs : s.Untouched) (d : TypeDecl) :
    (s.declareType d).Untouched := by
  have hunits := Program.declareType_units s.program d
  refine ⟨?_, ?_, hs.pending⟩
  · exact hs.grades.trans (by rw [Session.declareType, hunits]; rfl)
  · exact hs.floors.trans (by rw [Session.declareType, hunits])

/-- Units that a submission makes known get their start, and so does the unit
    itself. -/
theorem Untouched.extend {s : Session} (hs : s.Untouched) {q : Program}
    (hkeeps : s.program.KeepsNames q) (id : UnitId) :
    (({ s with program := q } : Session).extendTables.resetUnit id).Untouched := by
  have hsize : s.grades.size = s.program.units.size := by rw [hs.grades, Array.size_map]
  have hgrades : s.grades ++ (q.units.extract s.grades.size).map s.initialGrade =
      q.units.map s.initialGrade := by
    rw [hsize, hs.grades]
    exact Program.map_units_append hkeeps fun u v h => by rw [initialGrade, initialGrade, h]
  have hfloors : s.floors ++ (q.units.extract s.grades.size).map (fun _ => none) =
      q.units.map fun _ => (none : Option Grade) := by
    rw [hsize, hs.floors]
    exact Program.map_units_append hkeeps fun _ _ _ => rfl
  refine ⟨?_, ?_, ?_⟩
  -- The unit is put back to its start, where it is already.
  · refine (congrArg (Array.setIfInBounds · id _) hgrades).trans (setIfInBounds_self fun g hg => ?_)
    rw [Array.getElem?_map] at hg
    change (q.units[id]?.map s.initialGrade).getD _ = g
    rw [hg, Option.getD_some]
  · refine (congrArg (Array.setIfInBounds · id _) hfloors).trans
      (setIfInBounds_self fun floor hfloor => ?_)
    rw [Array.getElem?_map, Option.map_eq_some_iff] at hfloor
    rcases hfloor with ⟨_, _, hnone⟩
    exact hnone
  · simp only [resetUnit, extendTables, hs.pending, List.filter_nil]

/-- Before its first run, a session has the tables that the run starts over
    with. -/
theorem declareAll_untouched (axis : Axis) (catalog : Catalog) (scope : List String)
    (ds : List Declaration) : ((start axis catalog scope).declareAll ds).Untouched := by
  suffices h : ∀ s : Session, s.program.WellFormed → s.Untouched → (s.declareAll ds).Untouched from
    h _ Program.wellFormed_empty ⟨by simp [start], by simp [start], rfl⟩
  induction ds with
  | nil => exact fun s _ hs => hs
  | cons d rest ih =>
      intro s hp hs
      -- Only a well-formed program keeps its names, so both go along.
      have hdeclare := declare_induction (P := fun s _ => s.program.WellFormed ∧ s.Untouched)
        (fun s _ d h => ⟨Program.declareType_wellFormed h.1 d, h.2.declareType d⟩)
        (fun s _ d h => ⟨Program.submit_wellFormed h.1 d,
          h.2.extend (Program.submit_keepsNames h.1 d) _⟩)
        (p := s.program) ⟨hp, hs⟩ d
      exact ih (s.declare d) hdeclare.1 hdeclare.2

end Session

end CoreShell
