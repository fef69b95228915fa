import CoreShell.Proofs.Declaring
import CoreShell.Proofs.Facts

/-!
# Histories of a Program

What can happen to a program: types are declared, units are submitted, whole
graphs are loaded, and the program is frozen, in any order and any number. The
single declarations of a history, one after the other, are all that is left of
it in the program. Freezing adds nothing to what is known, and the facts that it
takes down are out of date with the next declaration, so a program that counts as
frozen has an index that is right.

What a program knows of a unit can therefore be read off the declarations. It is
the latest one under the name of the unit, or what the name tells if there is
none. `MadeFrom` says so, and the induction that leads to it is packed into
`editAll_induction`: one case for a type, one for a unit, one for freezing.

## Main definitions

* `Edit`: What can happen to a program.
* `Program.editAll`: A whole history.
* `submissions`, `latestUnder`: The units that were submitted, and the one that
  counts for a name.
* `Program.MadeFrom`: A program that declarations have led to.

## Theorems

* `editAll_induction`: What every declaration and every freeze keeps.
* `freeze_indexed_of_current`: A program that was just frozen has a right index.
* `latestUnder_perm`: Distinct names can be submitted in any order.
* `editAll_madeFrom`: Every history leads to what it declares.
* `MadeFrom.record_eq`: What is known of a unit.
-/

namespace CoreShell

/-- What can happen to a program. -/
inductive Edit where
  | declare (declaration : Declaration)
  | freeze
deriving DecidableEq

/-- The single declarations of an edit, in order. -/
def Edit.items : Edit → List (TypeDecl ⊕ UnitDecl)
  | declare d => d.items
  | freeze => []

namespace Program

/-- The program after an edit. -/
def edit (p : Program) : Edit → Program
  | .declare d => p.declare d
  | .freeze => p.freeze

/-- The program after a history. -/
def editAll (p : Program) (edits : List Edit) : Program :=
  edits.foldl edit p

section Induction

variable {P : Program → List (TypeDecl ⊕ UnitDecl) → Prop}

/-- What a step adds a declaration to, a pass of the step adds a list of them
    to. -/
theorem foldl_items {α : Type} {step : Program → α → Program} {item : α → TypeDecl ⊕ UnitDecl}
    (hstep : ∀ p items a, P p items → P (step p a) (items ++ [item a])) {p : Program}
    {items : List (TypeDecl ⊕ UnitDecl)} (h : P p items) (as : List α) :
    P (as.foldl step p) (items ++ as.map item) := by
  induction as generalizing p items with
  | nil =>
      rw [List.map_nil, List.append_nil]
      exact h
  | cons a rest ih =>
      have hrest := ih (hstep p items a h)
      rw [List.append_assoc] at hrest
      exact hrest

/-- What holds of a program and its declarations with every further type, with
    every further unit and after freezing, holds of them after any history. -/
theorem editAll_induction
    (htype : ∀ p items d, P p items → P (p.declareType d).1 (items ++ [.inl d]))
    (hunit : ∀ p items d, P p items → P (p.submit d).1 (items ++ [.inr d]))
    (hfreeze : ∀ p items, P p items → P p.freeze items) {p : Program}
    {items : List (TypeDecl ⊕ UnitDecl)} (h : P p items) (edits : List Edit) :
    P (p.editAll edits) (items ++ edits.flatMap Edit.items) := by
  induction edits generalizing p items with
  | nil =>
      rw [List.flatMap_nil, List.append_nil]
      exact h
  | cons e rest ih =>
      rw [List.flatMap_cons, ← List.append_assoc]
      refine ih (p := p.edit e) ?_
      cases e with
      | declare d =>
          -- Every declaration is a list of types and then a list of units.
          have hboth := foldl_items hunit (foldl_items htype h d.types) d.units
          rw [List.append_assoc] at hboth
          cases d <;> exact hboth
      | freeze =>
          rw [Edit.items, List.append_nil]
          exact hfreeze p items h

end Induction

/-- A program that was just frozen has a right index, whether or not freezing it
    had anything to do. -/
theorem freeze_indexed_of_current {p : Program} (h : p.frozen = true → p.Indexed) :
    p.freeze.Indexed := by
  by_cases hfrozen : p.frozen = true
  · rw [freeze, if_pos hfrozen]
    exact h hfrozen
  · exact freeze_indexed (by simpa using hfrozen)

end Program

/-- The units among single declarations, in order. -/
def submissions (items : List (TypeDecl ⊕ UnitDecl)) : List UnitDecl :=
  items.filterMap Sum.getRight?

@[simp]
theorem submissions_append_type (items : List (TypeDecl ⊕ UnitDecl)) (d : TypeDecl) :
    submissions (items ++ [.inl d]) = submissions items := by
  simp [submissions]

@[simp]
theorem submissions_append_unit (items : List (TypeDecl ⊕ UnitDecl)) (d : UnitDecl) :
    submissions (items ++ [.inr d]) = submissions items ++ [d] := by
  simp [submissions]

/-- The last of some units that was submitted under a qualified name. -/
def latestUnder (n : String) (units : List UnitDecl) : Option UnitDecl :=
  units.reverse.find? fun d => d.qualifiedName = n

theorem latestUnder_append (n : String) (units : List UnitDecl) (d : UnitDecl) :
    latestUnder n (units ++ [d]) =
      if d.qualifiedName = n then some d else latestUnder n units := by
  rw [latestUnder, List.reverse_append, List.reverse_singleton, List.singleton_append,
    List.find?_cons]
  by_cases h : d.qualifiedName = n
  · simp only [h, decide_true, if_true]
  · simp only [h, decide_false, if_false, latestUnder]

theorem latestUnder_eq_none {n : String} {units : List UnitDecl} :
    latestUnder n units = none ↔ ∀ d ∈ units, d.qualifiedName ≠ n := by
  simp [latestUnder]

theorem qualifiedName_of_latestUnder {n : String} {units : List UnitDecl} {d : UnitDecl}
    (h : latestUnder n units = some d) : d.qualifiedName = n := by
  simpa using List.find?_some h

theorem mem_of_latestUnder {n : String} {units : List UnitDecl} {d : UnitDecl}
    (h : latestUnder n units = some d) : d ∈ units :=
  List.mem_reverse.1 (List.mem_of_find?_eq_some h)

/-- If no name was submitted twice, every submission is the latest of its name. -/
theorem latestUnder_eq_some_iff {units : List UnitDecl}
    (h : (units.map UnitDecl.qualifiedName).Nodup) (n : String) (d : UnitDecl) :
    latestUnder n units = some d ↔ d ∈ units ∧ d.qualifiedName = n := by
  constructor
  · exact fun hd => ⟨mem_of_latestUnder hd, qualifiedName_of_latestUnder hd⟩
  · rintro ⟨hmem, hname⟩
    rcases hlatest : latestUnder n units with _ | e
    · exact absurd hname (latestUnder_eq_none.1 hlatest d hmem)
    · have hsame := (qualifiedName_of_latestUnder hlatest).trans hname.symm
      rw [List.inj_on_of_nodup_map h (mem_of_latestUnder hlatest) hmem hsame]

/-- Distinct names can be submitted in any order. -/
theorem latestUnder_perm {units units' : List UnitDecl} (hperm : units'.Perm units)
    (h : (units.map UnitDecl.qualifiedName).Nodup) (n : String) :
    latestUnder n units' = latestUnder n units := by
  have h' : (units'.map UnitDecl.qualifiedName).Nodup := (hperm.map _).nodup_iff.2 h
  refine Option.ext fun d => ?_
  rw [latestUnder_eq_some_iff h', latestUnder_eq_some_iff h, hperm.mem_iff]

/-- The names of units in a submission: its own, and those that it calls or
    constructs. -/
def UnitDecl.unitNames (d : UnitDecl) : List String :=
  d.qualifiedName :: d.mentionedUnits

/-- What submissions tell about a name that is known. -/
def recordUnder (units : List UnitDecl) (n : String) : UnitRecord :=
  match latestUnder n units with
  | some d => { decl := d, submitted := true }
  | none => { decl := UnitDecl.ofReference n, submitted := false }

theorem recordUnder_append_of_ne {units : List UnitDecl} {d : UnitDecl} {n : String}
    (h : d.qualifiedName ≠ n) : recordUnder (units ++ [d]) n = recordUnder units n := by
  rw [recordUnder, latestUnder_append, if_neg h, recordUnder]

/-- Of a name that was never submitted only the name itself is known. -/
theorem recordUnder_of_forall_ne {units : List UnitDecl} {n : String}
    (h : ∀ d ∈ units, d.qualifiedName ≠ n) :
    recordUnder units n = { decl := UnitDecl.ofReference n, submitted := false } := by
  rw [recordUnder, latestUnder_eq_none.2 h]

namespace Program

/-- A program that the given declarations have led to, frozen or not. -/
structure MadeFrom (items : List (TypeDecl ⊕ UnitDecl)) (p : Program) : Prop where
  wellFormed : p.WellFormed
  /-- The units that are known, and what is known of them. -/
  units : ∀ n, p.inventory.units n =
    if n ∈ (submissions items).flatMap UnitDecl.unitNames then
      some (recordUnder (submissions items) n) else none
  indexed : p.frozen = true → p.Indexed

theorem MadeFrom.declareType {items : List (TypeDecl ⊕ UnitDecl)} {p : Program}
    (h : MadeFrom items p) (d : TypeDecl) :
    MadeFrom (items ++ [.inl d]) (p.declareType d).1 := by
  refine ⟨declareType_wellFormed h.wellFormed d, fun n => ?_, fun hc => absurd hc ?_⟩
  · rw [declareType_inventory h.wellFormed, submissions_append_type, ← h.units n]
    simp [Inventory.declareType, Inventory.putType, Inventory.mention]
  · simp [Program.declareType]

theorem MadeFrom.submit {items : List (TypeDecl ⊕ UnitDecl)} {p : Program}
    (h : MadeFrom items p) (d : UnitDecl) : MadeFrom (items ++ [.inr d]) (p.submit d).1 := by
  refine ⟨submit_wellFormed h.wellFormed d, fun n => ?_, fun hc => absurd hc ?_⟩
  · rw [submit_inventory h.wellFormed, submissions_append_unit, List.flatMap_append,
      List.flatMap_singleton, UnitDecl.unitNames]
    simp only [Inventory.submit, Inventory.putUnit, Inventory.mention, h.units n, List.mem_append,
      List.mem_cons]
    by_cases hn : n = d.qualifiedName
    · rw [if_pos hn, if_pos (Or.inr (Or.inl hn)), recordUnder, latestUnder_append, if_pos hn.symm]
    rw [if_neg hn, recordUnder_append_of_ne (Ne.symm hn)]
    -- A name that was known keeps its record. One that is new was never submitted.
    by_cases hold : n ∈ (submissions items).flatMap UnitDecl.unitNames
    · rw [if_pos hold, if_pos (Or.inl hold), Option.some_or]
    · have hnever : ∀ e ∈ submissions items, e.qualifiedName ≠ n := by
        rintro e he rfl
        exact hold (List.mem_flatMap.2 ⟨e, he, List.mem_cons_self⟩)
      simp only [hold, hn, false_or, if_false, Option.none_or, recordUnder_of_forall_ne hnever]
  · simp [Program.submit]

/-- Every history leads to what it declares. -/
theorem editAll_madeFrom (edits : List Edit) :
    MadeFrom (edits.flatMap Edit.items) (({} : Program).editAll edits) := by
  have hempty : MadeFrom [] {} :=
    ⟨wellFormed_empty, fun _ => rfl, fun hc => absurd hc Bool.false_ne_true⟩
  refine editAll_induction (P := fun p items => MadeFrom items p) (fun _ _ d h => h.declareType d)
    (fun _ _ d h => h.submit d) (fun p _ h => ?_) hempty edits
  refine ⟨freeze_wellFormed h.wellFormed, fun n => ?_, fun _ => freeze_indexed_of_current h.indexed⟩
  rw [freeze_inventory]
  exact h.units n

/-- What is known of a unit is its latest declaration, or what its name tells. -/
theorem MadeFrom.record_eq {items : List (TypeDecl ⊕ UnitDecl)} {p : Program}
    (h : MadeFrom items p) {i : UnitId} {u : CodeUnit} (hu : p.units[i]? = some u) :
    { decl := p.readUnit u, submitted := u.submitted } =
      recordUnder (submissions items) u.qualified := by
  have hknown := inventory_units_of_getElem? h.wellFormed hu
  rw [h.units] at hknown
  split at hknown
  · exact (Option.some.inj hknown).symm
  · exact absurd hknown (by simp)

end Program

end CoreShell
