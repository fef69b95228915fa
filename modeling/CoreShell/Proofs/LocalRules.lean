import CoreShell.Proofs.Alike
import CoreShell.Proofs.Freshness
import Mathlib.Data.List.Find

/-!
# Local Rules by Declarations

The local rules look at a unit with positions for names, and they ask an index who
writes a field. What they come to can be said without either: by the declaration of
the unit, the declaration of its owner, and the declarations of the other units that
write a field it touches. Of several declarations of one name the latest counts.

The two rules differ in whom they count. A constructor gives a field its first value.
For a unit that writes the field it is one more writer, and the field is not the
unit's own; for a unit that reads the field it makes no difference.

## Main definitions

* `typeUnder`: What is known of a type by its name.
* `latestUnits`: The units that were not declared again.
* `writersBeside`: The other units that write a field.
* `Axis.judgeDeclared`: The local rule of an axis, by declarations.

## Theorems

* `Program.editAll_types`: Types after any history.
* `Program.MadeFrom.mem_writersBeside`: The other writers, by declarations.
* `Program.MadeFrom.writeScope_shared_iff`, `Program.MadeFrom.readScope_shared_iff`: When a
  field is shared.
* `Program.local_rules_by_declarations`: The local rules after any history.
-/

namespace CoreShell

/-- The types among single declarations, in order. -/
def typings (items : List (TypeDecl ⊕ UnitDecl)) : List TypeDecl :=
  items.filterMap Sum.getLeft?

@[simp]
theorem typings_append_type (items : List (TypeDecl ⊕ UnitDecl)) (d : TypeDecl) :
    typings (items ++ [.inl d]) = typings items ++ [d] := by
  simp [typings]

@[simp]
theorem typings_append_unit (items : List (TypeDecl ⊕ UnitDecl)) (d : UnitDecl) :
    typings (items ++ [.inr d]) = typings items := by
  simp [typings]

/-- The last of some types that was declared under a name. A type that was only
    mentioned is an ordinary class. -/
def typeUnder (n : String) (types : List TypeDecl) : TypeDecl :=
  (types.reverse.find? fun d => d.name = n).getD { name := n }

theorem typeUnder_append (n : String) (types : List TypeDecl) (d : TypeDecl) :
    typeUnder n (types ++ [d]) = if d.name = n then d else typeUnder n types := by
  rw [typeUnder, List.reverse_append, List.reverse_singleton, List.singleton_append,
    List.find?_cons]
  by_cases h : d.name = n
  · simp only [h, decide_true, if_true, Option.getD_some]
  · simp only [h, decide_false, if_false, typeUnder]

/-- The submissions that no later one replaces. -/
def latestUnits (units : List UnitDecl) : List UnitDecl :=
  units.filter fun d => latestUnder d.qualifiedName units = some d

theorem mem_latestUnits {units : List UnitDecl} {d : UnitDecl} :
    d ∈ latestUnits units ↔ latestUnder d.qualifiedName units = some d := by
  rw [latestUnits, List.mem_filter, decide_eq_true_eq, and_iff_right_iff_imp]
  exact mem_of_latestUnder

/-- The units besides the given one that write a field. -/
def writersBeside (items : List (TypeDecl ⊕ UnitDecl)) (d : UnitDecl) (f : FieldRef) :
    List UnitDecl :=
  (latestUnits (submissions items)).filter fun e =>
    e.qualifiedName ≠ d.qualifiedName ∧ f ∈ e.writes

/-- Calls of the unit go to its overriders: it has no body, or its owner is an
    interface. -/
def IsVirtual (items : List (TypeDecl ⊕ UnitDecl)) (d : UnitDecl) : Prop :=
  d.isAbstract = true ∨ (typeUnder d.owner (typings items)).dispatch = .interface

instance (items : List (TypeDecl ⊕ UnitDecl)) (d : UnitDecl) : Decidable (IsVirtual items d) :=
  inferInstanceAs (Decidable (_ ∨ _))

namespace Axis

/-- The local rule for side effects, by declarations. -/
def judgeDeclaredPurity (items : List (TypeDecl ⊕ UnitDecl)) (d : UnitDecl) : LocalOutcome :=
  if d.returnsVoid = true ∧ d.kind ≠ .constructor then
    .rejected
      { reason := .voidReturn
        message := d.qualifiedName ++ " returns void and can only act through side effects" }
  else if d.native = true then
    .rejected
      { reason := .opaqueOperation
        message := d.qualifiedName ++ " is an opaque operation, assumed impure" }
  else if IsVirtual items d then .dispatch
  else if d.kind = .constructor then .provisional .strict
  else if ∃ f ∈ d.writes, writersBeside items d f ≠ [] then
    .rejected
      { reason := .fieldWrite
        message := d.qualifiedName ++ " is writing to at least one property" }
  else if d.writes = [] then .provisional .strict
  else .provisional .domain

/-- The local rule for determinism, by declarations. -/
def judgeDeclaredDeterminism (items : List (TypeDecl ⊕ UnitDecl)) (d : UnitDecl) :
    LocalOutcome :=
  if d.native = true then
    .rejected
      { reason := .opaqueOperation
        message := d.qualifiedName ++ " is an opaque operation, assumed non-deterministic" }
  else if IsVirtual items d then .dispatch
  else if d.returnsVoid = true ∧ d.kind ≠ .constructor then .provisional .strict
  else
    match d.reads.find? fun f => ∃ e ∈ writersBeside items d f, e.kind ≠ .constructor with
    | some f =>
      .rejected
        { reason := .fieldRead
          message := d.qualifiedName ++ " reads mutable state " ++ f.qualified }
    | none =>
      if d.kind ≠ .constructor ∧ ∃ f ∈ d.reads, f ∈ d.writes then .provisional .domain
      else .provisional .strict

/-- The local rule of an axis, by declarations. -/
def judgeDeclared : Axis → List (TypeDecl ⊕ UnitDecl) → UnitDecl → LocalOutcome
  | purity => judgeDeclaredPurity
  | determinism => judgeDeclaredDeterminism

end Axis

namespace Program

/-- A mention tells nothing about a type. -/
theorem mention_types_getD (inv : Inventory) (types units : List String) (n : String) :
    ((inv.mention types units).types n).getD { name := n } =
      (inv.types n).getD { name := n } := by
  simp only [Inventory.mention]
  rcases inv.types n with _ | t
  · split <;> rfl
  · rfl

/-- A type is known by its latest declaration. -/
theorem editAll_types (edits : List Edit) (n : String) :
    ((({} : Program).editAll edits).inventory.types n).getD { name := n } =
      typeUnder n (typings (edits.flatMap Edit.items)) := by
  have hempty : ({} : Program).WellFormed ∧
      (({} : Program).inventory.types n).getD { name := n } = typeUnder n (typings []) :=
    ⟨wellFormed_empty, rfl⟩
  refine (editAll_induction (P := fun p items => p.WellFormed ∧
    (p.inventory.types n).getD { name := n } = typeUnder n (typings items)) ?_ ?_ ?_ hempty edits).2
  · rintro p items d ⟨hp, htype⟩
    refine ⟨declareType_wellFormed hp d, ?_⟩
    rw [declareType_inventory hp, typings_append_type, typeUnder_append, ← htype,
      Inventory.declareType, Inventory.putType]
    by_cases hn : n = d.name
    · simp only [hn, if_true, Option.getD_some]
    · simp only [hn, Ne.symm hn, if_false]
      exact mention_types_getD _ _ _ n
  · rintro p items d ⟨hp, htype⟩
    refine ⟨submit_wellFormed hp d, ?_⟩
    rw [submit_inventory hp, typings_append_unit, ← htype]
    exact mention_types_getD p.inventory d.mentionedTypes d.mentionedUnits n
  · rintro p items ⟨hp, htype⟩
    exact ⟨freeze_wellFormed hp, by rw [freeze_inventory, htype]⟩

/-- A field that a unit writes is shared if the unit is not its only writer. -/
theorem writeScope_eq_shared {p : Program} {u : CodeUnit} {f : FieldId}
    (hnodup : (p.writersOf f).Nodup) (hmem : u.id ∈ p.writersOf f) :
    p.writeScope u f = .shared ↔ ∃ j ∈ p.writersOf f, j ≠ u.id := by
  have hne : (p.writersOf f).isEmpty = false := by
    simpa using List.ne_nil_of_mem hmem
  rw [writeScope]
  simp [eq_singleton_iff hnodup, hne]

/-- What a unit that reads a field makes of the writers that are no constructors. -/
theorem readScope_cases (p : Program) (u : CodeUnit) (f : FieldId) :
    p.readScope u f = .stable ∧ (∀ j ∈ p.writersOf f, p.isConstructorAt j = true) ∨
    p.readScope u f = .own ∧ (u.id ∈ p.writersOf f ∧ p.isConstructorAt u.id = false) ∧
      (∀ j ∈ p.writersOf f, p.isConstructorAt j = false → j = u.id) ∨
    p.readScope u f = .shared ∧
      ∃ j ∈ p.writersOf f, j ≠ u.id ∧ p.isConstructorAt j = false := by
  have hmem : ∀ j, j ∈ (p.writersOf f).filter (fun writer => !p.isConstructorAt writer) ↔
      j ∈ p.writersOf f ∧ p.isConstructorAt j = false := by
    intro j
    rw [List.mem_filter, Bool.not_eq_true']
  rw [readScope]
  generalize (p.writersOf f).filter (fun writer => !p.isConstructorAt writer) = mutators at hmem ⊢
  rcases mutators with _ | ⟨first, rest⟩
  · refine Or.inl ⟨rfl, fun j hj => ?_⟩
    simpa [hj] using hmem j
  · by_cases hall : ∀ j ∈ first :: rest, j = u.id
    · have hself : u.id ∈ first :: rest := hall first List.mem_cons_self ▸ List.mem_cons_self
      exact Or.inr (Or.inl ⟨by simpa using hall, (hmem u.id).1 hself,
        fun j hj hno => hall j ((hmem j).2 ⟨hj, hno⟩)⟩)
    · refine Or.inr (Or.inr ⟨by simpa using hall, ?_⟩)
      push Not at hall
      rcases hall with ⟨j, hj, hne⟩
      exact ⟨j, ((hmem j).1 hj).1, hne, ((hmem j).1 hj).2⟩

/-- A field that a unit reads is shared if it has another writer that counts. -/
theorem readScope_eq_shared (p : Program) (u : CodeUnit) (f : FieldId) :
    p.readScope u f = .shared ↔
      ∃ j ∈ p.writersOf f, j ≠ u.id ∧ p.isConstructorAt j = false := by
  rcases p.readScope_cases u f with ⟨hscope, hall⟩ | ⟨hscope, _, hall⟩ | ⟨hscope, hother⟩
  · refine iff_of_false (by simp [hscope]) ?_
    rintro ⟨j, hj, _, hno⟩
    simp [hall j hj] at hno
  · refine iff_of_false (by simp [hscope]) ?_
    rintro ⟨j, hj, hne, hno⟩
    exact hne (hall j hj hno)
  · exact iff_of_true hscope hother

/-- A field that is not shared is the unit's own if the unit is a writer that
    counts. -/
theorem readScope_eq_own {p : Program} {u : CodeUnit} {f : FieldId}
    (h : p.readScope u f ≠ .shared) :
    p.readScope u f = .own ↔ u.id ∈ p.writersOf f ∧ p.isConstructorAt u.id = false := by
  rcases p.readScope_cases u f with ⟨hscope, hall⟩ | ⟨hscope, hself, _⟩ | ⟨hscope, _⟩
  · refine iff_of_false (by simp [hscope]) ?_
    rintro ⟨hself, hno⟩
    simp [hall _ hself] at hno
  · exact iff_of_true hscope hself
  · exact absurd hscope h

theorem WellFormed.isConstructorAt_eq_false {p : Program} (hp : p.WellFormed) {u : CodeUnit}
    (hu : u ∈ p.units) :
    p.isConstructorAt u.id = false ↔ (p.readUnit u).kind ≠ .constructor := by
  rw [isConstructorAt, hp.getElem?_of_mem hu]
  exact decide_eq_false_iff_not

section MadeFrom

variable {items : List (TypeDecl ⊕ UnitDecl)} {p : Program} (h : MadeFrom items p) {u : CodeUnit}
include h

theorem MadeFrom.qualifiedName_readUnit (hu : u ∈ p.units) (hs : u.submitted = true) :
    (p.readUnit u).qualifiedName = u.qualified :=
  qualifiedName_of_latestUnder (h.latest_of_submitted hu hs)

/-- The latest submissions are the submitted units. -/
theorem MadeFrom.mem_latestUnits {d : UnitDecl} :
    d ∈ latestUnits (submissions items) ↔
      ∃ v ∈ p.units, v.submitted = true ∧ p.readUnit v = d := by
  rw [CoreShell.mem_latestUnits]
  constructor
  · intro hd
    rcases h.exists_unit hd with ⟨v, hv, _, hs, heq⟩
    exact ⟨v, hv, hs, heq⟩
  · rintro ⟨v, hv, hs, rfl⟩
    rw [h.qualifiedName_readUnit hv hs]
    exact h.latest_of_submitted hv hs

variable (hindex : p.Indexed) (hu : u ∈ p.units) (hs : u.submitted = true) {f : FieldId}
  (hf : f < p.fields.size)
include hindex hu hs hf

/-- The other units that write a field are the writers of the field in other
    places. -/
theorem MadeFrom.mem_writersBeside {d : UnitDecl} :
    d ∈ writersBeside items (p.readUnit u) (p.field f) ↔
      ∃ v ∈ p.units, v.id ∈ p.writersOf f ∧ v.id ≠ u.id ∧ p.readUnit v = d := by
  have hp := h.wellFormed
  rw [writersBeside, List.mem_filter, decide_eq_true_eq, h.mem_latestUnits,
    h.qualifiedName_readUnit hu hs]
  constructor
  · rintro ⟨⟨v, hv, hsub, rfl⟩, hne, hwrites⟩
    rw [h.qualifiedName_readUnit hv hsub] at hne
    refine ⟨v, hv, ?_, fun heq => hne ?_, rfl⟩
    · exact (hp.id_mem_writersOf hindex hv hf).2 ⟨hsub, (hp.mem_writes hv hf).1 hwrites⟩
    · have hat := hp.getElem?_of_mem hv
      rw [heq, hp.getElem?_of_mem hu] at hat
      rw [Option.some.inj hat]
  · rintro ⟨v, hv, hmem, hne, rfl⟩
    rcases (hp.id_mem_writersOf hindex hv hf).1 hmem with ⟨hsub, hwrites⟩
    refine ⟨⟨v, hv, hsub, rfl⟩, fun heq => hne ?_, (hp.mem_writes hv hf).2 hwrites⟩
    rw [h.qualifiedName_readUnit hv hsub] at heq
    exact hp.unit_names _ _ v u (hp.getElem?_of_mem hv) (hp.getElem?_of_mem hu) heq

/-- A written field is shared if some other unit writes it. -/
theorem MadeFrom.writeScope_shared_iff (hwrites : f ∈ u.writes) :
    p.writeScope u f = .shared ↔ writersBeside items (p.readUnit u) (p.field f) ≠ [] := by
  have hp := h.wellFormed
  have hself : u.id ∈ p.writersOf f := (hp.id_mem_writersOf hindex hu hf).2 ⟨hs, hwrites⟩
  rw [writeScope_eq_shared (writersOf_nodup hp hindex hf) hself]
  constructor
  · rintro ⟨j, hj, hne⟩
    rcases (Program.mem_writersOf hp hindex hf j).1 hj with ⟨v, hv, _⟩
    rw [← hp.unit_id j v hv] at hj hne
    exact List.ne_nil_of_mem ((h.mem_writersBeside hindex hu hs hf).2
      ⟨v, Array.mem_of_getElem? hv, hj, hne, rfl⟩)
  · intro hsome
    rcases List.exists_mem_of_ne_nil _ hsome with ⟨d, hd⟩
    rcases (h.mem_writersBeside hindex hu hs hf).1 hd with ⟨v, _, hj, hne, _⟩
    exact ⟨v.id, hj, hne⟩

/-- A field is shared among its readers if some other unit writes it that is no
    constructor. -/
theorem MadeFrom.readScope_shared_iff :
    p.readScope u f = .shared ↔
      ∃ e ∈ writersBeside items (p.readUnit u) (p.field f), e.kind ≠ .constructor := by
  have hp := h.wellFormed
  rw [readScope_eq_shared]
  constructor
  · rintro ⟨j, hj, hne, hno⟩
    rcases (Program.mem_writersOf hp hindex hf j).1 hj with ⟨v, hv, _⟩
    rw [← hp.unit_id j v hv] at hj hne hno
    have hmem := Array.mem_of_getElem? hv
    exact ⟨_, (h.mem_writersBeside hindex hu hs hf).2 ⟨v, hmem, hj, hne, rfl⟩,
      (hp.isConstructorAt_eq_false hmem).1 hno⟩
  · rintro ⟨e, he, hno⟩
    rcases (h.mem_writersBeside hindex hu hs hf).1 he with ⟨v, hv, hj, hne, rfl⟩
    exact ⟨v.id, hj, hne, (hp.isConstructorAt_eq_false hv).2 hno⟩

/-- A field that is not shared among its readers is the unit's own if the unit writes it
    and is no constructor. -/
theorem MadeFrom.readScope_own_iff (hshared : p.readScope u f ≠ .shared) :
    p.readScope u f = .own ↔
      (p.readUnit u).kind ≠ .constructor ∧ p.field f ∈ (p.readUnit u).writes := by
  have hp := h.wellFormed
  rw [readScope_eq_own hshared, hp.isConstructorAt_eq_false hu, hp.mem_writes hu hf, and_comm,
    hp.id_mem_writersOf hindex hu hf, and_iff_right hs]

end MadeFrom

/-- If no written field is shared, a unit keeps within its domain, and it does so by
    writing something. -/
theorem floorOf_writeScope {p : Program} {u : CodeUnit}
    (h : FieldScope.shared ∉ u.writes.map (p.writeScope u)) :
    floorOf (u.writes.map (p.writeScope u)) = if u.writes = [] then .strict else .domain := by
  rw [floorOf]
  rcases hwrites : u.writes with _ | ⟨f, rest⟩
  · rfl
  · have hmem : f ∈ u.writes := hwrites ▸ List.mem_cons_self
    have hne : p.writeScope u f ≠ .shared := fun hc => h (List.mem_map.2 ⟨f, hmem, hc⟩)
    have hown : p.writeScope u f = .own := by
      rw [writeScope] at hne ⊢
      by_cases honly : p.writersOf f = [u.id]
      · rw [if_pos honly]
      · exact absurd (if_neg honly) hne
    rw [if_pos (List.mem_map.2 ⟨f, List.mem_cons_self, hown⟩), if_neg (List.cons_ne_nil f rest)]

theorem readUnit_writes (p : Program) (u : CodeUnit) :
    (p.readUnit u).writes = u.writes.map p.field :=
  rfl

theorem readUnit_reads (p : Program) (u : CodeUnit) :
    (p.readUnit u).reads = u.reads.map p.field :=
  rfl

/-- A unit acts by its effects alone if it returns nothing and is no constructor. -/
theorem returnsNothing_iff (p : Program) (u : CodeUnit) :
    (!u.isConstructor && u.returnsVoid) = true ↔
      (p.readUnit u).returnsVoid = true ∧ (p.readUnit u).kind ≠ .constructor := by
  rw [Bool.and_eq_true, Bool.not_eq_true', and_comm]
  exact and_congr_right fun _ => decide_eq_false_iff_not

section Judged

variable {items : List (TypeDecl ⊕ UnitDecl)} {p : Program} (h : MadeFrom items p)
  (htypes : ∀ n, (p.inventory.types n).getD { name := n } = typeUnder n (typings items))
  {u : CodeUnit} (hu : u ∈ p.units)

include h htypes hu in
theorem MadeFrom.dispatchesVirtually_iff :
    p.dispatchesVirtually u = true ↔ IsVirtual items (p.readUnit u) := by
  have hp := h.wellFormed
  have hrange := hp.units_inRange _ u (hp.getElem?_of_mem hu)
  rcases getElem?_of_lt_size hrange.owner with ⟨t, ht⟩
  have hdispatch : p.dispatchOf u.owner =
      (typeUnder (p.readUnit u).owner (typings items)).dispatch := by
    rw [← htypes, readUnit, typeName_of_getElem? ht, inventory_types_of_getElem? hp ht, dispatchOf,
      ht]
    rfl
  rw [dispatchesVirtually, IsVirtual, Bool.or_eq_true, decide_eq_true_eq, hdispatch]
  rfl

variable (hindex : p.Indexed) (hs : u.submitted = true)
include h htypes hu hindex hs

/-- The local rule for side effects says what the latest declarations say. -/
theorem MadeFrom.judgePurity_eq :
    Axis.judgePurity p u = Axis.judgeDeclaredPurity items (p.readUnit u) := by
  have hrange := h.wellFormed.units_inRange _ u (h.wellFormed.getElem?_of_mem hu)
  have hshared : FieldScope.shared ∈ u.writes.map (p.writeScope u) ↔
      ∃ f ∈ (p.readUnit u).writes, writersBeside items (p.readUnit u) f ≠ [] := by
    simp only [readUnit_writes, List.mem_map, exists_exists_and_eq_and]
    refine exists_congr fun f => and_congr_right fun hf => ?_
    exact h.writeScope_shared_iff hindex hu hs (hrange.writes f hf) hf
  rw [Axis.judgePurity, Axis.judgeDeclaredPurity, h.qualifiedName_readUnit hu hs]
  refine if_congr (returnsNothing_iff p u) rfl (if_congr Iff.rfl rfl
    (if_congr (h.dispatchesVirtually_iff htypes hu) rfl (if_congr decide_eq_true_iff rfl ?_)))
  by_cases hc : FieldScope.shared ∈ u.writes.map (p.writeScope u)
  · rw [if_pos (hshared.1 hc)]
    exact if_pos hc
  · rw [if_neg (fun hc' => hc (hshared.2 hc'))]
    simp only [hc, if_false, floorOf_writeScope hc, readUnit_writes, List.map_eq_nil_iff]
    split <;> rfl

/-- The local rule for determinism says what the latest declarations say. -/
theorem MadeFrom.judgeDeterminism_eq :
    Axis.judgeDeterminism p u = Axis.judgeDeclaredDeterminism items (p.readUnit u) := by
  have hrange := h.wellFormed.units_inRange _ u (h.wellFormed.getElem?_of_mem hu)
  have hshared : ∀ f ∈ u.reads, p.readScope u f = .shared ↔
      ∃ e ∈ writersBeside items (p.readUnit u) (p.field f), e.kind ≠ .constructor :=
    fun f hf => h.readScope_shared_iff hindex hu hs (hrange.reads f hf)
  -- The first shared field has the same name in both readings.
  have hfind : ((p.readUnit u).reads.find? fun f =>
        ∃ e ∈ writersBeside items (p.readUnit u) f, e.kind ≠ .constructor) =
      (u.reads.find? fun f => p.readScope u f = .shared).map p.field := by
    rw [readUnit_reads, List.find?_map]
    exact congrArg (Option.map p.field) (List.find?_congr fun f hf =>
      decide_eq_decide.2 (hshared f hf).symm)
  rw [Axis.judgeDeterminism, Axis.judgeDeclaredDeterminism, h.qualifiedName_readUnit hu hs, hfind]
  refine if_congr Iff.rfl rfl (if_congr (h.dispatchesVirtually_iff htypes hu) rfl
    (if_congr (returnsNothing_iff p u) rfl ?_))
  rcases hl : u.reads.find? fun f => decide (p.readScope u f = .shared) with _ | f
  · have hnone : ∀ f ∈ u.reads, p.readScope u f ≠ .shared := by
      simpa using hl
    have hown : FieldScope.own ∈ u.reads.map (p.readScope u) ↔
        (p.readUnit u).kind ≠ .constructor ∧
          ∃ f ∈ (p.readUnit u).reads, f ∈ (p.readUnit u).writes := by
      simp only [readUnit_reads, List.mem_map, exists_exists_and_eq_and]
      rw [← exists_and_left]
      refine exists_congr fun f => ?_
      rw [and_left_comm]
      refine and_congr_right fun hf => ?_
      exact h.readScope_own_iff hindex hu hs (hrange.reads f hf) (hnone f hf)
    simp only [floorOf, Option.map_none, hown]
    split <;> rfl
  · simp only [Option.map_some]

end Judged

/-- After any history, the local rules of a frozen program say of every submitted unit
    what the latest declarations say of it. Along purity, a constructor is one more
    writer of a field, and along determinism it is none. -/
theorem local_rules_by_declarations (edits : List Edit) :
    let items := edits.flatMap Edit.items
    let p := ({} : Program).editAll edits
    p.frozen = true → ∀ u ∈ p.units, u.submitted = true →
      ∃ d, latestUnder u.qualified (submissions items) = some d ∧
        ∀ axis : Axis, axis.judge p u = axis.judgeDeclared items d := by
  intro items p hfrozen u hu hs
  have hmade : MadeFrom items p := editAll_madeFrom edits
  have htypes := editAll_types edits
  have hindex := hmade.indexed hfrozen
  refine ⟨p.readUnit u, hmade.latest_of_submitted hu hs, fun axis => ?_⟩
  cases axis with
  | purity => exact hmade.judgePurity_eq htypes hu hindex hs
  | determinism => exact hmade.judgeDeterminism_eq htypes hu hindex hs

/-- A field with a constructor, a getter and a setter. The setter returns the field
    that it writes. -/
def sharedField : List Edit :=
  [.declare (.unit ((UnitDecl.construct "a.Core").writing "a.Core" "talks")),
    .declare (.unit ((UnitDecl.method "a.Core" "talks").reading "a.Core" "talks")),
    .declare (.unit (((UnitDecl.method "a.Core" "swap").reading "a.Core" "talks").writing
      "a.Core" "talks")),
    .freeze]

/-- The setter shares the field with the constructor, as far as it writes it, and with
    nobody, as far as it reads it. -/
theorem local_rules_by_declarations_sharedField :
    let p := ({} : Program).editAll sharedField
    p.frozen = true ∧ ∃ u ∈ p.units, u.qualified = "a.Core.swap()" ∧ u.submitted = true ∧
      Axis.purity.judge p u = .rejected
        { reason := .fieldWrite, message := "a.Core.swap() is writing to at least one property" } ∧
      Axis.determinism.judge p u = .provisional .domain := by
  have hfrozen : (({} : Program).editAll sharedField).frozen = true := by decide +kernel
  have hlatest : latestUnder "a.Core.swap()" (submissions (sharedField.flatMap Edit.items)) =
      some (((UnitDecl.method "a.Core" "swap").reading "a.Core" "talks").writing
        "a.Core" "talks") := by
    decide +kernel
  rcases (editAll_madeFrom sharedField).exists_unit hlatest with ⟨u, hu, hname, hs, _⟩
  rcases local_rules_by_declarations sharedField hfrozen u hu hs with ⟨d, hd, hjudge⟩
  rw [hname, hlatest, Option.some.injEq] at hd
  subst hd
  refine ⟨hfrozen, u, hu, hname, hs, ?_, ?_⟩
  · rw [hjudge]
    decide +kernel
  · rw [hjudge]
    decide +kernel

end Program

end CoreShell
