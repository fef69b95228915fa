import CoreShell.Program.Index
import CoreShell.Proofs.Inventory
import CoreShell.Proofs.Keys

/-!
# Well-Formed Programs

A program is well formed if its positions and names match one to one and every
position it stores is one of its own. Its inventory puts the names back for
the positions, and that is all there is to know about it apart from the order
of its entries.

A program grows by entries at the end of its arrays. What was read back from
it before reads the same afterwards, because the names at the old positions
stay; `KeepsNames` is that relation, and every change a program goes through
is an instance of it.

## Main definitions

* `Program.KeepsNames`: One program knows every name of another at the same
  position.
* `Program.InRange`: All positions in a unit exist.
* `Program.readUnit`, `Program.readType`: Declarations with names again.
* `Program.WellFormed`: Positions and names match, and positions exist.
* `Program.inventory`: What a program knows of every name.

## Theorems

* `WellFormed.mem_units`: Units stand at their own positions.
* `readUnit_keeps`, `readType_keeps`: What was read back reads the same in a
  program that keeps the names.
* `wellFormed_pushType`, `wellFormed_pushUnit`, `wellFormed_pushField`: A new
  entry keeps a program well formed.
* `inventory_units_pushUnit`, `inventory_types_pushType`: What a new entry adds
  to the inventory.
* `mention_known_type`, `mention_known_unit`: An entry that is there can be
  mentioned again.
-/

namespace CoreShell

namespace Program

/-- `q` knows every name of `p` at the same position. -/
structure KeepsNames (p q : Program) : Prop where
  units : ∀ i, i < p.units.size → i < q.units.size ∧ q.unitName i = p.unitName i
  types : ∀ i, i < p.types.size → i < q.types.size ∧ q.typeName i = p.typeName i
  fields : ∀ i, i < p.fields.size → i < q.fields.size ∧ q.field i = p.field i

theorem keepsNames_refl (p : Program) : KeepsNames p p :=
  ⟨fun _ h => ⟨h, rfl⟩, fun _ h => ⟨h, rfl⟩, fun _ h => ⟨h, rfl⟩⟩

theorem keepsNames_trans {p q r : Program} (h : KeepsNames p q) (h' : KeepsNames q r) :
    KeepsNames p r := by
  refine ⟨fun i hi => ?_, fun i hi => ?_, fun i hi => ?_⟩
  · rcases h.units i hi with ⟨hq, hname⟩
    exact ⟨(h'.units i hq).1, by rw [(h'.units i hq).2, hname]⟩
  · rcases h.types i hi with ⟨hq, hname⟩
    exact ⟨(h'.types i hq).1, by rw [(h'.types i hq).2, hname]⟩
  · rcases h.fields i hi with ⟨hq, hname⟩
    exact ⟨(h'.fields i hq).1, by rw [(h'.fields i hq).2, hname]⟩

theorem KeepsNames.units_size_le {p q : Program} (h : KeepsNames p q) :
    p.units.size ≤ q.units.size := by
  by_contra hlt
  exact absurd (h.units q.units.size (Nat.lt_of_not_le hlt)).1 (Nat.lt_irrefl _)

theorem unitName_of_getElem? {p : Program} {i : UnitId} {u : CodeUnit}
    (h : p.units[i]? = some u) : p.unitName i = u.qualified := by
  simp only [unitName, h, Option.map_some, Option.getD_some]

theorem typeName_of_getElem? {p : Program} {i : TypeId} {t : TypeInfo}
    (h : p.types[i]? = some t) : p.typeName i = t.name := by
  simp only [typeName, h, Option.map_some, Option.getD_some]

theorem field_of_getElem? {p : Program} {i : FieldId} {f : FieldRef}
    (h : p.fields[i]? = some f) : p.field i = f := by
  rw [field, Array.getD_eq_getD_getElem?, h, Option.getD_some]

theorem keepsNames_pushUnit (p : Program) (u : CodeUnit) :
    KeepsNames p { p with units := p.units.push u } := by
  refine ⟨fun i hi => ⟨?_, ?_⟩, fun i hi => ⟨hi, rfl⟩, fun i hi => ⟨hi, rfl⟩⟩
  · rw [Array.size_push]
    omega
  · simp only [unitName, getElem?_push_of_lt hi]

theorem keepsNames_pushType (p : Program) (t : TypeInfo) :
    KeepsNames p { p with types := p.types.push t } := by
  refine ⟨fun i hi => ⟨hi, rfl⟩, fun i hi => ⟨?_, ?_⟩, fun i hi => ⟨hi, rfl⟩⟩
  · rw [Array.size_push]
    omega
  · simp only [typeName, getElem?_push_of_lt hi]

theorem keepsNames_pushField (p : Program) (f : FieldRef) :
    KeepsNames p { p with fields := p.fields.push f } := by
  refine ⟨fun i hi => ⟨hi, rfl⟩, fun i hi => ⟨hi, rfl⟩, fun i hi => ⟨?_, ?_⟩⟩
  · rw [Array.size_push]
    omega
  · simp only [field, Array.getD_eq_getD_getElem?, getElem?_push_of_lt hi]

/-- Putting a new record in the place of a unit keeps its name and all
    others. -/
theorem keepsNames_modifyUnit (p : Program) (id : UnitId) (f : CodeUnit → CodeUnit)
    (hf : ∀ u, (f u).qualified = u.qualified) :
    KeepsNames p { p with units := p.units.modify id f, frozen := false } := by
  refine ⟨fun i hi => ⟨?_, ?_⟩, fun i hi => ⟨hi, rfl⟩, fun i hi => ⟨hi, rfl⟩⟩
  · rw [Array.size_modify]
    exact hi
  · -- The new record has the old name, and no other record changes.
    simp only [unitName, Array.getElem?_modify]
    by_cases h : id = i
    · rw [if_pos h, Option.map_map]
      congr 2
      funext u
      exact hf u
    · rw [if_neg h]

theorem keepsNames_modifyType (p : Program) (id : TypeId) (f : TypeInfo → TypeInfo)
    (hf : ∀ t, (f t).name = t.name) :
    KeepsNames p { p with types := p.types.modify id f, frozen := false } := by
  refine ⟨fun i hi => ⟨hi, rfl⟩, fun i hi => ⟨?_, ?_⟩, fun i hi => ⟨hi, rfl⟩⟩
  · rw [Array.size_modify]
    exact hi
  · simp only [typeName, Array.getElem?_modify]
    by_cases h : id = i
    · rw [if_pos h, Option.map_map]
      congr 2
      funext t
      exact hf t
    · rw [if_neg h]

/-- All positions in a call site exist. -/
def CallInRange (p : Program) (c : CallSite) : Prop :=
  c.owner < p.types.size ∧ ∀ t ∈ c.targets, t < p.units.size

/-- All positions in a unit exist. -/
structure InRange (p : Program) (u : CodeUnit) : Prop where
  owner : u.owner < p.types.size
  calls : ∀ c ∈ u.calls, p.CallInRange c
  writes : ∀ f ∈ u.writes, f < p.fields.size
  reads : ∀ f ∈ u.reads, f < p.fields.size
  constructs : ∀ i ∈ u.constructs, i < p.units.size

/-- A call site with names for positions. -/
def readCall (p : Program) (c : CallSite) : CallDecl :=
  { owner := p.typeName c.owner, targets := c.targets.map p.unitName }

/-- A unit with names for positions. -/
def readUnit (p : Program) (u : CodeUnit) : UnitDecl :=
  { owner := p.typeName u.owner, name := u.name, parameters := u.parameters, kind := u.kind,
    native := u.native, isAbstract := u.isAbstract, returnsVoid := u.returnsVoid,
    calls := u.calls.map p.readCall, writes := u.writes.map p.field,
    reads := u.reads.map p.field, constructs := u.constructs.map p.unitName }

/-- A type with names for positions. -/
def readType (p : Program) (t : TypeInfo) : TypeDecl :=
  { name := t.name, dispatch := t.dispatch, supertypes := t.supertypes.map p.typeName }

/-- Positions and names match one to one, and every stored position exists. -/
structure WellFormed (p : Program) : Prop where
  unit_id : ∀ (i : UnitId) (u : CodeUnit), p.units[i]? = some u → u.id = i
  unit_names : Distinct CodeUnit.qualified p.units
  type_names : Distinct TypeInfo.name p.types
  field_names : Distinct (fun f : FieldRef => f) p.fields
  units_inRange : ∀ (i : UnitId) (u : CodeUnit), p.units[i]? = some u → p.InRange u
  supertypes_inRange : ∀ (i : TypeId) (t : TypeInfo), p.types[i]? = some t →
    ∀ j ∈ t.supertypes, j < p.types.size
  field_owners : ∀ (i : FieldId) (f : FieldRef), p.fields[i]? = some f →
    ∃ (j : TypeId) (t : TypeInfo), p.types[j]? = some t ∧ t.name = f.owner

/-- The units of a program are those at their own positions. -/
theorem WellFormed.mem_units {p : Program} (hp : p.WellFormed) {u : CodeUnit} :
    u ∈ p.units.toList ↔ p.units[u.id]? = some u := by
  rw [Array.mem_toList_iff, Array.mem_iff_getElem?]
  constructor
  · rintro ⟨i, hi⟩
    rw [hp.unit_id i u hi]
    exact hi
  · exact fun h => ⟨u.id, h⟩

theorem WellFormed.getElem?_of_mem {p : Program} (hp : p.WellFormed) {u : CodeUnit}
    (hu : u ∈ p.units) : p.units[u.id]? = some u :=
  hp.mem_units.1 (Array.mem_toList_iff.2 hu)

/-- What a program knows of every name. -/
def inventory (p : Program) : Inventory :=
  { units := fun n => (entryAt CodeUnit.qualified n p.units).map fun u =>
      { decl := p.readUnit u, submitted := u.submitted }
    types := fun n => (entryAt TypeInfo.name n p.types).map p.readType }

theorem callInRange_keeps {p q : Program} (h : KeepsNames p q) {c : CallSite}
    (hc : p.CallInRange c) : q.CallInRange c :=
  ⟨(h.types _ hc.1).1, fun t ht => (h.units t (hc.2 t ht)).1⟩

theorem inRange_keeps {p q : Program} (h : KeepsNames p q) {u : CodeUnit} (hu : p.InRange u) :
    q.InRange u :=
  { owner := (h.types _ hu.owner).1
    calls := fun c hc => callInRange_keeps h (hu.calls c hc)
    writes := fun f hf => (h.fields f (hu.writes f hf)).1
    reads := fun f hf => (h.fields f (hu.reads f hf)).1
    constructs := fun i hi => (h.units i (hu.constructs i hi)).1 }

theorem readCall_keeps {p q : Program} (h : KeepsNames p q) {c : CallSite}
    (hc : p.CallInRange c) : q.readCall c = p.readCall c := by
  rw [readCall, readCall, (h.types _ hc.1).2]
  congr 1
  exact List.map_congr_left fun t ht => (h.units t (hc.2 t ht)).2

theorem readUnit_keeps {p q : Program} (h : KeepsNames p q) {u : CodeUnit} (hu : p.InRange u) :
    q.readUnit u = p.readUnit u := by
  rw [readUnit, readUnit, (h.types _ hu.owner).2]
  congr 1
  · exact List.map_congr_left fun c hc => readCall_keeps h (hu.calls c hc)
  · exact List.map_congr_left fun f hf => (h.fields f (hu.writes f hf)).2
  · exact List.map_congr_left fun f hf => (h.fields f (hu.reads f hf)).2
  · exact List.map_congr_left fun i hi => (h.units i (hu.constructs i hi)).2

theorem readType_keeps {p q : Program} (h : KeepsNames p q) {t : TypeInfo}
    (ht : ∀ j ∈ t.supertypes, j < p.types.size) : q.readType t = p.readType t := by
  rw [readType, readType]
  congr 1
  exact List.map_congr_left fun j hj => (h.types j (ht j hj)).2

theorem wellFormed_empty : WellFormed {} := by
  constructor <;> simp [Distinct]

/-- A program that only differs in types and fields has the same units. -/
theorem inventory_units_eq {p q : Program} (hp : p.WellFormed) (h : KeepsNames p q)
    (hunits : q.units = p.units) : q.inventory.units = p.inventory.units := by
  funext n
  simp only [inventory, hunits]
  rcases hfind : entryAt CodeUnit.qualified n p.units with _ | u
  · rfl
  · rcases of_entryAt_eq_some hfind with ⟨_, i, hu⟩
    rw [Option.map_some, Option.map_some, readUnit_keeps h (hp.units_inRange i u hu)]

/-- A program that only differs in units and fields has the same types. -/
theorem inventory_types_eq {p q : Program} (hp : p.WellFormed) (h : KeepsNames p q)
    (htypes : q.types = p.types) : q.inventory.types = p.inventory.types := by
  funext n
  simp only [inventory, htypes]
  rcases hfind : entryAt TypeInfo.name n p.types with _ | t
  · rfl
  · rcases of_entryAt_eq_some hfind with ⟨_, i, ht⟩
    rw [Option.map_some, Option.map_some, readType_keeps h (hp.supertypes_inRange i t ht)]

section Push

variable {p : Program} (hp : p.WellFormed)
include hp

theorem wellFormed_pushType {name : String}
    (hnew : ∀ (i : TypeId) (t : TypeInfo), p.types[i]? = some t → t.name ≠ name) :
    WellFormed { p with types := p.types.push { name } } := by
  have hkeeps := keepsNames_pushType p { name }
  refine ⟨hp.unit_id, hp.unit_names, distinct_push hp.type_names hnew, hp.field_names, ?_, ?_, ?_⟩
  · exact fun i u hu => inRange_keeps hkeeps (hp.units_inRange i u hu)
  · intro i t ht j hj
    rcases getElem?_push_cases ht with hold | ⟨_, rfl⟩
    · exact (hkeeps.types j (hp.supertypes_inRange i t hold j hj)).1
    · -- A type that is only mentioned has no supertypes yet.
      exact absurd hj (by simp only [List.not_mem_nil, not_false_eq_true])
  · intro i f hf
    rcases hp.field_owners i f hf with ⟨j, t, ht, hname⟩
    exact ⟨j, t, by rw [getElem?_push_of_lt (lt_size_of_getElem? ht)]; exact ht, hname⟩

theorem wellFormed_pushUnit {u : CodeUnit} (hid : u.id = p.units.size)
    (hnew : ∀ (i : UnitId) (v : CodeUnit), p.units[i]? = some v → v.qualified ≠ u.qualified)
    (hu : p.InRange u) : WellFormed { p with units := p.units.push u } := by
  have hkeeps := keepsNames_pushUnit p u
  refine ⟨?_, distinct_push hp.unit_names hnew, hp.type_names, hp.field_names, ?_,
    hp.supertypes_inRange, hp.field_owners⟩
  · intro i v hv
    rcases getElem?_push_cases hv with hold | ⟨hi, rfl⟩
    · exact hp.unit_id i v hold
    · -- The new unit stands at the old size, which it was told.
      rw [hid, hi]
  · intro i v hv
    rcases getElem?_push_cases hv with hold | ⟨_, rfl⟩
    · exact inRange_keeps hkeeps (hp.units_inRange i v hold)
    · exact inRange_keeps hkeeps hu

theorem wellFormed_pushField {f : FieldRef}
    (hnew : ∀ (i : FieldId) (g : FieldRef), p.fields[i]? = some g → g ≠ f)
    (howner : ∃ (j : TypeId) (t : TypeInfo), p.types[j]? = some t ∧ t.name = f.owner) :
    WellFormed { p with fields := p.fields.push f } := by
  have hkeeps := keepsNames_pushField p f
  refine ⟨hp.unit_id, hp.unit_names, hp.type_names, distinct_push hp.field_names hnew, ?_,
    hp.supertypes_inRange, ?_⟩
  · exact fun i u hu => inRange_keeps hkeeps (hp.units_inRange i u hu)
  · intro i g hg
    rcases getElem?_push_cases hg with hold | ⟨_, rfl⟩
    · exact hp.field_owners i g hold
    · exact howner

/-- What is known of a unit after one was added at the end. -/
theorem inventory_units_pushUnit {u : CodeUnit} (hu : p.InRange u) (n : String) :
    ({ p with units := p.units.push u } : Program).inventory.units n =
      (p.inventory.units n).or
        (if u.qualified = n then
          some { decl := p.readUnit u, submitted := u.submitted } else none) := by
  have hkeeps := keepsNames_pushUnit p u
  simp only [inventory, entryAt_push]
  rcases hfind : entryAt CodeUnit.qualified n p.units with _ | v
  · by_cases hn : u.qualified = n
    · simp only [if_pos hn, Option.none_or, Option.map_some, Option.map_none,
        readUnit_keeps hkeeps hu]
    · simp only [if_neg hn, Option.none_or, Option.map_none]
  · -- A unit that was there before is found first and reads as it did.
    rcases of_entryAt_eq_some hfind with ⟨_, i, hv⟩
    simp only [Option.some_or, Option.map_some,
      readUnit_keeps hkeeps (hp.units_inRange i v hv)]

/-- What is known of a type after a new one was mentioned. -/
theorem inventory_types_pushType (name n : String) :
    ({ p with types := p.types.push { name } } : Program).inventory.types n =
      (p.inventory.types n).or (if name = n then some { name } else none) := by
  have hkeeps := keepsNames_pushType p { name }
  simp only [inventory, entryAt_push]
  rcases hfind : entryAt TypeInfo.name n p.types with _ | t
  · by_cases hn : name = n
    · simp only [if_pos hn, Option.none_or, Option.map_some, Option.map_none, readType,
        List.map_nil]
    · simp only [if_neg hn, Option.none_or, Option.map_none]
  · rcases of_entryAt_eq_some hfind with ⟨_, i, ht⟩
    simp only [Option.some_or, Option.map_some,
      readType_keeps hkeeps (hp.supertypes_inRange i t ht)]

/-- A type that is there is known. -/
theorem inventory_types_of_getElem? {i : TypeId} {t : TypeInfo} (ht : p.types[i]? = some t) :
    p.inventory.types t.name = some (p.readType t) := by
  simp only [inventory, entryAt_eq_some hp.type_names ht, Option.map_some]

/-- A unit that is there is known. -/
theorem inventory_units_of_getElem? {i : UnitId} {u : CodeUnit} (hu : p.units[i]? = some u) :
    p.inventory.units u.qualified =
      some { decl := p.readUnit u, submitted := u.submitted } := by
  simp only [inventory, entryAt_eq_some hp.unit_names hu, Option.map_some]

theorem mention_known_type {i : TypeId} {t : TypeInfo} (ht : p.types[i]? = some t) :
    p.inventory.mention [t.name] [] = p.inventory := by
  apply Inventory.mention_known
  · intro n hn
    rw [List.mem_singleton.1 hn, inventory_types_of_getElem? hp ht]
    rfl
  · simp

theorem mention_known_unit {i : UnitId} {u : CodeUnit} (hu : p.units[i]? = some u) :
    p.inventory.mention [] [u.qualified] = p.inventory := by
  apply Inventory.mention_known
  · simp
  · intro n hn
    rw [List.mem_singleton.1 hn, inventory_units_of_getElem? hp hu]
    rfl

end Push

end Program

end CoreShell
