import CoreShell.Proofs.Interning

/-!
# Declaring

Interning loses nothing and invents nothing: a program that was built by
declaring types and submitting units is well formed, and its inventory follows
every declaration exactly as an inventory does on its own.

A submission first makes all names of the unit known and then replaces the
record of the unit. The record that stood there before does not matter, and
`Prepared` is the program between the two parts, in which it is still there.

## Main definitions

* `Program.internBody`: Everything in the body of a unit.
* `Program.replaceUnit`, `Program.replaceType`: A new record in the place of an
  old one.
* `Program.Prepared`: All names of a unit are known.
* `Program.declareAll`: One declaration after another.

## Theorems

* `submit_prepared`: Submitting goes through a program in which all names are
  known.
* `submit_wellFormed`, `declareType_wellFormed`: Declaring keeps a program well
  formed.
* `submit_inventory`, `declareType_inventory`: The inventory follows a
  declaration.
* `declareAll_inventory`: The inventory follows any number of them.
* `freeze_wellFormed`, `freeze_inventory`: Freezing changes neither.
-/

namespace CoreShell

namespace Program

/-- The step that interns everything in the body of a unit: its calls, the
    fields it writes and reads, and what it constructs. -/
def internBody : Program → List CallDecl × List FieldRef × List FieldRef × List String →
    Program × (List CallSite × List FieldId × List FieldId × List UnitId) :=
  internBoth (internAll internCall)
    (internBoth (internAll internField)
      (internBoth (internAll internField) (internAll internReference)))

theorem interns_body :
    Interns internBody
      (fun p b => (b.1.map p.readCall, b.2.1.map p.field, b.2.2.1.map p.field,
        b.2.2.2.map p.unitName))
      (fun p b => (∀ c ∈ b.1, p.CallInRange c) ∧ (∀ f ∈ b.2.1, f < p.fields.size) ∧
        (∀ f ∈ b.2.2.1, f < p.fields.size) ∧ ∀ i ∈ b.2.2.2, i < p.units.size)
      (fun a => a.1.flatMap (fun c => c.owner :: c.targets.map Name.ownerOf) ++
        (a.2.1.flatMap (fun f => [f.owner]) ++ (a.2.2.1.flatMap (fun f => [f.owner]) ++
          a.2.2.2.flatMap (fun n => [Name.ownerOf n]))))
      (fun a => a.1.flatMap CallDecl.targets ++
        (a.2.1.flatMap (fun _ => []) ++ (a.2.2.1.flatMap (fun _ => []) ++
          a.2.2.2.flatMap (fun n => [n])))) :=
  interns_call.all.both (interns_field.all.both (interns_field.all.both interns_reference.all))

/-- The record of a submitted unit. -/
def declared (d : UnitDecl) (owner : TypeId)
    (body : List CallSite × List FieldId × List FieldId × List UnitId) (u : CodeUnit) : CodeUnit :=
  { id := u.id, qualified := u.qualified, name := d.name, parameters := d.parameters,
    kind := d.kind, owner, native := d.native, isAbstract := d.isAbstract,
    returnsVoid := d.returnsVoid, calls := body.1, writes := body.2.1, reads := body.2.2.1,
    constructs := body.2.2.2, submitted := true }

/-- The program with a new record for a unit. -/
def replaceUnit (p : Program) (id : UnitId) (f : CodeUnit → CodeUnit) : Program :=
  { p with units := p.units.modify id f, frozen := false }

/-- The program with a new record for a type. -/
def replaceType (p : Program) (id : TypeId) (f : TypeInfo → TypeInfo) : Program :=
  { p with types := p.types.modify id f, frozen := false }

theorem replaceUnit_wellFormed {p : Program} (hp : p.WellFormed) (id : UnitId)
    {f : CodeUnit → CodeUnit} (hid : ∀ u, (f u).id = u.id)
    (hname : ∀ u, (f u).qualified = u.qualified) (hf : ∀ u, p.InRange (f u)) :
    (p.replaceUnit id f).WellFormed := by
  have hkeeps := keepsNames_modifyUnit p id f hname
  refine ⟨?_, distinct_modify id hp.unit_names hname, hp.type_names, hp.field_names, ?_,
    hp.supertypes_inRange, hp.field_owners⟩
  · intro i u hu
    rcases getElem?_modify_cases hu with ⟨rfl, v, hv, rfl⟩ | ⟨_, hold⟩
    · rw [hid v]
      exact hp.unit_id _ v hv
    · exact hp.unit_id i u hold
  · intro i u hu
    rcases getElem?_modify_cases hu with ⟨_, v, _, rfl⟩ | ⟨_, hold⟩
    · exact inRange_keeps hkeeps (hf v)
    · exact inRange_keeps hkeeps (hp.units_inRange i u hold)

theorem replaceUnit_inventory {p : Program} (hp : p.WellFormed) {id : UnitId} {u : CodeUnit}
    (hu : p.units[id]? = some u) {f : CodeUnit → CodeUnit}
    (hname : ∀ v, (f v).qualified = v.qualified) (hf : p.InRange (f u)) :
    (p.replaceUnit id f).inventory =
      p.inventory.putUnit u.qualified
        { decl := p.readUnit (f u), submitted := (f u).submitted } := by
  have hkeeps := keepsNames_modifyUnit p id f hname
  ext n : 2
  · simp only [inventory, Inventory.putUnit, replaceUnit, entryAt_modify hp.unit_names hname hu]
    by_cases hn : n = u.qualified
    · rw [if_pos hn, if_pos hn, Option.map_some, readUnit_keeps hkeeps hf]
    · -- The other units are found as before, and their names are what they were.
      rw [if_neg hn, if_neg hn]
      rcases hfind : entryAt CodeUnit.qualified n p.units with _ | v
      · rfl
      · rcases of_entryAt_eq_some hfind with ⟨_, i, hv⟩
        rw [Option.map_some, Option.map_some, readUnit_keeps hkeeps (hp.units_inRange i v hv)]
  · exact congrFun (inventory_types_eq hp hkeeps rfl) n

/-- A program `q` in which all names of a unit are known, on the way from `p` to
    the submission. -/
structure Prepared (p : Program) (d : UnitDecl) (q : Program) (owner : TypeId) (id : UnitId)
    (body : List CallSite × List FieldId × List FieldId × List UnitId) : Prop where
  wellFormed : q.WellFormed
  keepsNames : p.KeepsNames q
  owner_lt : owner < q.types.size
  owner_name : q.typeName owner = d.owner
  id_lt : id < q.units.size
  id_name : q.unitName id = d.qualifiedName
  body_valid : (∀ c ∈ body.1, q.CallInRange c) ∧ (∀ f ∈ body.2.1, f < q.fields.size) ∧
    (∀ f ∈ body.2.2.1, f < q.fields.size) ∧ ∀ i ∈ body.2.2.2, i < q.units.size
  body_read : (body.1.map q.readCall, body.2.1.map q.field, body.2.2.1.map q.field,
    body.2.2.2.map q.unitName) = (d.calls, d.writes, d.reads, d.constructs)
  /-- Apart from the record of the unit itself, which is about to be replaced,
      the names were mentioned and nothing else. -/
  inventory : ∀ r, q.inventory.putUnit d.qualifiedName r =
    (p.inventory.mention d.mentionedTypes d.mentionedUnits).putUnit d.qualifiedName r

/-- Submitting a unit interns its owner, its name and its body, and then gives
    it its record. -/
theorem submit_eq (p : Program) (d : UnitDecl) :
    p.submit d =
      ((internBody ((p.internType d.owner).1.internUnit d.qualifiedName
          (p.internType d.owner).2).1 (d.calls, d.writes, d.reads, d.constructs)).1.replaceUnit
        ((p.internType d.owner).1.internUnit d.qualifiedName (p.internType d.owner).2).2
        (declared d (p.internType d.owner).2
          (internBody ((p.internType d.owner).1.internUnit d.qualifiedName
            (p.internType d.owner).2).1 (d.calls, d.writes, d.reads, d.constructs)).2),
        ((p.internType d.owner).1.internUnit d.qualifiedName (p.internType d.owner).2).2) :=
  rfl

/-- Submitting goes through a program in which all names are known. -/
theorem submit_prepared {p : Program} (hp : p.WellFormed) (d : UnitDecl) :
    ∃ q owner id body, Prepared p d q owner id body ∧
      p.submit d = (q.replaceUnit id (declared d owner body), id) := by
  -- The owner is interned, then the unit, then its body. Each of them keeps the
  -- names that the ones before it have made known.
  have hpOwner := interns_type.wellFormed p d.owner hp
  have howner := interns_type.valid_result p d.owner
  have hpUnit := internUnit_wellFormed hpOwner d.qualifiedName howner
  have hkeepsUnit := internUnit_keepsNames (p.internType d.owner).1 d.qualifiedName
    (p.internType d.owner).2
  have hkeepsBody := interns_body.keepsNames
    ((p.internType d.owner).1.internUnit d.qualifiedName (p.internType d.owner).2).1
    (d.calls, d.writes, d.reads, d.constructs)
  have hkeeps := keepsNames_trans hkeepsUnit hkeepsBody
  rcases internUnit_getElem? (p.internType d.owner).1 d.qualifiedName (p.internType d.owner).2
    with ⟨u, hu, hname⟩
  refine ⟨_, _, _, _, ⟨?_, ?_, ?_, ?_, ?_, ?_, ?_, ?_, ?_⟩, submit_eq p d⟩
  · exact interns_body.wellFormed _ _ hpUnit
  · exact keepsNames_trans (interns_type.keepsNames p d.owner) hkeeps
  · exact (hkeeps.types _ howner).1
  · rw [(hkeeps.types _ howner).2]
    exact interns_type.read_result p d.owner
  · exact (hkeepsBody.units _ (lt_size_of_getElem? hu)).1
  · rw [(hkeepsBody.units _ (lt_size_of_getElem? hu)).2, unitName_of_getElem? hu, hname]
  · exact interns_body.valid_result _ (d.calls, d.writes, d.reads, d.constructs)
  · exact interns_body.read_result _ (d.calls, d.writes, d.reads, d.constructs)
  · intro r
    have hinv := interns_body.inventory _ (d.calls, d.writes, d.reads, d.constructs) hpUnit
    -- The owner of the unit need not be the one in its name, so interning the
    -- unit is no mention of it. Its new record hides the difference.
    have hput := internUnit_putUnit hpOwner d.qualifiedName howner r
    rw [interns_type.inventory p d.owner hp] at hput
    refine (congrArg (Inventory.putUnit · d.qualifiedName r) hinv).trans ?_
    rw [← Inventory.mention_putUnit, hput, Inventory.mention_putUnit, Inventory.mention_mention]
    congr 1
    apply Inventory.mention_congr <;> intro n <;>
      simp [UnitDecl.mentionedTypes, UnitDecl.mentionedUnits, List.map_eq_flatMap]

namespace Prepared

variable {p q : Program} {d : UnitDecl} {owner : TypeId} {id : UnitId}
    {body : List CallSite × List FieldId × List FieldId × List UnitId}

theorem declared_inRange (h : Prepared p d q owner id body) (u : CodeUnit) :
    q.InRange (declared d owner body u) :=
  ⟨h.owner_lt, h.body_valid.1, h.body_valid.2.1, h.body_valid.2.2.1, h.body_valid.2.2.2⟩

/-- The record of a submitted unit reads back as its declaration. -/
theorem readUnit_declared (h : Prepared p d q owner id body) (u : CodeUnit) :
    q.readUnit (declared d owner body u) = d := by
  have hread := h.body_read
  simp only [Prod.mk.injEq] at hread
  rcases hread with ⟨hcalls, hwrites, hreads, hconstructs⟩
  simp only [readUnit, declared, h.owner_name, hcalls, hwrites, hreads, hconstructs]

end Prepared

theorem submit_wellFormed {p : Program} (hp : p.WellFormed) (d : UnitDecl) :
    (p.submit d).1.WellFormed := by
  rcases submit_prepared hp d with ⟨q, owner, id, body, hq, h⟩
  rw [h]
  exact replaceUnit_wellFormed hq.wellFormed id (fun _ => rfl) (fun _ => rfl) hq.declared_inRange

theorem submit_inventory {p : Program} (hp : p.WellFormed) (d : UnitDecl) :
    (p.submit d).1.inventory = p.inventory.submit d := by
  rcases submit_prepared hp d with ⟨q, owner, id, body, hq, h⟩
  rcases getElem?_of_lt_size hq.id_lt with ⟨u, hu⟩
  have hname : u.qualified = d.qualifiedName := by
    rw [← unitName_of_getElem? hu, hq.id_name]
  have hinv := replaceUnit_inventory (f := declared d owner body) hq.wellFormed hu
    (fun _ => rfl) (hq.declared_inRange u)
  rw [hq.readUnit_declared u, hname, hq.inventory] at hinv
  rw [h]
  exact hinv

theorem replaceType_wellFormed {p : Program} (hp : p.WellFormed) (id : TypeId)
    {f : TypeInfo → TypeInfo} (hname : ∀ t, (f t).name = t.name)
    (hf : ∀ t, ∀ j ∈ (f t).supertypes, j < p.types.size) : (p.replaceType id f).WellFormed := by
  have hkeeps := keepsNames_modifyType p id f hname
  refine ⟨hp.unit_id, hp.unit_names, distinct_modify id hp.type_names hname, hp.field_names, ?_,
    ?_, ?_⟩
  · exact fun i u hu => inRange_keeps hkeeps (hp.units_inRange i u hu)
  · intro i t ht j hj
    rcases getElem?_modify_cases ht with ⟨_, v, _, rfl⟩ | ⟨_, hold⟩
    · exact (hkeeps.types j (hf v j hj)).1
    · exact (hkeeps.types j (hp.supertypes_inRange i t hold j hj)).1
  · -- The owner of a field may be the type that changes, but not its name.
    intro i f' hf'
    rcases hp.field_owners i f' hf' with ⟨j, t, ht, htname⟩
    have hj := (hkeeps.types j (lt_size_of_getElem? ht)).1
    have hjname := (hkeeps.types j (lt_size_of_getElem? ht)).2
    rcases getElem?_of_lt_size hj with ⟨t', ht'⟩
    rw [typeName_of_getElem? ht, htname] at hjname
    exact ⟨j, t', ht', by rw [← typeName_of_getElem? ht']; exact hjname⟩

theorem replaceType_inventory {p : Program} (hp : p.WellFormed) {id : TypeId} {t : TypeInfo}
    (ht : p.types[id]? = some t) {f : TypeInfo → TypeInfo} (hname : ∀ v, (f v).name = v.name)
    (hf : ∀ j ∈ (f t).supertypes, j < p.types.size) :
    (p.replaceType id f).inventory = p.inventory.putType (p.readType (f t)) := by
  have hkeeps := keepsNames_modifyType p id f hname
  have hread : (p.readType (f t)).name = t.name := hname t
  ext n : 2
  · exact congrFun (inventory_units_eq hp hkeeps rfl) n
  · simp only [inventory, Inventory.putType, replaceType, entryAt_modify hp.type_names hname ht,
      hread]
    by_cases hn : n = t.name
    · rw [if_pos hn, if_pos hn, Option.map_some, readType_keeps hkeeps hf]
    · rw [if_neg hn, if_neg hn]
      rcases hfind : entryAt TypeInfo.name n p.types with _ | v
      · rfl
      · rcases of_entryAt_eq_some hfind with ⟨_, i, hv⟩
        rw [Option.map_some, Option.map_some,
          readType_keeps hkeeps (hp.supertypes_inRange i v hv)]

/-- The record of a declared type. -/
def declaredType (d : TypeDecl) (supertypes : List TypeId) (t : TypeInfo) : TypeInfo :=
  { t with dispatch := d.dispatch, supertypes, declared := true }

/-- Declaring a type interns its name and its supertypes, and then gives it its
    record. -/
theorem declareType_eq (p : Program) (d : TypeDecl) :
    p.declareType d =
      ((internBoth internType (internAll internType) p (d.name, d.supertypes)).1.replaceType
        (internBoth internType (internAll internType) p (d.name, d.supertypes)).2.1
        (declaredType d
          (internBoth internType (internAll internType) p (d.name, d.supertypes)).2.2),
        (internBoth internType (internAll internType) p (d.name, d.supertypes)).2.1) :=
  rfl

theorem declareType_wellFormed {p : Program} (hp : p.WellFormed) (d : TypeDecl) :
    (p.declareType d).1.WellFormed := by
  have hnames := interns_type.both interns_type.all
  rw [declareType_eq]
  refine replaceType_wellFormed (hnames.wellFormed p (d.name, d.supertypes) hp) _ (fun _ => rfl) ?_
  exact fun _ j hj => (hnames.valid_result p (d.name, d.supertypes)).2 j hj

theorem declareType_inventory {p : Program} (hp : p.WellFormed) (d : TypeDecl) :
    (p.declareType d).1.inventory = p.inventory.declareType d := by
  have hnames := interns_type.both interns_type.all
  have hvalid := hnames.valid_result p (d.name, d.supertypes)
  have hread := hnames.read_result p (d.name, d.supertypes)
  have hinv := hnames.inventory p (d.name, d.supertypes) hp
  have hq := hnames.wellFormed p (d.name, d.supertypes) hp
  rw [declareType_eq]
  -- From here on only what the interning has promised is used.
  generalize internBoth internType (internAll internType) p (d.name, d.supertypes) = r
    at hvalid hread hinv hq ⊢
  rcases r with ⟨q, id, supertypes⟩
  rcases getElem?_of_lt_size hvalid.1 with ⟨t, ht⟩
  simp only [Prod.mk.injEq] at hread
  have hrecord : q.readType (declaredType d supertypes t) = d := by
    simp only [readType, declaredType, hread.2, ← typeName_of_getElem? ht, hread.1]
  have hput := replaceType_inventory (f := declaredType d supertypes) hq ht (fun _ => rfl) hvalid.2
  rw [hrecord, hinv] at hput
  refine hput.trans ?_
  rw [Inventory.declareType]
  congr 1
  apply Inventory.mention_congr <;> intro n <;> simp

/-- The program after a declaration. -/
def declare (p : Program) : Declaration → Program
  | .type d => (p.declareType d).1
  | .unit d => (p.submit d).1
  | .graph g => p.load g

/-- The program after one declaration after another. -/
def declareAll (p : Program) (ds : List Declaration) : Program :=
  ds.foldl declare p

/-- What a program and an inventory keep when both are given a type or a unit,
    they keep under any declaration. -/
theorem declare_induction {P : Program → Inventory → Prop}
    (htype : ∀ p inv d, P p inv → P (p.declareType d).1 (inv.declareType d))
    (hunit : ∀ p inv d, P p inv → P (p.submit d).1 (inv.submit d)) {p : Program} {inv : Inventory}
    (h : P p inv) (d : Declaration) : P (p.declare d) (inv.declare d) := by
  cases d with
  | type t => exact htype p inv t h
  | unit u => exact hunit p inv u h
  | graph g =>
      -- All types of a graph go before its units.
      have htypes := List.foldl_rel (l := g.types) h fun t _ p inv => htype p inv t
      exact List.foldl_rel htypes fun u _ p inv => hunit p inv u

/-- A program that grows stays well formed, and its inventory follows. -/
theorem declareAll_inventory {p : Program} (hp : p.WellFormed) (ds : List Declaration) :
    (p.declareAll ds).WellFormed ∧ (p.declareAll ds).inventory = p.inventory.declareAll ds := by
  -- The inventory that is followed has to vary along with the program.
  suffices h : ∀ (ds : List Declaration) (p : Program) (inv : Inventory),
      p.WellFormed ∧ p.inventory = inv →
      (p.declareAll ds).WellFormed ∧ (p.declareAll ds).inventory = inv.declareAll ds from
    h ds p _ ⟨hp, rfl⟩
  intro ds
  induction ds with
  | nil => exact fun _ _ h => h
  | cons d rest ih =>
      intro p inv h
      refine ih (p.declare d) (inv.declare d)
        (declare_induction (P := fun p inv => p.WellFormed ∧ p.inventory = inv) ?_ ?_ h d)
      · rintro p _ t ⟨hp, rfl⟩
        exact ⟨declareType_wellFormed hp t, declareType_inventory hp t⟩
      · rintro p _ u ⟨hp, rfl⟩
        exact ⟨submit_wellFormed hp u, submit_inventory hp u⟩

theorem freeze_wellFormed {p : Program} (hp : p.WellFormed) : p.freeze.WellFormed := by
  rw [freeze]
  by_cases h : p.frozen = true
  · rw [if_pos h]
    exact hp
  · rw [if_neg h]
    have hkeeps : p.KeepsNames { p with index := p.buildIndex, frozen := true } :=
      ⟨fun _ h => ⟨h, rfl⟩, fun _ h => ⟨h, rfl⟩, fun _ h => ⟨h, rfl⟩⟩
    exact ⟨hp.unit_id, hp.unit_names, hp.type_names, hp.field_names,
      fun i u hu => inRange_keeps hkeeps (hp.units_inRange i u hu), hp.supertypes_inRange,
      hp.field_owners⟩

theorem freeze_inventory (p : Program) : p.freeze.inventory = p.inventory := by
  rw [freeze]
  by_cases h : p.frozen = true
  · rw [if_pos h]
  · rw [if_neg h]
    rfl

end Program

end CoreShell
