import CoreShell.Proofs.Facts
import CoreShell.Proofs.Verdict

/-!
# Programs with the Same Declarations

Two programs with the same inventory differ in the order of their entries and
in nothing else. Every unit of one has a twin in the other, under the same name
and with the same declaration, and whatever the rules look up about one twin
they find about the other: the same local outcome, call targets that are twins,
overriders that are twins. So a verdict on one is a verdict on the other, as long
as twins are given the same grades.

For that it is enough that the programs agree on what both of them know. A
program may know more than another, as long as it finds none of that among the
overriders and writers that the rules look up for a unit of both.

## Main definitions

* `SameKey`: Positions in two arrays with the same key.
* `Program.Alike`: Frozen programs with the same inventory.
* `Program.Twins`: Units of two programs with the same name and declaration.
* `Program.Matched`: Lists of units that are twins of each other.
* `Program.Compatible`: Frozen programs that agree on what both of them know.

## Theorems

* `Alike.compatible`: The same inventory is the simplest way to agree.
* `compatible_of_within`: Another way is to know more and look up the same.
* `Compatible.twins`: Units with the same name are twins.
* `Twins.judge_eq`: Local rules agree on twins.
* `Twins.targets_matched`, `Twins.exposed_matched`, `Twins.overriders_matched`:
  What the other rules look up about twins.
* `Twins.verdict`: Verdicts on twins agree.
-/

namespace CoreShell

open Relation (ReflTransGen)

section Keys

variable {α κ : Type}

/-- The positions stand for the same key in both arrays. -/
def SameKey (key : α → κ) (a b : Array α) (i j : Nat) : Prop :=
  ∃ x y, a[i]? = some x ∧ b[j]? = some y ∧ key x = key y

theorem SameKey.symm {key : α → κ} {a b : Array α} {i j : Nat} (h : SameKey key a b i j) :
    SameKey key b a j i := by
  rcases h with ⟨x, y, hx, hy, heq⟩
  exact ⟨y, x, hy, hx, heq.symm⟩

/-- With distinct keys, positions match one to one. -/
theorem SameKey.right_unique {key : α → κ} {a b : Array α} {i j j' : Nat} (hb : Distinct key b)
    (h : SameKey key a b i j) (h' : SameKey key a b i j') : j = j' := by
  rcases h with ⟨x, y, hx, hy, heq⟩
  rcases h' with ⟨x', y', hx', hy', heq'⟩
  rw [hx, Option.some.injEq] at hx'
  subst hx'
  exact hb j j' y y' hy hy' (heq.symm.trans heq')

end Keys

section Lists

variable {α β γ δ : Type} {l : List α} {l' : List β} {n : α → γ} {n' : β → γ}

/-- What depends on the names only is the same for lists with the same names. -/
theorem map_eq_of_map_eq (h : l.map n = l'.map n') {f : α → δ} {f' : β → δ}
    (hf : ∀ a ∈ l, ∀ b ∈ l', n a = n' b → f a = f' b) : l.map f = l'.map f' := by
  induction l generalizing l' with
  | nil =>
      rw [List.map_nil, eq_comm, List.map_eq_nil_iff] at h
      rw [h, List.map_nil, List.map_nil]
  | cons a rest ih =>
      rcases l' with _ | ⟨b, rest'⟩
      · exact absurd h (by simp)
      · rw [List.map_cons, List.map_cons, List.cons.injEq] at h ⊢
        refine ⟨hf a List.mem_cons_self b List.mem_cons_self h.1, ih h.2 fun a' ha' b' hb' => ?_⟩
        exact hf a' (List.mem_cons_of_mem _ ha') b' (List.mem_cons_of_mem _ hb')

theorem find?_eq_of_map_eq (h : l.map n = l'.map n') (f : α → Bool) (f' : β → Bool)
    (hf : ∀ a ∈ l, ∀ b ∈ l', n a = n' b → f a = f' b) :
    (l.find? f).map n = (l'.find? f').map n' := by
  induction l generalizing l' with
  | nil =>
      rw [List.map_nil, eq_comm, List.map_eq_nil_iff] at h
      rw [h]
      rfl
  | cons a rest ih =>
      rcases l' with _ | ⟨b, rest'⟩
      · exact absurd h (by simp)
      · rw [List.map_cons, List.map_cons, List.cons.injEq] at h
        have hhead := hf a List.mem_cons_self b List.mem_cons_self h.1
        have htail := ih h.2 fun a' ha' b' hb' =>
          hf a' (List.mem_cons_of_mem _ ha') b' (List.mem_cons_of_mem _ hb')
        -- Either both searches stop at the head or both go on.
        rw [List.find?_cons, List.find?_cons, hhead]
        cases f' b with
        | true => exact congrArg some h.1
        | false => exact htail

/-- A member has a counterpart in a list with the same names. -/
theorem exists_of_map_eq (h : l.map n = l'.map n') {a : α} (ha : a ∈ l) :
    ∃ b ∈ l', n a = n' b := by
  have hmem : n a ∈ l'.map n' := h ▸ List.mem_map_of_mem ha
  rcases List.mem_map.1 hmem with ⟨b, hb, heq⟩
  exact ⟨b, hb, heq.symm⟩

end Lists

namespace Program

/-- Frozen programs with the same inventory. -/
structure Alike (p q : Program) : Prop where
  left : p.WellFormed
  right : q.WellFormed
  left_indexed : p.Indexed
  right_indexed : q.Indexed
  inventory : p.inventory = q.inventory

theorem Alike.symm {p q : Program} (h : Alike p q) : Alike q p :=
  ⟨h.right, h.left, h.right_indexed, h.left_indexed, h.inventory.symm⟩

/-- Positions of units with the same name. -/
def SameUnit (p q : Program) : UnitId → UnitId → Prop :=
  SameKey CodeUnit.qualified p.units q.units

/-- Positions of types with the same name. -/
def SameType (p q : Program) : TypeId → TypeId → Prop :=
  SameKey TypeInfo.name p.types q.types

/-- Positions of the same field. -/
def SameField (p q : Program) : FieldId → FieldId → Prop :=
  SameKey (fun f : FieldRef => f) p.fields q.fields

theorem sameUnit_of_name {p q : Program} {i j : UnitId} (hi : i < p.units.size)
    (hj : j < q.units.size) (h : p.unitName i = q.unitName j) : SameUnit p q i j := by
  rcases getElem?_of_lt_size hi with ⟨u, hu⟩
  rcases getElem?_of_lt_size hj with ⟨v, hv⟩
  rw [unitName_of_getElem? hu, unitName_of_getElem? hv] at h
  exact ⟨u, v, hu, hv, h⟩

theorem sameType_of_name {p q : Program} {i j : TypeId} (hi : i < p.types.size)
    (hj : j < q.types.size) (h : p.typeName i = q.typeName j) : SameType p q i j := by
  rcases getElem?_of_lt_size hi with ⟨t, ht⟩
  rcases getElem?_of_lt_size hj with ⟨s, hs⟩
  rw [typeName_of_getElem? ht, typeName_of_getElem? hs] at h
  exact ⟨t, s, ht, hs, h⟩

theorem sameField_of_field {p q : Program} {i j : FieldId} (hi : i < p.fields.size)
    (hj : j < q.fields.size) (h : p.field i = q.field j) : SameField p q i j := by
  rcases getElem?_of_lt_size hi with ⟨f, hf⟩
  rcases getElem?_of_lt_size hj with ⟨g, hg⟩
  rw [field_of_getElem? hf, field_of_getElem? hg] at h
  exact ⟨f, g, hf, hg, h⟩

/-- Units of two programs with the same name and the same declaration. -/
structure Twins (p q : Program) (u v : CodeUnit) : Prop where
  left : p.units[u.id]? = some u
  right : q.units[v.id]? = some v
  qualified : u.qualified = v.qualified
  decl : p.readUnit u = q.readUnit v
  submitted : u.submitted = v.submitted

theorem Twins.symm {p q : Program} {u v : CodeUnit} (h : Twins p q u v) : Twins q p v u :=
  ⟨h.right, h.left, h.qualified.symm, h.decl.symm, h.submitted.symm⟩

theorem Twins.sameUnit {p q : Program} {u v : CodeUnit} (h : Twins p q u v) :
    SameUnit p q u.id v.id :=
  ⟨u, v, h.left, h.right, h.qualified⟩

/-- Lists of units that are twins of each other. -/
structure Matched (p q : Program) (l l' : List UnitId) : Prop where
  left : ∀ i ∈ l, ∃ j ∈ l', SameUnit p q i j
  right : ∀ j ∈ l', ∃ i ∈ l, SameUnit p q i j

/-- A unit of one program that the other one knows by name has a counterpart
    there. -/
theorem exists_sameUnit_of_known {p q : Program} {i : UnitId} {u : CodeUnit}
    (hu : p.units[i]? = some u) {r : UnitRecord} (hr : q.inventory.units u.qualified = some r) :
    ∃ j, SameUnit p q i j := by
  rw [Program.inventory] at hr
  rcases Option.map_eq_some_iff.1 hr with ⟨v, hv, _⟩
  rcases of_entryAt_eq_some hv with ⟨hname, j, hj⟩
  exact ⟨j, u, v, hu, hj, hname.symm⟩

/-- What the rules look up in `p` for a unit of both programs is known to `q`. -/
structure Covers (p q : Program) : Prop where
  overriders : ∀ u v, Twins p q u v → u.submitted = true → p.dispatchesVirtually u = true →
    ∀ o ∈ p.overridersOf u, ∃ j, SameUnit p q o j
  writers : ∀ u v, Twins p q u v → ∀ f ∈ u.writes ++ u.reads,
    ∀ i ∈ p.writersOf f, ∃ j, SameUnit p q i j

/-- Frozen programs that agree on what both of them know, and know of each other
    what the rules look up. -/
structure Compatible (p q : Program) : Prop where
  left : p.WellFormed
  right : q.WellFormed
  left_indexed : p.Indexed
  right_indexed : q.Indexed
  units : ∀ n r r', p.inventory.units n = some r → q.inventory.units n = some r' → r = r'
  types : ∀ n d d', p.inventory.types n = some d → q.inventory.types n = some d' → d = d'
  forth : Covers p q
  back : Covers q p

theorem Compatible.symm {p q : Program} (h : Compatible p q) : Compatible q p :=
  ⟨h.right, h.left, h.right_indexed, h.left_indexed,
    fun n r r' hr hr' => (h.units n r' r hr' hr).symm,
    fun n d d' hd hd' => (h.types n d' d hd' hd).symm, h.back, h.forth⟩

/-- The writers of a field that a unit touches are submitted units. -/
theorem exists_of_mem_writersOf {p : Program} (hp : p.WellFormed) (hindex : p.Indexed)
    {u : CodeUnit} (hu : p.units[u.id]? = some u) {f : FieldId} (hf : f ∈ u.writes ++ u.reads)
    {i : UnitId} (hi : i ∈ p.writersOf f) : ∃ w, p.units[i]? = some w ∧ w.submitted = true := by
  have hrange := hp.units_inRange _ u hu
  have hlt := (List.mem_append.1 hf).elim (hrange.writes f) (hrange.reads f)
  rcases (mem_writersOf hp hindex hlt i).1 hi with ⟨w, hunit, hsub, _⟩
  exact ⟨w, hunit, hsub⟩

/-- A program that knows every unit of another knows what is looked up there. -/
theorem covers_of_all {p q : Program} (hp : p.WellFormed) (hindex : p.Indexed)
    (hall : ∀ i u, p.units[i]? = some u → ∃ j, SameUnit p q i j) : Covers p q := by
  refine ⟨fun u v _ _ _ o ho => ?_, fun u v hw f hf i hi => ?_⟩
  · rcases (mem_overridersOf hp hindex u o).1 ho with ⟨w, hunit, _⟩
    exact hall o w hunit
  · rcases exists_of_mem_writersOf hp hindex hw.left hf hi with ⟨w, hunit, _⟩
    exact hall i w hunit

namespace Alike

variable {p q : Program} (h : Alike p q)
include h

/-- Every unit has a counterpart. -/
theorem exists_sameUnit {i : UnitId} {u : CodeUnit} (hu : p.units[i]? = some u) :
    ∃ j, SameUnit p q i j := by
  have hknown := inventory_units_of_getElem? h.left hu
  rw [h.inventory] at hknown
  exact exists_sameUnit_of_known hu hknown

/-- The same inventory is the simplest way to agree. -/
theorem compatible : Compatible p q := by
  refine ⟨h.left, h.right, h.left_indexed, h.right_indexed, fun n r r' hr hr' => ?_,
    fun n d d' hd hd' => ?_, covers_of_all h.left h.left_indexed fun _ _ hu => h.exists_sameUnit hu,
    covers_of_all h.right h.right_indexed fun _ _ hu => h.symm.exists_sameUnit hu⟩
  · rw [h.inventory] at hr
    exact Option.some.inj (hr.symm.trans hr')
  · rw [h.inventory] at hd
    exact Option.some.inj (hd.symm.trans hd')

end Alike

/-- A program that knows more is compatible, if it does not look up more. -/
theorem compatible_of_within {p q : Program} (hp : p.WellFormed) (hq : q.WellFormed)
    (hindex : p.Indexed) (hindex' : q.Indexed) (hwithin : q.inventory.Within p.inventory)
    (hcovers : Covers p q) : Compatible p q := by
  refine ⟨hp, hq, hindex, hindex', fun n r r' hr hr' => ?_, fun n d d' hd hd' => ?_, hcovers, ?_⟩
  · exact Option.some.inj (hr.symm.trans (hwithin.units n r' hr'))
  · exact Option.some.inj (hd.symm.trans (hwithin.types n d' hd'))
  · refine covers_of_all hq hindex' fun j v hv => ?_
    exact exists_sameUnit_of_known hv (hwithin.units _ _ (inventory_units_of_getElem? hq hv))

namespace Compatible

variable {p q : Program} (h : Compatible p q)
include h

/-- Units with the same name are twins. -/
theorem twins {i j : UnitId} (hij : SameUnit p q i j) :
    ∃ u v, u.id = i ∧ v.id = j ∧ Twins p q u v := by
  rcases hij with ⟨u, v, hu, hv, hname⟩
  have hi := h.left.unit_id i u hu
  have hj := h.right.unit_id j v hv
  have hknown := inventory_units_of_getElem? h.left hu
  rw [hname] at hknown
  have hsame := h.units _ _ _ hknown (inventory_units_of_getElem? h.right hv)
  rw [UnitRecord.mk.injEq] at hsame
  exact ⟨u, v, hi, hj, by rw [hi]; exact hu, by rw [hj]; exact hv, hname, hsame.1, hsame.2⟩

theorem twins_of_left {u : CodeUnit} (hu : p.units[u.id]? = some u) {j : UnitId}
    (hj : SameUnit p q u.id j) : ∃ v, Twins p q u v := by
  rcases h.twins hj with ⟨u', v, hid, _, htwins⟩
  have hsame := htwins.left
  rw [hid, hu, Option.some.injEq] at hsame
  subst hsame
  exact ⟨v, htwins⟩

/-- Types with the same name are declared alike. -/
theorem readType_eq {a b : TypeId} (hab : SameType p q a b) :
    ∃ t s, p.types[a]? = some t ∧ q.types[b]? = some s ∧ p.readType t = q.readType s := by
  rcases hab with ⟨t, s, ht, hs, hname⟩
  have hknown := inventory_types_of_getElem? h.left ht
  rw [hname] at hknown
  exact ⟨t, s, ht, hs, h.types _ _ _ hknown (inventory_types_of_getElem? h.right hs)⟩

theorem dispatchOf_eq {a b : TypeId} (hab : SameType p q a b) :
    p.dispatchOf a = q.dispatchOf b := by
  rcases h.readType_eq hab with ⟨t, s, ht, hs, heq⟩
  have hdispatch : t.dispatch = s.dispatch := congrArg TypeDecl.dispatch heq
  simp only [dispatchOf, ht, hs, Option.map_some, Option.getD_some, hdispatch]

/-- Paths upwards lead to the same types. -/
theorem reaches {a b : TypeId} (hpath : ReflTransGen p.Extends a b) {a' : TypeId}
    (ha : SameType p q a a') : ∃ b', SameType p q b b' ∧ ReflTransGen q.Extends a' b' := by
  induction hpath with
  | refl => exact ⟨a', ha, .refl⟩
  | @tail b c _ hedge ih =>
      -- The last type on the path has a counterpart, which lists the same supertypes.
      rcases ih with ⟨b', hb, hpath'⟩
      rcases h.readType_eq hb with ⟨t, s, ht, hs, heq⟩
      rcases hedge with ⟨t', ht', hc⟩
      rw [ht, Option.some.injEq] at ht'
      subst ht'
      have hsupers : t.supertypes.map p.typeName = s.supertypes.map q.typeName :=
        congrArg TypeDecl.supertypes heq
      rcases exists_of_map_eq hsupers hc with ⟨c', hc', hname⟩
      refine ⟨c', ?_, hpath'.tail ⟨s, hs, hc'⟩⟩
      exact sameType_of_name (h.left.supertypes_inRange b t ht c hc)
        (h.right.supertypes_inRange b' s hs c' hc') hname

/-- Proper supertypes correspond. -/
theorem below {a a' b b' : TypeId} (ha : SameType p q a a') (hb : SameType p q b b')
    (hbelow : p.Below a b) : q.Below a' b' := by
  rcases hbelow with ⟨hne, hpath⟩
  rcases h.reaches hpath ha with ⟨c', hc, hpath'⟩
  -- The path in the other program ends at `b'`, since names are unique there.
  rw [hb.right_unique h.right.type_names hc]
  refine ⟨fun heq => hne ?_, hpath'⟩
  rw [heq] at hc
  exact hc.symm.right_unique h.left.type_names ha.symm

end Compatible

/-- What one twin always has a counterpart for is matched, since the other is
    its twin. -/
theorem matched_of_exists {f : Program → CodeUnit → List UnitId}
    (hf : ∀ {p q : Program} {u v : CodeUnit}, Twins p q u v → Compatible p q →
      ∀ t ∈ f p u, ∃ t' ∈ f q v, SameUnit p q t t') {p q : Program} {u v : CodeUnit}
    (hw : Twins p q u v) (h : Compatible p q) : Matched p q (f p u) (f q v) := by
  refine ⟨hf hw h, fun t ht => ?_⟩
  rcases hf hw.symm h.symm t ht with ⟨t', ht', hsame⟩
  exact ⟨t', ht', hsame.symm⟩

namespace Twins

variable {p q : Program} {u v : CodeUnit} (hw : Twins p q u v)
include hw

theorem kind_eq : u.kind = v.kind :=
  congrArg UnitDecl.kind hw.decl

theorem isConstructor_eq : u.isConstructor = v.isConstructor := by
  rw [CodeUnit.isConstructor, CodeUnit.isConstructor, hw.kind_eq]

theorem calls_eq : u.calls.map p.readCall = v.calls.map q.readCall :=
  congrArg UnitDecl.calls hw.decl

variable (h : Compatible p q)
include h

theorem owner_sameType : SameType p q u.owner v.owner :=
  sameType_of_name (h.left.units_inRange _ u hw.left).owner
    (h.right.units_inRange _ v hw.right).owner (congrArg UnitDecl.owner hw.decl)

theorem dispatchesVirtually_eq : p.dispatchesVirtually u = q.dispatchesVirtually v := by
  have habstract : u.isAbstract = v.isAbstract := congrArg UnitDecl.isAbstract hw.decl
  rw [dispatchesVirtually, dispatchesVirtually, habstract,
    h.dispatchOf_eq (hw.owner_sameType h)]

theorem isConcrete_eq : p.isConcrete u = q.isConcrete v := by
  have habstract : u.isAbstract = v.isAbstract := congrArg UnitDecl.isAbstract hw.decl
  rw [isConcrete, isConcrete, hw.isConstructor_eq, habstract,
    h.dispatchOf_eq (hw.owner_sameType h)]

/-- The targets of call sites with the same declaration. -/
theorem sameUnit_of_readCall {c c' : CallSite} (hc : c ∈ u.calls) (hc' : c' ∈ v.calls)
    (heq : p.readCall c = q.readCall c') {t : UnitId} (ht : t ∈ c.targets) :
    ∃ t' ∈ c'.targets, SameUnit p q t t' := by
  have htargets : c.targets.map p.unitName = c'.targets.map q.unitName :=
    congrArg CallDecl.targets heq
  rcases exists_of_map_eq htargets ht with ⟨t', ht', hname⟩
  refine ⟨t', ht', sameUnit_of_name ?_ ?_ hname⟩
  · exact ((h.left.units_inRange _ u hw.left).calls c hc).2 t ht
  · exact ((h.right.units_inRange _ v hw.right).calls c' hc').2 t' ht'

/-- Whatever one twin may call has a twin that the other may call. -/
theorem exists_target {t : UnitId} (ht : t ∈ u.targets) : ∃ t' ∈ v.targets, SameUnit p q t t' := by
  rcases List.mem_flatMap.1 ht with ⟨c, hc, htc⟩
  rcases exists_of_map_eq hw.calls_eq hc with ⟨c', hc', heq⟩
  rcases hw.sameUnit_of_readCall h hc hc' heq htc with ⟨t', ht', hsame⟩
  exact ⟨t', List.mem_flatMap.2 ⟨c', hc', ht'⟩, hsame⟩

theorem targets_matched : Matched p q u.targets v.targets :=
  matched_of_exists (f := fun _ u => u.targets) (fun hw h _ ht => hw.exists_target h ht) hw h

/-- A type that one twin constructs is constructed by the other. -/
theorem mem_constructedTypes {a b : TypeId} (hab : SameType p q a b)
    (ha : a ∈ p.constructedTypes u) : b ∈ q.constructedTypes v := by
  rcases List.mem_filterMap.1 ha with ⟨k, hk, howner⟩
  rcases Option.map_eq_some_iff.1 howner with ⟨w, hw', rfl⟩
  have hconstructs : u.constructs.map p.unitName = v.constructs.map q.unitName :=
    congrArg UnitDecl.constructs hw.decl
  rcases exists_of_map_eq hconstructs hk with ⟨k', hk', hname⟩
  have hsame := sameUnit_of_name (lt_size_of_getElem? hw')
    ((h.right.units_inRange _ v hw.right).constructs k' hk') hname
  rcases h.twins hsame with ⟨w₁, w₂, rfl, rfl, htwins⟩
  rw [htwins.left, Option.some.injEq] at hw'
  subst hw'
  refine List.mem_filterMap.2 ⟨_, hk', Option.map_eq_some_iff.2 ⟨w₂, htwins.right, ?_⟩⟩
  exact (htwins.owner_sameType h).right_unique h.right.type_names hab

theorem exists_exposed {t : UnitId} (ht : t ∈ p.exposedTargets u) :
    ∃ t' ∈ q.exposedTargets v, SameUnit p q t t' := by
  rcases List.mem_flatMap.1 ht with ⟨c, hc, htc⟩
  rcases List.mem_filter.1 hc with ⟨hc, hexposed⟩
  rcases exists_of_map_eq hw.calls_eq hc with ⟨c', hc', heq⟩
  rcases hw.sameUnit_of_readCall h hc hc' heq htc with ⟨t', ht', hsame⟩
  have howner : SameType p q c.owner c'.owner :=
    sameType_of_name ((h.left.units_inRange _ u hw.left).calls c hc).1
      ((h.right.units_inRange _ v hw.right).calls c' hc').1 (congrArg CallDecl.owner heq)
  refine ⟨t', List.mem_flatMap.2 ⟨c', List.mem_filter.2 ⟨hc', ?_⟩, ht'⟩, hsame⟩
  -- What the other twin constructs, this one does, so the call stays exposed.
  rw [decide_eq_true_eq] at hexposed ⊢
  exact fun hmem => hexposed (hw.symm.mem_constructedTypes h.symm howner.symm hmem)

theorem exposed_matched : Matched p q (p.exposedTargets u) (q.exposedTargets v) :=
  matched_of_exists (fun hw h _ ht => hw.exists_exposed h ht) hw h

/-- Whatever overrides one twin has a twin that overrides the other. -/
theorem exists_overrider (hsub : u.submitted = true) (hvirtual : p.dispatchesVirtually u = true)
    {o : UnitId} (ho : o ∈ p.overridersOf u) : ∃ o' ∈ q.overridersOf v, SameUnit p q o o' := by
  rcases (mem_overridersOf h.left h.left_indexed u o).1 ho with
    ⟨w, hunit, hconcrete, hbelow, hname, hparams⟩
  have hid := h.left.unit_id o w hunit
  subst hid
  -- The twin of an overrider has a body, the same signature and the same supertypes.
  rcases h.forth.overriders u v hw hsub hvirtual w.id ho with ⟨j, hj⟩
  rcases h.twins_of_left hunit hj with ⟨w', htwins⟩
  refine ⟨w'.id, ?_, htwins.sameUnit⟩
  refine (mem_overridersOf h.right h.right_indexed v w'.id).2 ⟨w', htwins.right, ?_, ?_, ?_, ?_⟩
  · rw [← htwins.isConcrete_eq h]
    exact hconcrete
  · exact h.below (htwins.owner_sameType h) (hw.owner_sameType h) hbelow
  · exact (congrArg UnitDecl.name htwins.decl).symm.trans
      (hname.trans (congrArg UnitDecl.name hw.decl))
  · exact (congrArg UnitDecl.parameters htwins.decl).symm.trans
      (hparams.trans (congrArg UnitDecl.parameters hw.decl))

theorem overriders_matched (hsub : u.submitted = true) (hvirtual : p.dispatchesVirtually u = true) :
    Matched p q (p.overridersOf u) (q.overridersOf v) := by
  refine ⟨fun o ho => hw.exists_overrider h hsub hvirtual ho, fun o ho => ?_⟩
  rw [hw.submitted] at hsub
  rw [hw.dispatchesVirtually_eq h] at hvirtual
  rcases hw.symm.exists_overrider h.symm hsub hvirtual ho with ⟨o', ho', hsame⟩
  exact ⟨o', ho', hsame.symm⟩

/-- A field that one twin writes is written by the other. -/
theorem mem_writes {f f' : FieldId} (hff' : SameField p q f f') (hf : f ∈ u.writes) :
    f' ∈ v.writes := by
  have hwrites : u.writes.map p.field = v.writes.map q.field := congrArg UnitDecl.writes hw.decl
  rcases exists_of_map_eq hwrites hf with ⟨f'', hf'', heq⟩
  have hsame := sameField_of_field ((h.left.units_inRange _ u hw.left).writes f hf)
    ((h.right.units_inRange _ v hw.right).writes f'' hf'') heq
  rw [hff'.right_unique h.right.field_names hsame]
  exact hf''

theorem exists_writer {f f' : FieldId} (hf : f ∈ u.writes ++ u.reads) (hff' : SameField p q f f')
    {i : UnitId} (hi : i ∈ p.writersOf f) : ∃ j ∈ q.writersOf f', SameUnit p q i j := by
  rcases hff' with ⟨x, y, hx, hy, heq⟩
  rcases (mem_writersOf h.left h.left_indexed (lt_size_of_getElem? hx) i).1 hi with
    ⟨w, hunit, hsub, hwrites⟩
  have hid := h.left.unit_id i w hunit
  subst hid
  rcases h.forth.writers u v hw f hf w.id hi with ⟨j, hj⟩
  rcases h.twins_of_left hunit hj with ⟨w', htwins⟩
  refine ⟨w'.id, ?_, htwins.sameUnit⟩
  refine (mem_writersOf h.right h.right_indexed (lt_size_of_getElem? hy) w'.id).2
    ⟨w', htwins.right, htwins.submitted ▸ hsub, ?_⟩
  exact htwins.mem_writes h ⟨x, y, hx, hy, heq⟩ hwrites

/-- The writers of a field that both twins touch. -/
theorem writers_matched {f f' : FieldId} (hf : f ∈ u.writes ++ u.reads)
    (hf' : f' ∈ v.writes ++ v.reads) (hff' : SameField p q f f') :
    Matched p q (p.writersOf f) (q.writersOf f') := by
  refine ⟨fun i hi => hw.exists_writer h hf hff' hi, fun j hj => ?_⟩
  rcases hw.symm.exists_writer h.symm hf' hff'.symm hj with ⟨i, hi, hsame⟩
  exact ⟨i, hi, hsame.symm⟩

end Twins

theorem Compatible.isConstructorAt_eq {p q : Program} (h : Compatible p q) {i j : UnitId}
    (hij : SameUnit p q i j) : p.isConstructorAt i = q.isConstructorAt j := by
  rcases h.twins hij with ⟨u, v, rfl, rfl, hw⟩
  simp only [isConstructorAt, hw.left, hw.right, Option.map_some, Option.getD_some,
    hw.isConstructor_eq]

/-- Matched lists stay matched when twins are kept alike. -/
theorem Matched.filter {p q : Program} {l l' : List UnitId} (hl : Matched p q l l')
    (f f' : UnitId → Bool) (hf : ∀ i j, SameUnit p q i j → f i = f' j) :
    Matched p q (l.filter f) (l'.filter f') := by
  refine ⟨fun i hi => ?_, fun j hj => ?_⟩
  · rcases List.mem_filter.1 hi with ⟨hi, hkeep⟩
    rcases hl.left i hi with ⟨j, hj, hij⟩
    exact ⟨j, List.mem_filter.2 ⟨hj, hf i j hij ▸ hkeep⟩, hij⟩
  · rcases List.mem_filter.1 hj with ⟨hj, hkeep⟩
    rcases hl.right j hj with ⟨i, hi, hij⟩
    exact ⟨i, List.mem_filter.2 ⟨hi, (hf i j hij).symm ▸ hkeep⟩, hij⟩

theorem Matched.isEmpty_eq {p q : Program} {l l' : List UnitId} (hl : Matched p q l l') :
    l.isEmpty = l'.isEmpty := by
  rw [Bool.eq_iff_iff, List.isEmpty_iff, List.isEmpty_iff, List.eq_nil_iff_forall_not_mem,
    List.eq_nil_iff_forall_not_mem]
  constructor
  · intro hnone j hj
    rcases hl.right j hj with ⟨i, hi, _⟩
    exact hnone i hi
  · intro hnone i hi
    rcases hl.left i hi with ⟨j, hj, _⟩
    exact hnone j hj

/-- All members are one unit if all counterparts are its twin. -/
theorem Matched.all_eq {p q : Program} (h : Compatible p q) {l l' : List UnitId}
    (hl : Matched p q l l') {i₀ j₀ : UnitId} (hsame : SameUnit p q i₀ j₀) :
    (l.all fun i => decide (i = i₀)) = l'.all fun j => decide (j = j₀) := by
  rw [Bool.eq_iff_iff, List.all_eq_true, List.all_eq_true]
  simp only [decide_eq_true_eq]
  constructor
  · intro hall j hj
    rcases hl.right j hj with ⟨i, hi, hij⟩
    rw [hall i hi] at hij
    exact hij.right_unique h.right.unit_names hsame
  · intro hall i hi
    rcases hl.left i hi with ⟨j, hj, hij⟩
    rw [hall j hj] at hij
    exact hij.symm.right_unique h.left.unit_names hsame.symm

theorem eq_singleton_iff {l : List UnitId} (hl : l.Nodup) (i : UnitId) :
    l = [i] ↔ l.isEmpty = false ∧ (l.all fun j => decide (j = i)) = true := by
  rcases l with _ | ⟨a, _ | ⟨b, rest⟩⟩
  · simp
  · simp
  · simp only [List.nodup_cons, List.mem_cons, not_or] at hl
    simp only [List.cons.injEq, reduceCtorEq, and_false, List.isEmpty_cons, List.all_cons,
      Bool.and_eq_true, decide_eq_true_eq, true_and, false_iff]
    rintro ⟨rfl, rfl, _⟩
    exact hl.1.1 rfl

namespace Twins

variable {p q : Program} {u v : CodeUnit} (hw : Twins p q u v) (h : Compatible p q)
  {f f' : FieldId} (hf : f ∈ u.writes ++ u.reads) (hf' : f' ∈ v.writes ++ v.reads)
  (hff' : SameField p q f f')
include hw h hf hf' hff'

theorem writeScope_eq : p.writeScope u f = q.writeScope v f' := by
  have hmatched := hw.writers_matched h hf hf' hff'
  rcases hff' with ⟨x, y, hx, hy, _⟩
  have hleft := writersOf_nodup h.left h.left_indexed (lt_size_of_getElem? hx)
  have hright := writersOf_nodup h.right h.right_indexed (lt_size_of_getElem? hy)
  -- Lists without repetition are compared by their members.
  rw [writeScope, writeScope]
  simp only [eq_singleton_iff hleft, eq_singleton_iff hright, hmatched.isEmpty_eq,
    hmatched.all_eq h hw.sameUnit]

theorem readScope_eq : p.readScope u f = q.readScope v f' := by
  -- Twins are constructors both or neither, so the same writers are left out.
  have hmatched := (hw.writers_matched h hf hf' hff').filter (fun i => !p.isConstructorAt i)
    (fun j => !q.isConstructorAt j) fun i j hij => by rw [h.isConstructorAt_eq hij]
  rw [readScope, readScope, hmatched.isEmpty_eq, hmatched.all_eq h hw.sameUnit]

end Twins

/-- Local rules agree on twins. -/
theorem Twins.judge_eq {p q : Program} {u v : CodeUnit} (hw : Twins p q u v) (h : Compatible p q)
    (axis : Axis) : axis.judge p u = axis.judge q v := by
  have hnative : u.native = v.native := congrArg UnitDecl.native hw.decl
  have hvoid : u.returnsVoid = v.returnsVoid := congrArg UnitDecl.returnsVoid hw.decl
  have hwrites : u.writes.map p.field = v.writes.map q.field := congrArg UnitDecl.writes hw.decl
  have hreads : u.reads.map p.field = v.reads.map q.field := congrArg UnitDecl.reads hw.decl
  have hleft := h.left.units_inRange _ u hw.left
  have hright := h.right.units_inRange _ v hw.right
  -- The rules look at fields through their scopes, which twins share.
  cases axis with
  | purity =>
      have hscopes : u.writes.map (p.writeScope u) = v.writes.map (q.writeScope v) :=
        map_eq_of_map_eq hwrites fun f hf f' hf' heq => hw.writeScope_eq h
          (List.mem_append_left _ hf) (List.mem_append_left _ hf')
          (sameField_of_field (hleft.writes f hf) (hright.writes f' hf') heq)
      simp only [Axis.judge, Axis.judgePurity, hw.isConstructor_eq, hvoid, hnative, hw.qualified,
        hw.dispatchesVirtually_eq h, hscopes]
  | determinism =>
      have hscope : ∀ f ∈ u.reads, ∀ f' ∈ v.reads, p.field f = q.field f' →
          p.readScope u f = q.readScope v f' := fun f hf f' hf' heq => hw.readScope_eq h
        (List.mem_append_right _ hf) (List.mem_append_right _ hf')
        (sameField_of_field (hleft.reads f hf) (hright.reads f' hf') heq)
      have hscopes := map_eq_of_map_eq hreads hscope
      have hfind := find?_eq_of_map_eq hreads (fun f => decide (p.readScope u f = .shared))
        (fun f => decide (q.readScope v f = .shared))
        fun f hf f' hf' heq => by rw [hscope f hf f' hf' heq]
      simp only [Axis.judge, Axis.judgeDeterminism, hw.isConstructor_eq, hvoid, hnative,
        hw.qualified, hw.dispatchesVirtually_eq h, hscopes]
      -- The first shared field is the same one, so the message is, too.
      rcases hl : u.reads.find? fun f => decide (p.readScope u f = .shared) with _ | f
      · rw [hl, Option.map_none, eq_comm, Option.map_eq_none_iff] at hfind
        rw [hfind]
      · rw [hl, Option.map_some, eq_comm, Option.map_eq_some_iff] at hfind
        rcases hfind with ⟨f', hf', heq⟩
        simp only [hf', heq]

end Program

open Program (Compatible Twins SameUnit Matched)

section Matched

variable {p q : Program} {u v : CodeUnit} {grade grade' : UnitId → Grade}
  (hgrade : ∀ i j, SameUnit p q i j → grade i = grade' j)
include hgrade

/-- What holds of the grades of all members holds of those of their
    counterparts. -/
theorem Program.Matched.all_grades {l l' : List UnitId} (hl : Matched p q l l')
    {P : Grade → Prop} (hall : ∀ i ∈ l, P (grade i)) : ∀ j ∈ l', P (grade' j) := by
  intro j hj
  rcases hl.right j hj with ⟨i, hi, hij⟩
  rw [← hgrade i j hij]
  exact hall i hi

theorem Program.Matched.exists_grade {l l' : List UnitId} (hl : Matched p q l l') {i : UnitId}
    (hi : i ∈ l) : ∃ j ∈ l', grade' j = grade i := by
  rcases hl.left i hi with ⟨j, hj, hij⟩
  exact ⟨j, hj, (hgrade i j hij).symm⟩

theorem CallVerdict.matched {floor g : Grade} (htargets : Matched p q u.targets v.targets)
    (hexposed : Matched p q (p.exposedTargets u) (q.exposedTargets v))
    (hv : CallVerdict p u floor grade g) : CallVerdict q v floor grade' g := by
  have hdecided := htargets.all_grades hgrade (P := fun g => g.isFinal = true) hv.decided
  cases hv with
  | absorbed _ hexp hfails =>
      rcases hexposed.exists_grade hgrade hexp with ⟨t, ht, heq⟩
      exact .absorbed hdecided ht (heq.trans hfails)
  | lowered _ hsafe hmem hdomain =>
      rcases htargets.exists_grade hgrade hmem with ⟨t, ht, heq⟩
      exact .lowered hdecided (hexposed.all_grades hgrade (P := (· ≠ .not)) hsafe) ht
        (heq.trans hdomain)
  | kept _ hsafe hhigh =>
      exact .kept hdecided (hexposed.all_grades hgrade (P := (· ≠ .not)) hsafe)
        (htargets.all_grades hgrade (P := (· ≠ .domain)) hhigh)

theorem DispatchVerdict.matched {g : Grade}
    (hoverriders : Matched p q (p.overridersOf u) (q.overridersOf v))
    (hv : DispatchVerdict p u grade g) : DispatchVerdict q v grade' g := by
  cases hv with
  | strict hsome hall =>
      refine .strict (fun hnone => hsome ?_)
        (hoverriders.all_grades hgrade (P := (· = .strict)) hall)
      have hempty := hoverriders.isEmpty_eq
      rw [hnone] at hempty
      exact List.isEmpty_iff.1 hempty
  | domain hall hmem hdomain =>
      rcases hoverriders.exists_grade hgrade hmem with ⟨o, ho, heq⟩
      have hfree := hoverriders.all_grades hgrade (P := fun g => g = .strict ∨ g = .domain) hall
      exact .domain hfree ho (heq.trans hdomain)
  | failed hmem hfails =>
      rcases hoverriders.exists_grade hgrade hmem with ⟨o, ho, heq⟩
      exact .failed ho (heq.trans hfails)

/-- Verdicts on twins agree if twins are given the same grades. -/
theorem Program.Twins.verdict (hw : Twins p q u v) (h : Compatible p q)
    (hsub : u.submitted = true) {axis : Axis} {g : Grade} (hv : UnitVerdict axis p u grade g) :
    UnitVerdict axis q v grade' g := by
  cases hv with
  | rejected hjudge => exact .rejected ((hw.judge_eq h axis).symm.trans hjudge)
  | called hjudge hcalls =>
      exact .called ((hw.judge_eq h axis).symm.trans hjudge)
        (hcalls.matched hgrade (hw.targets_matched h) (hw.exposed_matched h))
  | dispatched hjudge hdispatch =>
      exact .dispatched ((hw.judge_eq h axis).symm.trans hjudge)
        (hdispatch.matched hgrade (hw.overriders_matched h hsub (judge_dispatch hjudge)))

end Matched

end CoreShell
