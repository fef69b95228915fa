import CoreShell.Proofs.Replacement

/-!
# Adding Client Code

A library is classified once, and then clients are added to it. Clients may call
the library, extend its types and read its fields, and the verdicts on the library
should not depend on them.

There are four ways in which they could. A client could declare a name again that
the library has already. It could declare a type that the library only mentions. It
could write a field that the library uses, so that the field is no longer
somebody's own. And it could bring a unit that overrides one of the library. Without
these, the program with the client looks up for units of the library what the
program without it looks up, and the two are compatible.

Nothing in this depends on which part is loaded first: the two parts declare
different names, so every declaration of one can be moved past those of the other.

## Main definitions

* `Inventory.Knows`: There is a type or a unit under a name.
* `Declaration.ClientCode`: Declarations that keep apart from others.

## Theorems

* `foldl_within`: Declarations of new names leave the rest alone.
* `foldl_append_comm`: Two parts without a common name can change places.
* `units_origin`: Where a record comes from.
* `ClientCode.compatible`: A library with a client is compatible with itself.
* `client_code_keeps_verdicts`: Every unit of the library keeps its verdict.
-/

namespace CoreShell

namespace Inventory

open Declaration (itemName)

/-- There is a type or a unit under the name. -/
def Knows (inv : Inventory) : String ⊕ String → Prop
  | .inl n => ∃ d, inv.types n = some d
  | .inr n => ∃ r, inv.units n = some r

theorem Knows.mention {inv : Inventory} {k : String ⊕ String} (h : inv.Knows k)
    (ts us : List String) : (inv.mention ts us).Knows k := by
  have hwithin : inv.Within (inv.mention ts us) :=
    Within.mention ⟨fun _ _ hr => hr, fun _ _ hd => hd⟩ ts us
  cases k with
  | inl n => exact h.imp fun d => hwithin.types n d
  | inr n => exact h.imp fun r => hwithin.units n r

theorem knows_putItem_self (inv : Inventory) (item : TypeDecl ⊕ UnitDecl) :
    (inv.putItem item).Knows (itemName item) := by
  cases item with
  | inl d => exact ⟨d, if_pos rfl⟩
  | inr d => exact ⟨_, if_pos rfl⟩

theorem Knows.putItem {inv : Inventory} {k : String ⊕ String} (h : inv.Knows k)
    (item : TypeDecl ⊕ UnitDecl) : (inv.putItem item).Knows k := by
  by_cases hk : itemName item = k
  · rw [← hk]
    exact inv.knows_putItem_self item
  -- A record under another name is not touched.
  rcases item with d | d <;> rcases k with n | n
  · rcases h with ⟨d', hd'⟩
    exact ⟨d', (if_neg fun hc => hk (congrArg Sum.inl hc.symm)).trans hd'⟩
  · exact h
  · exact h
  · rcases h with ⟨r, hr⟩
    exact ⟨r, (if_neg fun hc => hk (congrArg Sum.inr hc.symm)).trans hr⟩

/-- What is declared is known from then on. -/
theorem knows_foldl {l : List (TypeDecl ⊕ UnitDecl)} {item : TypeDecl ⊕ UnitDecl} (h : item ∈ l)
    (inv : Inventory) : (l.foldl declareItem inv).Knows (itemName item) := by
  induction l generalizing inv with
  | nil => exact absurd h List.not_mem_nil
  | cons x rest ih =>
      rcases List.mem_cons.1 h with rfl | hrest
      · rw [List.foldl_cons]
        refine List.foldlRecOn (motive := fun inv => inv.Knows (itemName item)) rest declareItem ?_
          fun inv hinv y _ => ?_
        · rw [declareItem_eq]
          exact knows_putItem_self _ item
        · rw [declareItem_eq]
          exact (hinv.mention _ _).putItem y
      · exact ih hrest _

theorem Within.putItem {inv inv' : Inventory} (h : inv.Within inv') {item : TypeDecl ⊕ UnitDecl}
    (hnew : ¬ inv.Knows (itemName item)) : inv.Within (inv'.putItem item) := by
  cases item with
  | inl d =>
      refine ⟨h.units, fun n d' hd' => ?_⟩
      have hne : n ≠ d.name := fun hc => hnew ⟨d', hc ▸ hd'⟩
      exact (if_neg hne).trans (h.types n d' hd')
  | inr d =>
      refine ⟨fun n r hr => ?_, h.types⟩
      have hne : n ≠ d.qualifiedName := fun hc => hnew ⟨r, hc ▸ hr⟩
      exact (if_neg hne).trans (h.units n r hr)

/-- Declarations of new names leave the rest alone. -/
theorem foldl_within (inv : Inventory) {l : List (TypeDecl ⊕ UnitDecl)}
    (hnew : ∀ item ∈ l, ¬ inv.Knows (itemName item)) : inv.Within (l.foldl declareItem inv) := by
  refine List.foldlRecOn l declareItem ⟨fun _ _ h => h, fun _ _ h => h⟩ fun inv' h item hitem => ?_
  rw [declareItem_eq]
  exact (h.mention _ _).putItem (hnew item hitem)

theorem declareItem_comm (inv : Inventory) {x y : TypeDecl ⊕ UnitDecl}
    (h : itemName x ≠ itemName y) :
    (inv.declareItem x).declareItem y = (inv.declareItem y).declareItem x := by
  simp only [declareItem_eq, mention_putItem]
  rw [putItem_comm _ h, mention_comm]

theorem foldl_declareItem_comm (inv : Inventory) {x : TypeDecl ⊕ UnitDecl}
    {l : List (TypeDecl ⊕ UnitDecl)} (h : ∀ y ∈ l, itemName x ≠ itemName y) :
    l.foldl declareItem (inv.declareItem x) = (l.foldl declareItem inv).declareItem x := by
  induction l generalizing inv with
  | nil => rfl
  | cons y rest ih =>
      rw [List.foldl_cons, List.foldl_cons, declareItem_comm inv (h y List.mem_cons_self)]
      exact ih _ fun z hz => h z (List.mem_cons_of_mem y hz)

/-- Two parts without a common name can change places. -/
theorem foldl_append_comm (inv : Inventory) {l l' : List (TypeDecl ⊕ UnitDecl)}
    (h : ∀ x ∈ l, ∀ y ∈ l', itemName x ≠ itemName y) :
    (l ++ l').foldl declareItem inv = (l' ++ l).foldl declareItem inv := by
  induction l generalizing inv with
  | nil => rw [List.nil_append, List.append_nil]
  | cons x rest ih =>
      have hrest := ih (inv.declareItem x) fun z hz => h z (List.mem_cons_of_mem x hz)
      rw [List.cons_append, List.foldl_cons, hrest, List.foldl_append, List.foldl_append,
        foldl_declareItem_comm inv (h x List.mem_cons_self)]
      rfl

/-- A record was there before, was made of a mention, or was declared. -/
theorem units_origin (inv : Inventory) (l : List (TypeDecl ⊕ UnitDecl)) {n : String}
    {r : UnitRecord} (h : (l.foldl declareItem inv).units n = some r) :
    inv.units n = some r ∨ r = { decl := UnitDecl.ofReference n, submitted := false } ∨
      ∃ d, Sum.inr d ∈ l ∧ d.qualifiedName = n ∧ r = { decl := d, submitted := true } := by
  have hmention : ∀ (inv' : Inventory) (ts us : List String),
      (inv'.mention ts us).units n = some r →
      inv'.units n = some r ∨ r = { decl := UnitDecl.ofReference n, submitted := false } := by
    intro inv' ts us h'
    rcases Option.or_eq_some_iff.1 h' with hknown | ⟨_, hnew⟩
    · exact Or.inl hknown
    · by_cases hn : n ∈ us
      · rw [if_pos hn] at hnew
        exact Or.inr (Option.some.inj hnew).symm
      · rw [if_neg hn] at hnew
        exact absurd hnew (by simp)
  induction l generalizing inv with
  | nil => exact Or.inl h
  | cons item rest ih =>
      rcases ih _ h with hbefore | hnew | ⟨d, hd, hdecl⟩
      · -- It was there after the first declaration, which may have made it.
        rcases item with d | d
        · exact (hmention inv (d.name :: d.supertypes) [] hbefore).imp_right Or.inl
        · by_cases hn : n = d.qualifiedName
          · have hr := (if_pos hn).symm.trans hbefore
            exact Or.inr (Or.inr ⟨d, List.mem_cons_self, hn.symm, (Option.some.inj hr).symm⟩)
          · exact (hmention _ _ _ ((if_neg hn).symm.trans hbefore)).imp_right Or.inl
      · exact Or.inr (Or.inl hnew)
      · exact Or.inr (Or.inr ⟨d, List.mem_cons_of_mem _ hd, hdecl⟩)

end Inventory

namespace Declaration

/-- The first declarations add client code to the second ones: they declare nothing
    that is known already, write no field that is used already, and bring no
    overrider of a unit that was declared already. -/
structure ClientCode (ds gs : List Declaration) : Prop where
  units_new : ∀ d ∈ ds.flatMap units,
    (({} : Program).declareAll gs).unitId? d.qualifiedName = none
  types_new : ∀ d ∈ ds.flatMap types, (({} : Program).declareAll gs).typeId? d.name = none
  fields_apart : ∀ d ∈ ds.flatMap units, ∀ d' ∈ gs.flatMap units, ∀ f ∈ d.writes,
    f ∉ d'.writes ∧ f ∉ d'.reads
  overriders_known : ∀ u ∈ (({} : Program).declareAll (gs ++ ds)).freeze.units.toList,
    (∃ d ∈ gs.flatMap units, d.qualifiedName = u.qualified) →
    ∀ o ∈ (({} : Program).declareAll (gs ++ ds)).freeze.overridersOf u,
      ((({} : Program).declareAll gs).unitId?
        ((({} : Program).declareAll (gs ++ ds)).freeze.unitName o)).isSome = true

end Declaration

open Declaration (ClientCode itemName)

namespace Program

theorem declareAll_frozen (ds : List Declaration) :
    (({} : Program).declareAll ds).frozen = false := by
  have hs := Session.start_declareAll .purity {} [] ds
  rw [← hs.program_eq]
  exact hs.frozen

theorem declareAll_freeze (ds : List Declaration) :
    (({} : Program).declareAll ds).freeze.WellFormed ∧
      (({} : Program).declareAll ds).freeze.Indexed :=
  ⟨freeze_wellFormed (declareAll_inventory wellFormed_empty ds).1,
    freeze_indexed (declareAll_frozen ds)⟩

theorem inventory_append (gs ds : List Declaration) :
    (({} : Program).declareAll (gs ++ ds)).inventory =
      (ds.flatMap Declaration.items).foldl Inventory.declareItem
        (({} : Program).declareAll gs).inventory := by
  rw [inventory_eq_foldl, inventory_eq_foldl, List.flatMap_append, List.foldl_append]

theorem unitId?_of_within {gs ds : List Declaration}
    (h : (({} : Program).declareAll gs).inventory.Within (({} : Program).declareAll ds).inventory)
    {name : String} (hknown : ((({} : Program).declareAll gs).unitId? name).isSome = true) :
    ((({} : Program).declareAll ds).unitId? name).isSome = true := by
  have hp := (declareAll_inventory wellFormed_empty gs).1
  have hq := (declareAll_inventory wellFormed_empty ds).1
  rcases Option.isSome_iff_exists.1 hknown with ⟨i, hi⟩
  rcases (unitId?_eq_some_iff hp).1 hi with ⟨u, hu, rfl⟩
  rcases exists_sameUnit_of_known hu (h.units _ _ (inventory_units_of_getElem? hp hu)) with
    ⟨j, u', v, hu', hv, hname⟩
  rw [Option.some.inj (hu'.symm.trans hu)] at hname
  exact Option.isSome_iff_exists.2 ⟨j, (unitId?_eq_some_iff hq).2 ⟨v, hv, hname.symm⟩⟩

/-- What is declared for a unit is in the declarations, or its name was enough. -/
theorem readUnit_origin {ds : List Declaration} {i : UnitId} {u : CodeUnit}
    (hu : (({} : Program).declareAll ds).freeze.units[i]? = some u) :
    u.submitted = false ∧
        (({} : Program).declareAll ds).freeze.readUnit u = UnitDecl.ofReference u.qualified ∨
      ∃ d ∈ ds.flatMap Declaration.units, d.qualifiedName = u.qualified ∧
        (({} : Program).declareAll ds).freeze.readUnit u = d := by
  have hknown := inventory_units_of_getElem? (declareAll_freeze ds).1 hu
  rw [freeze_inventory, inventory_eq_foldl] at hknown
  rcases Inventory.units_origin _ _ hknown with hempty | hnew | ⟨d, hd, hname, hrecord⟩
  · exact absurd hempty (by simp [inventory, entryAt])
  · exact Or.inl ⟨congrArg UnitRecord.submitted hnew, congrArg UnitRecord.decl hnew⟩
  · exact Or.inr ⟨d, Inventory.mem_items_inr hd, hname, congrArg UnitRecord.decl hrecord⟩

end Program

namespace Declaration.ClientCode

variable {ds gs : List Declaration} (h : ClientCode ds gs)
include h

theorem names_new {item : TypeDecl ⊕ UnitDecl} (hitem : item ∈ ds.flatMap items) :
    ¬ (({} : Program).declareAll gs).inventory.Knows (itemName item) := by
  have hp := (Program.declareAll_inventory Program.wellFormed_empty gs).1
  rcases item with d | d
  · rintro ⟨d', hd'⟩
    rcases Option.map_eq_some_iff.1 hd' with ⟨t, ht, _⟩
    rcases of_entryAt_eq_some ht with ⟨hname, i, hi⟩
    have hnone := h.types_new d (Inventory.mem_items_inl hitem)
    rcases findIdx?_cases TypeInfo.name d.name (({} : Program).declareAll gs).types with
      ⟨j, _, _, _, hfind⟩ | ⟨hfree, _⟩
    · exact absurd (hfind.symm.trans hnone) (by simp)
    · exact hfree i t hi hname
  · rintro ⟨r, hr⟩
    rcases Option.map_eq_some_iff.1 hr with ⟨u, hu, _⟩
    rcases of_entryAt_eq_some hu with ⟨hname, i, hi⟩
    have hfind := (Program.unitId?_eq_some_iff hp).2 ⟨u, hi, hname⟩
    have hnone := h.units_new d (Inventory.mem_items_inr hitem)
    exact absurd (hfind.symm.trans hnone) (by simp)

theorem inventory_within : (({} : Program).declareAll gs).inventory.Within
    (({} : Program).declareAll (gs ++ ds)).inventory := by
  rw [Program.inventory_append]
  exact Inventory.foldl_within _ fun item hitem => h.names_new hitem

/-- It does not matter whether the client comes before or after. -/
theorem inventory_comm : (({} : Program).declareAll (gs ++ ds)).inventory =
    (({} : Program).declareAll (ds ++ gs)).inventory := by
  rw [Program.inventory_eq_foldl, Program.inventory_eq_foldl, List.flatMap_append,
    List.flatMap_append]
  refine Inventory.foldl_append_comm _ fun x hx y hy heq => ?_
  -- A common name would be known before the client is added.
  refine h.names_new hy ?_
  rw [← heq, Program.inventory_eq_foldl]
  exact Inventory.knows_foldl hx _

/-- The client writes no field that a unit of the library uses. -/
theorem field_not_mem_writes {u v : CodeUnit}
    (hw : Program.Twins (({} : Program).declareAll (gs ++ ds)).freeze
      (({} : Program).declareAll gs).freeze u v)
    {f : FieldId} (hf : f ∈ u.writes ++ u.reads) {d : UnitDecl} (hd : d ∈ ds.flatMap units) :
    (({} : Program).declareAll (gs ++ ds)).freeze.field f ∉ d.writes := by
  intro hwritten
  have hused : (({} : Program).declareAll (gs ++ ds)).freeze.field f ∈
      ((({} : Program).declareAll gs).freeze.readUnit v).writes ++
        ((({} : Program).declareAll gs).freeze.readUnit v).reads := by
    rw [← hw.decl, Program.readUnit, ← List.map_append]
    exact List.mem_map_of_mem hf
  rcases Program.readUnit_origin hw.right with ⟨_, hread⟩ | ⟨d', hd', _, hread⟩
  · -- A name tells nothing about fields.
    rw [hread] at hused
    exact absurd hused (by simp [UnitDecl.ofReference])
  · rw [hread] at hused
    exact absurd (List.mem_append.1 hused) (not_or.2 (h.fields_apart d hd d' hd' _ hwritten))

/-- What the rules look up for a unit of the library belongs to the library. -/
theorem covers : Program.Covers (({} : Program).declareAll (gs ++ ds)).freeze
    (({} : Program).declareAll gs).freeze := by
  rcases Program.declareAll_freeze (gs ++ ds) with ⟨hp, hindex⟩
  rcases Program.declareAll_freeze gs with ⟨hq, _⟩
  refine ⟨fun u v hw hsub _ o ho => ?_, fun u v hw f hf i hi => ?_⟩
  · rcases (Program.mem_overridersOf hp hindex u o).1 ho with ⟨w, hunit, _⟩
    have hdeclared : ∃ d ∈ gs.flatMap units, d.qualifiedName = u.qualified := by
      rcases Program.readUnit_origin hw.right with ⟨hexternal, _⟩ | ⟨d, hd, hname, _⟩
      · rw [← hw.submitted, hsub] at hexternal
        exact absurd hexternal (by decide)
      · exact ⟨d, hd, hname.trans hw.qualified.symm⟩
    refine Program.exists_sameUnit_of_named hq hunit ?_
    rw [Program.unitId?, Session.freeze_units]
    exact h.overriders_known u (hp.mem_units.2 hw.left) hdeclared o ho
  · have hrange := hp.units_inRange _ u hw.left
    have hlt := (List.mem_append.1 hf).elim (hrange.writes f) (hrange.reads f)
    rcases (Program.mem_writersOf hp hindex hlt i).1 hi with ⟨w, hunit, hsub, hwrites⟩
    have hknown := Program.inventory_units_of_getElem? hp hunit
    rw [Program.freeze_inventory, Program.inventory_append] at hknown
    -- Whoever writes the field was there before, or is a unit of the client.
    rcases Inventory.units_origin _ _ hknown with hbefore | hnew | ⟨d, hd, _, hrecord⟩
    · rw [← Program.freeze_inventory] at hbefore
      exact Program.exists_sameUnit_of_known hunit hbefore
    · exact absurd (hsub.symm.trans (congrArg UnitRecord.submitted hnew)) (by simp)
    · refine absurd ?_ (h.field_not_mem_writes hw hf (Inventory.mem_items_inr hd))
      rw [← show _ = d from congrArg UnitRecord.decl hrecord]
      exact List.mem_map_of_mem hwrites

/-- A library with a client is compatible with itself. -/
theorem compatible : Program.Compatible (({} : Program).declareAll (gs ++ ds)).freeze
    (({} : Program).declareAll gs).freeze := by
  rcases Program.declareAll_freeze (gs ++ ds) with ⟨hp, hindex⟩
  rcases Program.declareAll_freeze gs with ⟨hq, hindex'⟩
  refine Program.compatible_of_within hp hq hindex hindex' ?_ h.covers
  rw [Program.freeze_inventory, Program.freeze_inventory]
  exact h.inventory_within

theorem alike : Program.Alike (({} : Program).declareAll (gs ++ ds)).freeze
    (({} : Program).declareAll (ds ++ gs)).freeze := by
  rcases Program.declareAll_freeze (gs ++ ds) with ⟨hp, hindex⟩
  rcases Program.declareAll_freeze (ds ++ gs) with ⟨hq, hindex'⟩
  refine ⟨hp, hq, hindex, hindex', ?_⟩
  rw [Program.freeze_inventory, Program.freeze_inventory]
  exact h.inventory_comm

end Declaration.ClientCode

namespace Session

/-- A name that two compatible programs know has the same grade in both. -/
theorem query_eq_of_compatible {axis : Axis} {catalog : Catalog} {scope : List String}
    {gs gs' : List Declaration} {t t' : Session} {summary summary' : RunSummary}
    (hrun : ((start axis catalog scope).declareAll gs).run = .ok (t, summary))
    (hrun' : ((start axis catalog scope).declareAll gs').run = .ok (t', summary'))
    (hcompatible : Program.Compatible (({} : Program).declareAll gs).freeze
      (({} : Program).declareAll gs').freeze) {name : String}
    (hknown : ((({} : Program).declareAll gs).unitId? name).isSome = true)
    (hknown' : ((({} : Program).declareAll gs').unitId? name).isSome = true) :
    ∃ g, t.query name = .ok g ∧ t'.query name = .ok g := by
  have hs := start_declareAll axis catalog scope gs
  have hs' := start_declareAll axis catalog scope gs'
  rcases run_outcome hs.lawful hs.frozen hs.maxRounds_eq with ⟨r, _, hr, _, _, houtcome⟩
  rcases run_outcome hs'.lawful hs'.frozen hs'.maxRounds_eq with ⟨r', _, hr', _, _, houtcome'⟩
  rw [(Prod.mk.inj (Except.ok.inj (hrun.symm.trans hr))).1,
    (Prod.mk.inj (Except.ok.inj (hrun'.symm.trans hr'))).1]
  rcases Option.isSome_iff_exists.1 hknown with ⟨i, hi⟩
  rcases Option.isSome_iff_exists.1 hknown' with ⟨j, hj⟩
  rw [← hs.program_eq] at hi hcompatible
  rw [← hs'.program_eq] at hj hcompatible
  rcases (Program.unitId?_eq_some_iff hs.lawful.wellFormed).1 hi with ⟨u, hu, rfl⟩
  rcases (Program.unitId?_eq_some_iff hs'.lawful.wellFormed).1 hj with ⟨v, hv, hname⟩
  rw [← freeze_units] at hu hv
  refine ⟨r.session.gradeOf i, houtcome.query_eq hu _, ?_⟩
  rw [← hname, houtcome'.query_eq hv, houtcome.gradeOf_eq houtcome'
    (hs.axis_eq.trans hs'.axis_eq.symm) (hs.catalog_eq.trans hs'.catalog_eq.symm) hcompatible
    ⟨u, v, hu, hv, hname.symm⟩]

/-- Adding client code does not change a verdict. Declare a library and run without
    a limit, and do the same with client code declared after the library, or before
    it. Every unit that the library declares or mentions ends with the same grade. -/
theorem client_code_keeps_verdicts (axis : Axis) (catalog : Catalog) (scope : List String)
    (gs ds : List Declaration) (h : ClientCode ds gs) :
    ∃ t summary t' summary' t'' summary'',
      ((start axis catalog scope).declareAll gs).run = .ok (t, summary) ∧
      ((start axis catalog scope).declareAll (gs ++ ds)).run = .ok (t', summary') ∧
      ((start axis catalog scope).declareAll (ds ++ gs)).run = .ok (t'', summary'') ∧
      ∀ name, ((({} : Program).declareAll gs).unitId? name).isSome = true →
        ∃ g, t.query name = .ok g ∧ t'.query name = .ok g ∧ t''.query name = .ok g := by
  have hs := start_declareAll axis catalog scope gs
  have hs' := start_declareAll axis catalog scope (gs ++ ds)
  have hs'' := start_declareAll axis catalog scope (ds ++ gs)
  rcases run_outcome hs.lawful hs.frozen hs.maxRounds_eq with ⟨r, summary, hrun, _⟩
  rcases run_outcome hs'.lawful hs'.frozen hs'.maxRounds_eq with ⟨r', summary', hrun', _⟩
  rcases run_outcome hs''.lawful hs''.frozen hs''.maxRounds_eq with ⟨r'', summary'', hrun'', _⟩
  refine ⟨_, summary, _, summary', _, summary'', hrun, hrun', hrun'', fun name hknown => ?_⟩
  have hknown' := Program.unitId?_of_within h.inventory_within hknown
  have hknown'' := Program.unitId?_of_within
    ⟨fun n r hr => h.inventory_comm ▸ hr, fun n d hd => h.inventory_comm ▸ hd⟩ hknown'
  rcases query_eq_of_compatible hrun hrun' h.compatible.symm hknown hknown' with
    ⟨g, hquery, hquery'⟩
  rcases query_eq_of_compatible hrun' hrun'' h.alike.compatible hknown' hknown'' with
    ⟨g', hsame, hquery''⟩
  rw [← Except.ok.inj (hquery'.symm.trans hsame)] at hquery''
  exact ⟨g, hquery, hquery', hquery''⟩

/-- An interface with one unit behind it. -/
def shapeLibrary : List Declaration :=
  [.graph {
    types := [TypeDecl.interface "a.Shape", (TypeDecl.concrete "a.Disc").extending "a.Shape"]
    units := [(UnitDecl.method "a.Shape" "area").asAbstract,
      (UnitDecl.method "a.Disc" "area").reading "a.Disc" "radius"] }]

/-- A client that extends the interface, calls it, and counts its calls. -/
def posterClient : List Declaration :=
  [.graph {
    types := [(TypeDecl.concrete "c.Poster").extending "a.Shape"]
    units := [((UnitDecl.method "c.Poster" "print").calling "a.Shape" "a.Shape.area()").writing
      "c.Poster" "count"] }]

/-- The client inherits from the library and overrides none of it. -/
theorem client_code_keeps_verdicts_posterClient :
    ClientCode posterClient shapeLibrary ∧
    ∃ t summary t' summary' t'' summary'',
      ((start .purity {} []).declareAll shapeLibrary).run = .ok (t, summary) ∧
      ((start .purity {} []).declareAll (shapeLibrary ++ posterClient)).run = .ok (t', summary') ∧
      ((start .purity {} []).declareAll (posterClient ++ shapeLibrary)).run =
        .ok (t'', summary'') ∧
      t.query "a.Shape.area()" = .ok .strict ∧ t'.query "a.Shape.area()" = .ok .strict ∧
      t''.query "a.Shape.area()" = .ok .strict := by
  have hoverriders : ((({} : Program).declareAll (shapeLibrary ++ posterClient)).freezeWithin 4).map
      (fun p => decide (∀ u ∈ p.units.toList,
        (∃ d ∈ shapeLibrary.flatMap Declaration.units, d.qualifiedName = u.qualified) →
        ∀ o ∈ p.overridersOf u, ((({} : Program).declareAll shapeLibrary).unitId?
          (p.unitName o)).isSome = true)) = some true := by decide +kernel
  rcases Option.map_eq_some_iff.1 hoverriders with ⟨p, hp, hknown⟩
  have hfreeze := Program.freeze_of_within (Program.declareAll_frozen _) hp
  have hclient : ClientCode posterClient shapeLibrary := by
    refine ⟨by decide +kernel, by decide +kernel, by decide +kernel, ?_⟩
    rw [hfreeze]
    exact of_decide_eq_true hknown
  rcases client_code_keeps_verdicts .purity {} [] shapeLibrary posterClient hclient with
    ⟨t, summary, t', summary', t'', summary'', hrun, hrun', hrun'', hsame⟩
  rcases hsame "a.Shape.area()" (by decide +kernel) with ⟨g, hquery, hquery', hquery''⟩
  have hs := start_declareAll .purity {} [] shapeLibrary
  have hcheck : (fun x => x.1.query "a.Shape.area()") <$>
      ((start .purity {} []).declareAll shapeLibrary).run = .ok (.ok .strict) :=
    map_run_of_within (n := 4) hs.frozen (by decide +kernel)
  rw [hrun] at hcheck
  have hstrict : g = .strict := Except.ok.inj (hquery.symm.trans (Except.ok.inj hcheck))
  rw [hstrict] at hquery hquery' hquery''
  exact ⟨hclient, t, summary, t', summary', t'', summary'', hrun, hrun', hrun'', hquery, hquery',
    hquery''⟩

end Session

end CoreShell
