import CoreShell.Proofs.Evaluation
import CoreShell.Proofs.Order

/-!
# Declaring Again

The later of two declarations of one name counts, but the earlier one is not
quite forgotten: the names it mentioned stay known. An inventory after repeated
declarations is therefore the one after the last of each name, with some names
mentioned on top.

Such a name stands for an external unit, and nothing follows from it as long as
the rules do not come across it. They do not when they look up call targets and
writers, which are named by the declarations that count. But an external unit
can override another by its name alone. `ring_still_overrides` is a program in
which a unit stays unsure because of a call that its caller no longer makes, and
`resubmission_replaces` says that this is the only way to tell the programs apart.

## Main definitions

* `Declaration.lastItems`: The last declaration of every name.
* `Declaration.latest`: The same, as a list of declarations.
* `Program.NoLeftover`: No overrider is left of a declaration that was replaced.

## Theorems

* `foldl_putItem`: A record that is replaced later makes no difference.
* `foldl_lastItems`: Of replaced declarations only mentions are left.
* `compatible_of_mention`: Mentions make no difference unless they override.
* `resubmission_replaces`: Without leftovers, only the last declarations count.
-/

namespace CoreShell

namespace Declaration

/-- The name of the type or of the unit that is declared. -/
def itemName : TypeDecl ⊕ UnitDecl → String ⊕ String
  | .inl d => .inl d.name
  | .inr d => .inr d.qualifiedName

/-- The last declaration of every name. -/
def lastItems : List (TypeDecl ⊕ UnitDecl) → List (TypeDecl ⊕ UnitDecl)
  | [] => []
  | item :: rest =>
    if ∃ later ∈ rest, itemName later = itemName item then lastItems rest
    else item :: lastItems rest

/-- A single declaration by itself. -/
def ofItem : TypeDecl ⊕ UnitDecl → Declaration
  | .inl d => .type d
  | .inr d => .unit d

/-- The declarations that are not replaced by a later one. -/
def latest (ds : List Declaration) : List Declaration :=
  (lastItems (ds.flatMap items)).map ofItem

theorem items_ofItem (item : TypeDecl ⊕ UnitDecl) : (ofItem item).items = [item] := by
  cases item <;> rfl

theorem flatMap_items_latest (ds : List Declaration) :
    (latest ds).flatMap items = lastItems (ds.flatMap items) := by
  simp only [latest, List.flatMap_map, items_ofItem, List.flatMap_singleton']

end Declaration

namespace Inventory

open Declaration (itemName lastItems)

/-- The inventory with the record of a single declaration. -/
def putItem (inv : Inventory) : TypeDecl ⊕ UnitDecl → Inventory
  | .inl d => inv.putType d
  | .inr d => inv.putUnit d.qualifiedName { decl := d, submitted := true }

/-- The types and units that a single declaration mentions. -/
def mentions : TypeDecl ⊕ UnitDecl → List String × List String
  | .inl d => (d.name :: d.supertypes, [])
  | .inr d => (d.mentionedTypes, d.mentionedUnits)

theorem declareItem_eq (inv : Inventory) (item : TypeDecl ⊕ UnitDecl) :
    inv.declareItem item =
      (inv.mention (mentions item).1 (mentions item).2).putItem item := by
  cases item <;> rfl

theorem mention_putItem (inv : Inventory) (item : TypeDecl ⊕ UnitDecl) (ts us : List String) :
    (inv.putItem item).mention ts us = (inv.mention ts us).putItem item := by
  cases item with
  | inl d => exact mention_putType inv d ts us
  | inr d => exact mention_putUnit inv d.qualifiedName _ ts us

/-- The later of two records under one name counts. -/
theorem putItem_putItem (inv : Inventory) {x y : TypeDecl ⊕ UnitDecl}
    (h : itemName x = itemName y) : (inv.putItem x).putItem y = inv.putItem y := by
  rcases x with d | d <;> rcases y with d' | d' <;>
    simp only [itemName, Sum.inl.injEq, Sum.inr.injEq, reduceCtorEq] at h
  · ext m : 2
    · rfl
    · by_cases hm : m = d'.name <;> simp [putItem, putType, h, hm]
  · ext m : 2
    · by_cases hm : m = d'.qualifiedName <;> simp [putItem, putUnit, h, hm]
    · rfl

theorem putItem_comm (inv : Inventory) {x y : TypeDecl ⊕ UnitDecl}
    (h : itemName x ≠ itemName y) : (inv.putItem x).putItem y = (inv.putItem y).putItem x := by
  rcases x with d | d <;> rcases y with d' | d'
  · exact putType_comm inv fun hc => h (congrArg Sum.inl hc)
  · rfl
  · rfl
  · exact putUnit_comm inv _ _ fun hc => h (congrArg Sum.inr hc)

theorem declareItem_mention (inv : Inventory) (item : TypeDecl ⊕ UnitDecl) (ts us : List String) :
    (inv.mention ts us).declareItem item = (inv.declareItem item).mention ts us := by
  rw [declareItem_eq, declareItem_eq, mention_putItem, mention_comm]

theorem foldl_mention (inv : Inventory) (l : List (TypeDecl ⊕ UnitDecl)) (ts us : List String) :
    l.foldl declareItem (inv.mention ts us) = (l.foldl declareItem inv).mention ts us := by
  induction l generalizing inv with
  | nil => rfl
  | cons item rest ih => rw [List.foldl_cons, declareItem_mention, ih, List.foldl_cons]

/-- A record that is replaced later makes no difference. -/
theorem foldl_putItem (inv : Inventory) {x : TypeDecl ⊕ UnitDecl} {l : List (TypeDecl ⊕ UnitDecl)}
    (h : ∃ later ∈ l, itemName later = itemName x) :
    l.foldl declareItem (inv.putItem x) = l.foldl declareItem inv := by
  induction l generalizing inv with
  | nil => simp at h
  | cons y rest ih =>
      rw [List.foldl_cons, List.foldl_cons, declareItem_eq, mention_putItem]
      by_cases hname : itemName y = itemName x
      · rw [putItem_putItem _ hname.symm, ← declareItem_eq]
      · -- The record moves past this declaration, on to the one that replaces it.
        rw [putItem_comm _ (Ne.symm hname), ← declareItem_eq]
        rcases h with ⟨later, hmem, hlater⟩
        rcases List.mem_cons.1 hmem with rfl | hmem
        · exact absurd hlater hname
        · exact ih _ ⟨later, hmem, hlater⟩

/-- Of replaced declarations only mentions are left. -/
theorem foldl_lastItems (inv : Inventory) (l : List (TypeDecl ⊕ UnitDecl)) :
    ∃ ts us, l.foldl declareItem inv = ((lastItems l).foldl declareItem inv).mention ts us := by
  induction l generalizing inv with
  | nil => exact ⟨[], [], (mention_nil inv).symm⟩
  | cons x rest ih =>
      rw [lastItems]
      -- A declaration that is replaced loses its record and leaves its mentions.
      by_cases hlater : ∃ later ∈ rest, itemName later = itemName x
      · rcases ih inv with ⟨ts, us, hrest⟩
        refine ⟨ts ++ (mentions x).1, us ++ (mentions x).2, ?_⟩
        rw [if_pos hlater, List.foldl_cons, declareItem_eq, foldl_putItem _ hlater, foldl_mention,
          hrest, mention_mention]
      · rw [if_neg hlater, List.foldl_cons, List.foldl_cons]
        exact ih (inv.declareItem x)

/-- The unit under a name was submitted. -/
def Submitted (inv : Inventory) (n : String) : Prop :=
  ∃ d, inv.units n = some { decl := d, submitted := true }

/-- What was submitted once stays submitted. -/
theorem submitted_declareItem {inv : Inventory} {n : String} (h : inv.Submitted n)
    (item : TypeDecl ⊕ UnitDecl) : (inv.declareItem item).Submitted n := by
  rcases h with ⟨d, hd⟩
  rcases item with t | u
  · exact ⟨d, by simp [declareItem, declareType, putType, mention, hd]⟩
  · by_cases hn : n = u.qualifiedName
    · exact ⟨u, by simp [declareItem, submit, putUnit, hn]⟩
    · exact ⟨d, by simp [declareItem, submit, putUnit, mention, hn, hd]⟩

theorem submitted_foldl {l : List (TypeDecl ⊕ UnitDecl)} {d : UnitDecl} (h : Sum.inr d ∈ l)
    (inv : Inventory) : (l.foldl declareItem inv).Submitted d.qualifiedName := by
  have hkeep : ∀ (l : List (TypeDecl ⊕ UnitDecl)) (inv : Inventory),
      inv.Submitted d.qualifiedName → (l.foldl declareItem inv).Submitted d.qualifiedName := by
    intro l
    induction l with
    | nil => exact fun _ h => h
    | cons item rest ih => exact fun inv h => ih _ (submitted_declareItem h item)
  induction l generalizing inv with
  | nil => exact absurd h List.not_mem_nil
  | cons item rest ih =>
      rcases List.mem_cons.1 h with rfl | hrest
      · exact hkeep rest _ ⟨d, by simp [declareItem, submit, putUnit]⟩
      · exact ih hrest _

/-- A mention submits nothing. -/
theorem Submitted.of_mention {inv : Inventory} {n : String} {ts us : List String}
    (h : (inv.mention ts us).Submitted n) : inv.Submitted n := by
  rcases h with ⟨d, hd⟩
  rcases hr : inv.units n with _ | r
  · by_cases hn : n ∈ us <;> simp [mention, hr, hn] at hd
  · simp only [mention, hr, Option.some_or, Option.some.injEq] at hd
    exact ⟨d, by rw [hr, hd]⟩

end Inventory

namespace Program

/-- Every unit that overrides a submitted one in `p` is known to `q`, so that
    none of them is left of a declaration that was replaced. -/
def NoLeftover (p q : Program) : Prop :=
  ∀ u ∈ p.units.toList, u.submitted = true → p.dispatchesVirtually u = true →
    ∀ o ∈ p.overridersOf u, (q.unitId? (p.unitName o)).isSome = true

/-- It is enough that every unit is known. -/
theorem noLeftover_of_known {p q : Program} (hp : p.WellFormed) (hindex : p.Indexed)
    (h : ∀ u ∈ p.units.toList, (q.unitId? u.qualified).isSome = true) : NoLeftover p q := by
  intro u _ _ _ o ho
  rcases (mem_overridersOf hp hindex u o).1 ho with ⟨w, hunit, _⟩
  have hid := hp.unit_id o w hunit
  subst hid
  rw [unitName_of_getElem? hunit]
  exact h w (hp.mem_units.2 hunit)

theorem exists_sameUnit_of_named {p q : Program} (hq : q.WellFormed) {i : UnitId} {u : CodeUnit}
    (hu : p.units[i]? = some u) (h : (q.unitId? (p.unitName i)).isSome = true) :
    ∃ j, SameUnit p q i j := by
  rcases Option.isSome_iff_exists.1 h with ⟨j, hj⟩
  rcases (unitId?_eq_some_iff hq).1 hj with ⟨v, hv, hname⟩
  exact ⟨j, u, v, hu, hv, by rw [hname, unitName_of_getElem? hu]⟩

section Mention

variable {p q : Program} {ts us : List String} (hp : p.WellFormed) (hq : q.WellFormed)
  (h : p.inventory = q.inventory.mention ts us)
include hp h

/-- A submitted unit of the program with mentions is one of the other. -/
theorem exists_sameUnit_of_submitted {i : UnitId} {u : CodeUnit} (hu : p.units[i]? = some u)
    (hsub : u.submitted = true) : ∃ j, SameUnit p q i j := by
  have hknown := inventory_units_of_getElem? hp hu
  rw [hsub, h] at hknown
  rcases Inventory.Submitted.of_mention ⟨_, hknown⟩ with ⟨d, hd⟩
  exact exists_sameUnit_of_known hu hd

include hq

/-- Mentions make no difference unless they override. -/
theorem compatible_of_mention (hindex : p.Indexed) (hindex' : q.Indexed)
    (hleft : NoLeftover p q) : Compatible p q := by
  have hwithin : q.inventory.Within p.inventory := by
    rw [h]
    exact Inventory.Within.mention ⟨fun _ _ hr => hr, fun _ _ hd => hd⟩ ts us
  refine compatible_of_within hp hq hindex hindex' hwithin ⟨?_, ?_⟩
  · intro u v hw hsub hvirtual o ho
    rcases (mem_overridersOf hp hindex u o).1 ho with ⟨w, hunit, _⟩
    exact exists_sameUnit_of_named hq hunit (hleft u (hp.mem_units.2 hw.left) hsub hvirtual o ho)
  · -- Only submitted units write fields.
    intro u v hw f hf i hi
    rcases exists_of_mem_writersOf hp hindex hw.left hf hi with ⟨w, hunit, hsub⟩
    exact exists_sameUnit_of_submitted hp h hunit hsub

end Mention

theorem inventory_eq_foldl (ds : List Declaration) :
    (({} : Program).declareAll ds).inventory =
      (ds.flatMap Declaration.items).foldl Inventory.declareItem ({} : Program).inventory := by
  rw [(declareAll_inventory wellFormed_empty ds).2, Inventory.declareAll_eq_foldl]

theorem latest_inventory (ds : List Declaration) :
    ∃ ts us, (({} : Program).declareAll ds).inventory =
      (({} : Program).declareAll (Declaration.latest ds)).inventory.mention ts us := by
  rw [inventory_eq_foldl, inventory_eq_foldl, Declaration.flatMap_items_latest]
  exact Inventory.foldl_lastItems _ _

/-- Every unit that was submitted is there. -/
theorem exists_submitted {ds : List Declaration} {d : UnitDecl}
    (hd : d ∈ ds.flatMap Declaration.units) :
    ∃ (i : UnitId) (u : CodeUnit), (({} : Program).declareAll ds).units[i]? = some u ∧
      u.qualified = d.qualifiedName ∧ u.submitted = true := by
  have hitem : Sum.inr d ∈ ds.flatMap Declaration.items := by
    rcases List.mem_flatMap.1 hd with ⟨e, he, hunit⟩
    exact List.mem_flatMap.2 ⟨e, he, List.mem_append_right _ (List.mem_map_of_mem hunit)⟩
  rcases Inventory.submitted_foldl hitem ({} : Program).inventory with ⟨d', hd'⟩
  rw [← inventory_eq_foldl, inventory] at hd'
  rcases Option.map_eq_some_iff.1 hd' with ⟨u, hfind, hrecord⟩
  rcases of_entryAt_eq_some hfind with ⟨hname, i, hu⟩
  exact ⟨i, u, hu, hname, congrArg UnitRecord.submitted hrecord⟩

end Program

namespace Session

/-- A unit is found under its name at the end of a run. -/
theorem Outcome.query_eq {s : Session} {r : Progress} (h : s.Outcome r.session) {i : UnitId}
    {u : CodeUnit} (hu : s.program.freeze.units[i]? = some u) (bound : Nat) :
    (r.finish bound).query u.qualified = .ok (r.session.gradeOf i) := by
  have hfind : (r.finish bound).program.unitId? u.qualified = some i := by
    rw [r.finish_program]
    exact (Program.unitId?_eq_some_iff h.current.wellFormed).2 ⟨u, by rw [h.program_eq, hu], rfl⟩
  simp only [query, hfind, r.finish_gradeOf]

/-- Declare types and submit units, under one name as often as you like, and
    run without a limit. If no overrider is left of a declaration that was
    replaced, every submitted unit ends with the grade that it gets if only the
    last declaration of every name is made. -/
theorem resubmission_replaces (axis : Axis) (catalog : Catalog) (scope : List String)
    (ds : List Declaration)
    (hleft : Program.NoLeftover ((start axis catalog scope).declareAll ds).program.freeze
      ((start axis catalog scope).declareAll (Declaration.latest ds)).program.freeze) :
    ∃ t summary t' summary',
      ((start axis catalog scope).declareAll ds).run = .ok (t, summary) ∧
      ((start axis catalog scope).declareAll (Declaration.latest ds)).run = .ok (t', summary') ∧
      ∀ d ∈ ds.flatMap Declaration.units, ∃ g, t.query d.qualifiedName = .ok g ∧
        t'.query d.qualifiedName = .ok g := by
  have hs := start_declareAll axis catalog scope ds
  have hs' := start_declareAll axis catalog scope (Declaration.latest ds)
  rcases run_outcome hs.lawful hs.frozen hs.maxRounds_eq with ⟨r, summary, hrun, _, _, h⟩
  rcases run_outcome hs'.lawful hs'.frozen hs'.maxRounds_eq with ⟨r', summary', hrun', _, _, h'⟩
  refine ⟨_, summary, _, summary', hrun, hrun', fun d hd => ?_⟩
  -- The two programs differ in mentions only, so they are compatible.
  obtain ⟨ts, us, hmention⟩ : ∃ ts us,
      ((start axis catalog scope).declareAll ds).program.freeze.inventory =
      ((start axis catalog scope).declareAll
        (Declaration.latest ds)).program.freeze.inventory.mention ts us := by
    rw [Program.freeze_inventory, Program.freeze_inventory, hs.program_eq, hs'.program_eq]
    exact Program.latest_inventory ds
  have hp := Program.freeze_wellFormed hs.lawful.wellFormed
  have hq := Program.freeze_wellFormed hs'.lawful.wellFormed
  have hcompatible := Program.compatible_of_mention hp hq hmention
    (Program.freeze_indexed hs.frozen) (Program.freeze_indexed hs'.frozen) hleft
  -- A submitted unit has a twin, which ends with the same grade.
  rcases Program.exists_submitted hd with ⟨i, u, hu, hname, hsub⟩
  rw [← hs.program_eq, ← freeze_units] at hu
  rcases Program.exists_sameUnit_of_submitted hp hmention hu hsub with ⟨j, hij⟩
  have hgrade := h.gradeOf_eq h' (hs.axis_eq.trans hs'.axis_eq.symm)
    (hs.catalog_eq.trans hs'.catalog_eq.symm) hcompatible hij
  rcases hij with ⟨u', v, hu', hv, hsame⟩
  rw [Option.some.inj (hu'.symm.trans hu), hname] at hsame
  refine ⟨r.session.gradeOf i, ?_, ?_⟩
  · rw [← hname, h.query_eq hu]
  · rw [hsame, h'.query_eq hv, hgrade]

/-- A caller of one shape that is submitted again without the call. -/
def redrawn : List Declaration :=
  [.type (TypeDecl.interface "a.Shape"),
    .type ((TypeDecl.concrete "a.Disc").extending "a.Shape"),
    .type ((TypeDecl.concrete "a.Ring").extending "a.Shape"),
    .unit ((UnitDecl.method "a.Main" "draw").calling "a.Ring" "a.Ring.area()"),
    .unit (UnitDecl.method "a.Shape" "area").asAbstract,
    .unit (UnitDecl.method "a.Disc" "area"),
    .unit (UnitDecl.method "a.Main" "draw")]

/-- The ring that nobody calls any more still overrides the shape. -/
theorem ring_still_overrides :
    (fun x => x.1.query "a.Shape.area()") <$> ((start .purity {} []).declareAll redrawn).run =
      .ok (.ok .unsure) ∧
    (fun x => x.1.query "a.Shape.area()") <$>
      ((start .purity {} []).declareAll (Declaration.latest redrawn)).run = .ok (.ok .strict) := by
  have hs := start_declareAll .purity {} [] redrawn
  have hs' := start_declareAll .purity {} [] (Declaration.latest redrawn)
  exact ⟨map_run_of_within (n := 4) hs.frozen (by decide +kernel),
    map_run_of_within (n := 4) hs'.frozen (by decide +kernel)⟩

/-- The same program, with a body for the ring. -/
def completed : List Declaration :=
  redrawn ++ [.unit (UnitDecl.method "a.Ring" "area")]

/-- A ring that was submitted is not left over, and the shape is as good as its
    overriders. -/
theorem resubmission_replaces_completed :
    Program.NoLeftover ((start .purity {} []).declareAll completed).program.freeze
      ((start .purity {} []).declareAll (Declaration.latest completed)).program.freeze ∧
    ∃ t summary t' summary',
      ((start .purity {} []).declareAll completed).run = .ok (t, summary) ∧
      ((start .purity {} []).declareAll (Declaration.latest completed)).run = .ok (t', summary') ∧
      ∃ g, t.query "a.Shape.area()" = .ok g ∧ t'.query "a.Shape.area()" = .ok g := by
  have hs := start_declareAll .purity {} [] completed
  have hleft := Program.noLeftover_of_known (Program.freeze_wellFormed hs.lawful.wellFormed)
    (Program.freeze_indexed hs.frozen) (q := ((start .purity {} []).declareAll
      (Declaration.latest completed)).program.freeze) (by decide +kernel)
  rcases resubmission_replaces .purity {} [] completed hleft with
    ⟨t, summary, t', summary', hrun, hrun', hsame⟩
  refine ⟨hleft, t, summary, t', summary', hrun, hrun', ?_⟩
  exact hsame (UnitDecl.method "a.Shape" "area").asAbstract (by decide +kernel)

end Session

end CoreShell
