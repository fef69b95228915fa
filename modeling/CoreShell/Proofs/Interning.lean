import CoreShell.Proofs.WellFormed

/-!
# Interning

Submitting a unit interns its names in nested loops, and each of the loops
grows the program under the feet of the next. What all the loops share is
packed into `Interns`: a step keeps the program well formed, only adds to it,
yields a result that reads back as what was put in, and mentions the names it
is said to mention.

Such a step can be repeated along a list and followed by another, so the loops
need no induction of their own. The four steps that declarations are made of
are shown to be of this kind, the call sites from types and references.

## Main definitions

* `Interns`: A step that interns a piece of a declaration.
* `internBoth`: One step after another.

## Theorems

* `Interns.all`: A step can be repeated along a list.
* `Interns.both`: Two steps make one.
* `internType_cases`, `internUnit_cases`, `internField_cases`: A name is known,
  or it is added at the end.
* `interns_type`, `interns_reference`, `interns_call`, `interns_field`: The
  steps a declaration is made of.
-/

namespace CoreShell

/-- A step that interns a piece of a declaration: `read` gives the piece back
    from the result, `valid` says that the positions in the result exist, and
    `types` and `units` are the names the piece mentions. -/
structure Interns {α β : Type} (step : Program → α → Program × β) (read : Program → β → α)
    (valid : Program → β → Prop) (types units : α → List String) : Prop where
  wellFormed : ∀ (p : Program) (a : α), p.WellFormed → (step p a).1.WellFormed
  keepsNames : ∀ (p : Program) (a : α), p.KeepsNames (step p a).1
  valid_result : ∀ (p : Program) (a : α), valid (step p a).1 (step p a).2
  read_result : ∀ (p : Program) (a : α), read (step p a).1 (step p a).2 = a
  inventory : ∀ (p : Program) (a : α), p.WellFormed →
    (step p a).1.inventory = p.inventory.mention (types a) (units a)
  valid_keeps : ∀ (p q : Program) (b : β), p.KeepsNames q → valid p b → valid q b
  read_keeps : ∀ (p q : Program) (b : β), p.KeepsNames q → valid p b → read q b = read p b

/-- A step that interns a piece can be repeated along a list of pieces. -/
theorem Interns.all {α β : Type} {step : Program → α → Program × β} {read : Program → β → α}
    {valid : Program → β → Prop} {types units : α → List String}
    (h : Interns step read valid types units) :
    Interns (internAll step) (fun p bs => bs.map (read p)) (fun p bs => ∀ b ∈ bs, valid p b)
      (fun as => as.flatMap types) (fun as => as.flatMap units) := by
  -- The first result has to outlive the steps along the rest of the list, so
  -- the names come first.
  have hkeeps : ∀ (as : List α) (p : Program), p.KeepsNames (internAll step p as).1 := by
    intro as
    induction as with
    | nil => exact Program.keepsNames_refl
    | cons a rest ih =>
        exact fun p => Program.keepsNames_trans (h.keepsNames p a) (ih (step p a).1)
  constructor
  case keepsNames => exact fun p as => hkeeps as p
  case wellFormed =>
    intro p as hp
    induction as generalizing p with
    | nil => exact hp
    | cons a rest ih => exact ih (step p a).1 (h.wellFormed p a hp)
  case valid_result =>
    intro p as
    induction as generalizing p with
    | nil => exact fun b hb => absurd hb (by simp [internAll])
    | cons a rest ih =>
        intro b hb
        rcases List.mem_cons.1 hb with rfl | hb
        · exact h.valid_keeps _ _ _ (hkeeps rest _) (h.valid_result p a)
        · exact ih (step p a).1 b hb
  case read_result =>
    intro p as
    induction as generalizing p with
    | nil => rfl
    | cons a rest ih =>
        have hfirst : read (internAll step (step p a).1 rest).1 (step p a).2 = a := by
          rw [h.read_keeps _ _ _ (hkeeps rest _) (h.valid_result p a), h.read_result]
        simp only [internAll, List.map_cons, hfirst]
        rw [ih (step p a).1]
  case inventory =>
    intro p as hp
    induction as generalizing p with
    | nil => exact (Inventory.mention_nil _).symm
    | cons a rest ih =>
        rw [List.flatMap_cons, List.flatMap_cons, ← Inventory.mention_mention,
          ← h.inventory p a hp]
        exact ih (step p a).1 (h.wellFormed p a hp)
  case valid_keeps => exact fun p q bs hpq hbs b hb => h.valid_keeps p q b hpq (hbs b hb)
  case read_keeps =>
    exact fun p q bs hpq hbs =>
      List.map_congr_left fun b hb => h.read_keeps p q b hpq (hbs b hb)

/-- One step after another, with both results. -/
def internBoth {α β γ δ : Type} (step : Program → α → Program × β)
    (step' : Program → γ → Program × δ) (p : Program) (a : α × γ) : Program × (β × δ) :=
  let (p, b) := step p a.1
  let (p, d) := step' p a.2
  (p, (b, d))

/-- Two steps that intern pieces make one that interns both. -/
theorem Interns.both {α β γ δ : Type} {step : Program → α → Program × β}
    {read : Program → β → α} {valid : Program → β → Prop} {types units : α → List String}
    {step' : Program → γ → Program × δ} {read' : Program → δ → γ} {valid' : Program → δ → Prop}
    {types' units' : γ → List String} (h : Interns step read valid types units)
    (h' : Interns step' read' valid' types' units') :
    Interns (internBoth step step') (fun p b => (read p b.1, read' p b.2))
      (fun p b => valid p b.1 ∧ valid' p b.2) (fun a => types a.1 ++ types' a.2)
      (fun a => units a.1 ++ units' a.2) := by
  constructor
  case wellFormed => exact fun p a hp => h'.wellFormed _ a.2 (h.wellFormed p a.1 hp)
  case keepsNames =>
    exact fun p a => Program.keepsNames_trans (h.keepsNames p a.1) (h'.keepsNames _ a.2)
  case valid_result =>
    exact fun p a => ⟨h.valid_keeps _ _ _ (h'.keepsNames _ a.2) (h.valid_result p a.1),
      h'.valid_result _ a.2⟩
  case read_result =>
    intro p a
    have hfirst := h.read_keeps _ _ _ (h'.keepsNames _ a.2) (h.valid_result p a.1)
    rw [h.read_result] at hfirst
    exact Prod.ext hfirst (h'.read_result _ a.2)
  case inventory =>
    intro p a hp
    rw [← Inventory.mention_mention, ← h.inventory p a.1 hp]
    exact h'.inventory _ a.2 (h.wellFormed p a.1 hp)
  case valid_keeps =>
    exact fun p q b hpq hb => ⟨h.valid_keeps p q _ hpq hb.1, h'.valid_keeps p q _ hpq hb.2⟩
  case read_keeps =>
    exact fun p q b hpq hb =>
      Prod.ext (h.read_keeps p q _ hpq hb.1) (h'.read_keeps p q _ hpq hb.2)

namespace Program

/-- A type is known already, or it is added at the end. -/
theorem internType_cases (p : Program) (name : String) :
    (∃ (i : TypeId) (t : TypeInfo), p.types[i]? = some t ∧ t.name = name ∧
      p.internType name = (p, i)) ∨
    ((∀ (i : TypeId) (t : TypeInfo), p.types[i]? = some t → t.name ≠ name) ∧
      p.internType name = ({ p with types := p.types.push { name } }, p.types.size)) := by
  rcases intern_cases TypeInfo.name (fun _ => { name }) name p.types with
    ⟨i, t, ht, hname, h⟩ | ⟨hnew, h⟩
  · exact Or.inl ⟨i, t, ht, hname, by simp only [internType, h]⟩
  · exact Or.inr ⟨hnew, by simp only [internType, h]⟩

theorem interns_type :
    Interns internType typeName (fun p i => i < p.types.size) (fun n => [n]) (fun _ => []) := by
  constructor
  case wellFormed =>
    intro p name hp
    rcases internType_cases p name with ⟨i, t, _, _, h⟩ | ⟨hnew, h⟩
    · rw [h]
      exact hp
    · rw [h]
      exact wellFormed_pushType hp hnew
  case keepsNames =>
    intro p name
    rcases internType_cases p name with ⟨i, t, _, _, h⟩ | ⟨_, h⟩
    · rw [h]
      exact keepsNames_refl p
    · rw [h]
      exact keepsNames_pushType p { name }
  case valid_result =>
    intro p name
    rcases internType_cases p name with ⟨i, t, ht, _, h⟩ | ⟨_, h⟩
    · rw [h]
      exact lt_size_of_getElem? ht
    · rw [h]
      change p.types.size < (p.types.push { name }).size
      rw [Array.size_push]
      omega
  case read_result =>
    intro p name
    rcases internType_cases p name with ⟨i, t, ht, hname, h⟩ | ⟨_, h⟩
    · rw [h]
      exact (typeName_of_getElem? ht).trans hname
    · rw [h]
      exact typeName_of_getElem? (p := { p with types := p.types.push { name } })
        Array.getElem?_push_size
  case inventory =>
    intro p name hp
    rcases internType_cases p name with ⟨i, t, ht, rfl, h⟩ | ⟨_, h⟩
    · rw [h]
      exact (mention_known_type hp ht).symm
    · rw [h]
      ext n : 2
      · rw [inventory_units_eq hp (keepsNames_pushType p { name }) rfl]
        simp only [Inventory.mention, List.not_mem_nil, if_false, Option.or_none]
      · rw [inventory_types_pushType hp]
        simp only [Inventory.mention, List.mem_singleton]
        by_cases hn : name = n
        · rw [if_pos hn, if_pos hn.symm, hn]
        · rw [if_neg hn, if_neg fun hc => hn hc.symm]
  case valid_keeps => exact fun p q i h hi => (h.types i hi).1
  case read_keeps => exact fun p q i h hi => (h.types i hi).2

/-- A unit that is only referred to reads back as what its name tells. -/
theorem readUnit_external (p : Program) (qualified : String) (owner : TypeId) (id : UnitId)
    (howner : p.typeName owner = Name.ownerOf qualified) :
    p.readUnit (external qualified (p.typeName owner) owner id) =
      UnitDecl.ofReference qualified := by
  rw [howner]
  simp only [readUnit, external, UnitDecl.ofReference, howner, List.map_nil]

theorem inRange_external (p : Program) (qualified name : String) (owner : TypeId) (id : UnitId)
    (howner : owner < p.types.size) : p.InRange (external qualified name owner id) := by
  refine ⟨howner, ?_, ?_, ?_, ?_⟩ <;> simp [external]

/-- The program with one more external unit. -/
def pushExternal (p : Program) (qualified : String) (owner : TypeId) : Program :=
  { p with units := p.units.push (external qualified (p.typeName owner) owner p.units.size) }

/-- A unit is known already, or it is added at the end as an external one. -/
theorem internUnit_cases (p : Program) (qualified : String) (owner : TypeId) :
    (∃ (i : UnitId) (u : CodeUnit), p.units[i]? = some u ∧ u.qualified = qualified ∧
      p.internUnit qualified owner = (p, i)) ∨
    ((∀ (i : UnitId) (u : CodeUnit), p.units[i]? = some u → u.qualified ≠ qualified) ∧
      p.internUnit qualified owner = (p.pushExternal qualified owner, p.units.size)) := by
  rcases intern_cases CodeUnit.qualified (external qualified (p.typeName owner) owner) qualified
    p.units with ⟨i, u, hu, hname, h⟩ | ⟨hnew, h⟩
  · exact Or.inl ⟨i, u, hu, hname, by simp only [internUnit, h]⟩
  · exact Or.inr ⟨hnew, by simp only [internUnit, h, pushExternal]⟩

theorem internUnit_keepsNames (p : Program) (qualified : String) (owner : TypeId) :
    p.KeepsNames (p.internUnit qualified owner).1 := by
  rcases internUnit_cases p qualified owner with ⟨i, u, _, _, h⟩ | ⟨_, h⟩
  · rw [h]
    exact keepsNames_refl p
  · rw [h]
    exact keepsNames_pushUnit p _

theorem internUnit_getElem? (p : Program) (qualified : String) (owner : TypeId) :
    ∃ u, (p.internUnit qualified owner).1.units[(p.internUnit qualified owner).2]? = some u ∧
      u.qualified = qualified := by
  rcases internUnit_cases p qualified owner with ⟨i, u, hu, hname, h⟩ | ⟨_, h⟩
  · rw [h]
    exact ⟨u, hu, hname⟩
  · rw [h]
    exact ⟨_, Array.getElem?_push_size, rfl⟩

theorem internUnit_wellFormed {p : Program} (hp : p.WellFormed) (qualified : String)
    {owner : TypeId} (howner : owner < p.types.size) :
    (p.internUnit qualified owner).1.WellFormed := by
  rcases internUnit_cases p qualified owner with ⟨i, u, _, _, h⟩ | ⟨hnew, h⟩
  · rw [h]
    exact hp
  · rw [h]
    exact wellFormed_pushUnit hp rfl hnew (inRange_external p _ _ owner _ howner)

/-- Interning a unit tells nothing about any other. -/
theorem internUnit_putUnit {p : Program} (hp : p.WellFormed) (qualified : String)
    {owner : TypeId} (howner : owner < p.types.size) (r : UnitRecord) :
    (p.internUnit qualified owner).1.inventory.putUnit qualified r =
      p.inventory.putUnit qualified r := by
  rcases internUnit_cases p qualified owner with ⟨i, u, _, _, h⟩ | ⟨_, h⟩
  · rw [h]
  · rw [h]
    ext n : 2
    · by_cases hn : n = qualified
      · simp only [Inventory.putUnit, if_pos hn]
      · simp only [Inventory.putUnit, if_neg hn]
        rw [pushExternal, inventory_units_pushUnit hp (inRange_external p _ _ owner _ howner),
          if_neg fun hc => hn hc.symm, Option.or_none]
    · exact congrFun (inventory_types_eq hp (keepsNames_pushUnit p _) rfl) n

/-- A unit interned under the owner in its own name is one more name that was
    mentioned. -/
theorem internUnit_inventory {p : Program} (hp : p.WellFormed) (qualified : String)
    {owner : TypeId} (howner : owner < p.types.size)
    (hname : p.typeName owner = Name.ownerOf qualified) :
    (p.internUnit qualified owner).1.inventory = p.inventory.mention [] [qualified] := by
  rcases internUnit_cases p qualified owner with ⟨i, u, hu, rfl, h⟩ | ⟨_, h⟩
  · rw [h]
    exact (mention_known_unit hp hu).symm
  · rw [h]
    ext n : 2
    · -- The new unit reads back as its name alone, as a mention does.
      rw [pushExternal, inventory_units_pushUnit hp (inRange_external p _ _ owner _ howner),
        readUnit_external p qualified owner _ hname]
      simp only [Inventory.mention, List.mem_singleton]
      by_cases hn : n = qualified
      · rw [if_pos hn, if_pos (by rw [hn]; rfl), hn]
        rfl
      · rw [if_neg hn, if_neg fun hc => hn hc.symm]
    · rw [pushExternal, inventory_types_eq hp (keepsNames_pushUnit p _) rfl]
      simp only [Inventory.mention, List.not_mem_nil, if_false, Option.or_none]

theorem interns_reference :
    Interns internReference unitName (fun p i => i < p.units.size) (fun n => [Name.ownerOf n])
      (fun n => [n]) := by
  have howner : ∀ (p : Program) (n : String),
      (p.internType (Name.ownerOf n)).2 < (p.internType (Name.ownerOf n)).1.types.size :=
    fun p n => interns_type.valid_result p _
  constructor
  case wellFormed =>
    exact fun p n hp => internUnit_wellFormed (interns_type.wellFormed p _ hp) n (howner p n)
  case keepsNames =>
    exact fun p n => keepsNames_trans (interns_type.keepsNames p _) (internUnit_keepsNames _ n _)
  case valid_result =>
    intro p n
    rcases internUnit_getElem? (p.internType (Name.ownerOf n)).1 n
      (p.internType (Name.ownerOf n)).2 with ⟨u, hu, _⟩
    exact lt_size_of_getElem? hu
  case read_result =>
    intro p n
    rcases internUnit_getElem? (p.internType (Name.ownerOf n)).1 n
      (p.internType (Name.ownerOf n)).2 with ⟨u, hu, hq⟩
    exact (unitName_of_getElem? hu).trans hq
  case inventory =>
    intro p n hp
    have hinv := internUnit_inventory (interns_type.wellFormed p _ hp) n (howner p n)
      (interns_type.read_result p _)
    rw [interns_type.inventory p _ hp, Inventory.mention_mention] at hinv
    exact hinv
  case valid_keeps => exact fun p q i h hi => (h.units i hi).1
  case read_keeps => exact fun p q i h hi => (h.units i hi).2

theorem interns_call :
    Interns internCall readCall CallInRange (fun c => c.owner :: c.targets.map Name.ownerOf)
      CallDecl.targets := by
  have htargets := interns_reference.all
  constructor
  case wellFormed =>
    exact fun p c hp => htargets.wellFormed _ c.targets (interns_type.wellFormed p c.owner hp)
  case keepsNames =>
    exact fun p c => keepsNames_trans (interns_type.keepsNames p c.owner)
      (htargets.keepsNames _ c.targets)
  case valid_result =>
    intro p c
    have hkeeps := htargets.keepsNames (p.internType c.owner).1 c.targets
    -- The owner was interned before the targets and is still where it was.
    exact ⟨(hkeeps.types _ (interns_type.valid_result p c.owner)).1,
      htargets.valid_result _ c.targets⟩
  case read_result =>
    intro p c
    have hkeeps := htargets.keepsNames (p.internType c.owner).1 c.targets
    have howner := (hkeeps.types _ (interns_type.valid_result p c.owner)).2
    rw [interns_type.read_result p c.owner] at howner
    have hread := htargets.read_result (p.internType c.owner).1 c.targets
    simp only [readCall, internCall, howner, hread]
  case inventory =>
    intro p c hp
    have hinv := htargets.inventory _ c.targets (interns_type.wellFormed p c.owner hp)
    rw [interns_type.inventory p c.owner hp, Inventory.mention_mention] at hinv
    simpa only [internCall, List.flatMap_singleton', List.map_eq_flatMap, List.singleton_append,
      List.nil_append] using hinv
  case valid_keeps => exact fun p q c h hc => callInRange_keeps h hc
  case read_keeps => exact fun p q c h hc => readCall_keeps h hc

/-- The program with one more field. -/
def pushField (p : Program) (f : FieldRef) : Program :=
  { p with fields := p.fields.push f }

/-- A field is known already, or it is added at the end after its owner. -/
theorem internField_cases (p : Program) (f : FieldRef) :
    (∃ i : FieldId, p.fields[i]? = some f ∧ p.internField f = (p, i)) ∨
    ((∀ (i : FieldId) (g : FieldRef), p.fields[i]? = some g → g ≠ f) ∧
      p.internField f = ((p.internType f.owner).1.pushField f, p.fields.size)) := by
  rcases findIdx?_cases (fun g => g) f p.fields with ⟨i, g, hg, rfl, hfind⟩ | ⟨hnew, hfind⟩
  · exact Or.inl ⟨i, hg, by simp only [internField, hfind]⟩
  · exact Or.inr ⟨hnew, by simp only [internField, hfind]; rfl⟩

theorem pushField_inventory {p : Program} (hp : p.WellFormed) (f : FieldRef) :
    (p.pushField f).inventory = p.inventory := by
  ext n : 2
  · exact congrFun (inventory_units_eq hp (keepsNames_pushField p f) rfl) n
  · exact congrFun (inventory_types_eq hp (keepsNames_pushField p f) rfl) n

theorem interns_field :
    Interns internField field (fun p i => i < p.fields.size) (fun f => [f.owner])
      (fun _ => []) := by
  constructor
  case wellFormed =>
    intro p f hp
    rcases internField_cases p f with ⟨i, _, h⟩ | ⟨hnew, h⟩
    · rw [h]
      exact hp
    · -- The owner is interned first, so the new field finds it there.
      rw [h]
      rcases getElem?_of_lt_size (interns_type.valid_result p f.owner) with ⟨t, ht⟩
      refine wellFormed_pushField (interns_type.wellFormed p f.owner hp) hnew ⟨_, t, ht, ?_⟩
      rw [← typeName_of_getElem? ht]
      exact interns_type.read_result p f.owner
  case keepsNames =>
    intro p f
    rcases internField_cases p f with ⟨i, _, h⟩ | ⟨_, h⟩
    · rw [h]
      exact keepsNames_refl p
    · rw [h]
      exact keepsNames_trans (interns_type.keepsNames p f.owner) (keepsNames_pushField _ f)
  case valid_result =>
    intro p f
    rcases internField_cases p f with ⟨i, hi, h⟩ | ⟨_, h⟩
    · rw [h]
      exact lt_size_of_getElem? hi
    · rw [h]
      have hpush : (p.fields.push f)[p.fields.size]? = some f := Array.getElem?_push_size
      exact lt_size_of_getElem? hpush
  case read_result =>
    intro p f
    rcases internField_cases p f with ⟨i, hi, h⟩ | ⟨_, h⟩
    · rw [h]
      exact field_of_getElem? hi
    · rw [h]
      exact field_of_getElem? (p := (p.internType f.owner).1.pushField f)
        Array.getElem?_push_size
  case inventory =>
    intro p f hp
    rcases internField_cases p f with ⟨i, hi, h⟩ | ⟨_, h⟩
    · -- A field that is known has made its owner known before.
      rw [h]
      rcases hp.field_owners i f hi with ⟨j, t, ht, hname⟩
      rw [← hname]
      exact (mention_known_type hp ht).symm
    · rw [h, pushField_inventory (interns_type.wellFormed p f.owner hp)]
      exact interns_type.inventory p f.owner hp
  case valid_keeps => exact fun p q i h hi => (h.fields i hi).1
  case read_keeps => exact fun p q i h hi => (h.fields i hi).2

end Program

end CoreShell
