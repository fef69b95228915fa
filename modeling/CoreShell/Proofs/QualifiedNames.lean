import CoreShell.Proofs.Freshness
import CoreShell.Proofs.Texts

/-!
# Names That Can Be Read Back

A qualified name is written by putting an owner, a name and parameters together, and a unit
that is only referred to is known by what can be read off the result. The two meet only if
the parts do not contain what separates them. A name must not hold a parenthesis, and a
parameter must not hold a comma or have blanks at its ends, which the reader takes for the
space between parameters, nor be empty, since empty pieces are skipped. These conditions are
exact: all other names read back as something else. Parameters may contain parentheses and
dots, because the name ends at the first parenthesis and the list at the last one.

The owner is found in another way, as what stands before the last dot in front of the first
parenthesis. So it is read back if it holds no parenthesis and the name no dot. Then a unit
has the same owner, name and parameters whether it was submitted or only referred to, and
virtual calls find it in both cases.

## Main definitions

* `Name.IsParameter`: A parameter that can be read back.
* `UnitDecl.Legible`: A declaration whose name tells its owner, name and parameters.
* `Program.Registers`: A program knows a unit by the owner, name and parameters of a
  declaration.

## Theorems

* `Name.parametersOf_join_iff`: Which parameters can be read back.
* `Name.split_qualify_iff`: Which names and parameters can be read back.
* `Name.ownerOf_qualify`: When the owner can be read back.
* `UnitDecl.Legible.ofReference`: What the name of a legible declaration tells.
* `Program.MadeFrom.registers_reference`, `Program.MadeFrom.registers_submission`: A legible
  declaration is known alike, referred to or submitted.
* `Program.names_round_trip`: Names are read back as they were written.
-/

namespace CoreShell

namespace Name

/-- A parameter that can be told from the others in a list and from the space between
    them. -/
structure IsParameter (parameter : String) : Prop where
  ne_empty : parameter ≠ ""
  no_comma : ',' ∉ parameter.toList
  trimmed : Text.Trimmed parameter.toList

/-- Whatever is read from a list is a parameter. -/
theorem isParameter_of_mem_parametersOf {inner : List Char} {parameter : String}
    (h : parameter ∈ parametersOf inner) : IsParameter parameter := by
  simp only [parametersOf, List.mem_map, List.mem_filter, decide_eq_true_eq] at h
  rcases h with ⟨_, ⟨⟨piece, hpiece, rfl⟩, hne⟩, rfl⟩
  refine ⟨fun hc => hne ?_, ?_, ?_⟩
  · rw [← String.toList_inj, String.toList_ofList] at hc
    exact hc
  · rw [String.toList_ofList]
    exact fun hc => Text.not_mem_of_mem_splitOn hpiece (Text.mem_of_mem_trim hc)
  · rw [String.toList_ofList]
    exact Text.trimmed_trim piece

theorem IsParameter.trim_eq {parameter : String} (h : IsParameter parameter) :
    Text.trim parameter.toList = parameter.toList :=
  Text.trim_of_trimmed h.trimmed

theorem parametersOf_join {parameters : List String} (h : ∀ p ∈ parameters, IsParameter p) :
    parametersOf (Text.join ", " parameters).toList = parameters := by
  rcases parameters with _ | ⟨first, rest⟩
  · rfl
  have hpieces : (Text.join ", " (first :: rest)).toList =
      [','].intercalate (first.toList :: rest.map fun p => ' ' :: p.toList) := by
    rw [Text.join, String.toList_ofList, List.map_cons]
    exact (Text.intercalate_comma_space _ _).trans (by rw [List.map_map]; rfl)
  have hcomma : ∀ piece ∈ first.toList :: rest.map (fun p => ' ' :: p.toList), ',' ∉ piece := by
    intro piece hpiece
    rcases List.mem_cons.1 hpiece with rfl | hpiece
    · exact (h first List.mem_cons_self).no_comma
    · rcases List.mem_map.1 hpiece with ⟨p, hp, rfl⟩
      simpa using (h p (List.mem_cons_of_mem first hp)).no_comma
  -- Without the spaces in front, the pieces are the parameters.
  have htrim : (first.toList :: rest.map fun p => ' ' :: p.toList).map Text.trim =
      (first :: rest).map String.toList := by
    rw [List.map_cons, List.map_map, List.map_cons, (h first List.mem_cons_self).trim_eq]
    congr 1
    refine List.map_congr_left fun p hp => ?_
    rw [Function.comp_apply, Text.trim_space_cons, (h p (List.mem_cons_of_mem first hp)).trim_eq]
  have hfilter : ((first :: rest).map String.toList).filter (· ≠ []) =
      (first :: rest).map String.toList := by
    refine List.filter_eq_self.2 fun piece hpiece => ?_
    rcases List.mem_map.1 hpiece with ⟨p, hp, rfl⟩
    simpa using (h p hp).ne_empty
  rw [parametersOf, hpieces, List.splitOn_intercalate ',' hcomma (by simp), htrim, hfilter,
    List.map_map]
  simp [Function.comp_def]

/-- The parameters that can be read back are those that can be told apart. -/
theorem parametersOf_join_iff (parameters : List String) :
    parametersOf (Text.join ", " parameters).toList = parameters ↔
      ∀ p ∈ parameters, IsParameter p := by
  refine ⟨fun h p hp => ?_, parametersOf_join⟩
  rw [← h] at hp
  exact isParameter_of_mem_parametersOf hp

theorem toList_qualify (owner name : String) (parameters : List String) :
    (qualify owner name parameters).toList =
      owner.toList ++ '.' ::
        (name.toList ++ '(' :: ((Text.join ", " parameters).toList ++ [')'])) := by
  simp [qualify]

theorem localPart_qualify (owner name : String) (parameters : List String) :
    localPart (qualify owner name parameters).toList owner.toList =
      name.toList ++ '(' :: ((Text.join ", " parameters).toList ++ [')']) := by
  rw [localPart, toList_qualify, List.append_cons owner.toList '.' (name.toList ++ _),
    Text.dropStart?_append, Option.getD_some]

theorem takeWhile_ne_append {c : Char} {text : List Char} (h : c ∉ text) (rest : List Char) :
    (text ++ c :: rest).takeWhile (· ≠ c) = text := by
  rw [List.takeWhile_append_of_pos (fun a ha => by simpa using ne_of_mem_of_not_mem ha h),
    List.takeWhile_cons_of_neg (by simp), List.append_nil]

theorem dropWhile_ne_append {c : Char} {text : List Char} (h : c ∉ text) (rest : List Char) :
    (text ++ c :: rest).dropWhile (· ≠ c) = c :: rest := by
  rw [List.dropWhile_append_of_pos (fun a ha => by simpa using ne_of_mem_of_not_mem ha h),
    List.dropWhile_cons_of_neg (by simp)]

/-- A written name is taken apart at its first parenthesis. -/
theorem split_qualify (owner name : String) (parameters : List String) :
    split (qualify owner name parameters) owner =
      let rest := name.toList ++ '(' :: ((Text.join ", " parameters).toList ++ [')'])
      (String.ofList (rest.takeWhile (· ≠ '(')),
        parametersOf (rest.dropWhile (· ≠ '(')).tail.dropLast) := by
  rw [split, localPart_qualify, if_pos]
  constructor
  · simp
  · rw [List.getLast?_append_of_ne_nil _ (by simp), List.getLast?_cons,
      List.getLast?_append_of_ne_nil _ (by simp)]
    rfl

/-- A name and its parameters can be read back exactly if the name holds no parenthesis and
    the parameters can be told apart. -/
theorem split_qualify_iff (owner name : String) (parameters : List String) :
    split (qualify owner name parameters) owner = (name, parameters) ↔
      '(' ∉ name.toList ∧ ∀ p ∈ parameters, IsParameter p := by
  rw [split_qualify, Prod.mk.injEq]
  by_cases hname : '(' ∈ name.toList
  · -- What is read ends at the parenthesis in the name.
    refine iff_of_false (fun h => ?_) fun h => h.1 hname
    rw [← h.1, String.toList_ofList] at hname
    exact not_mem_takeWhile_ne '(' _ hname
  · rw [takeWhile_ne_append hname, dropWhile_ne_append hname, List.tail_cons, List.dropLast_concat,
      String.ofList_toList, parametersOf_join_iff]
    simp [hname]

/-- The owner can be read back if it holds no parenthesis and the name neither a parenthesis
    nor a dot. -/
theorem ownerOf_qualify {owner name : String} (howner : '(' ∉ owner.toList)
    (hname : '(' ∉ name.toList) (hdot : '.' ∉ name.toList) (parameters : List String) :
    ownerOf (qualify owner name parameters) = owner := by
  have hhead : (qualify owner name parameters).toList.takeWhile (· ≠ '(') =
      owner.toList ++ '.' :: name.toList := by
    rw [toList_qualify, ← List.cons_append, ← List.append_assoc]
    exact takeWhile_ne_append (by simp [howner, hname]) _
  have hback : (owner.toList ++ '.' :: name.toList).reverse.dropWhile (· ≠ '.') =
      '.' :: owner.toList.reverse := by
    rw [List.reverse_append, List.reverse_cons, List.append_assoc]
    exact dropWhile_ne_append (by simpa using hdot) _
  rw [ownerOf, hhead, if_pos (by simp), hback, List.tail_cons, List.reverse_reverse,
    String.ofList_toList]

end Name

/-- A declaration whose qualified name tells its owner, its name and its parameters. -/
structure UnitDecl.Legible (d : UnitDecl) : Prop where
  owner : '(' ∉ d.owner.toList
  name : '(' ∉ d.name.toList
  no_dot : '.' ∉ d.name.toList
  parameters : ∀ p ∈ d.parameters, Name.IsParameter p

/-- What the name of a legible declaration tells is in the declaration. -/
theorem UnitDecl.Legible.ofReference {d : UnitDecl} (h : d.Legible) :
    (UnitDecl.ofReference d.qualifiedName).owner = d.owner ∧
      (UnitDecl.ofReference d.qualifiedName).name = d.name ∧
      (UnitDecl.ofReference d.qualifiedName).parameters = d.parameters := by
  have howner : Name.ownerOf d.qualifiedName = d.owner :=
    Name.ownerOf_qualify h.owner h.name h.no_dot d.parameters
  have hsplit : Name.split d.qualifiedName d.owner = (d.name, d.parameters) :=
    (Name.split_qualify_iff d.owner d.name d.parameters).2 ⟨h.name, h.parameters⟩
  simp only [UnitDecl.ofReference, howner, hsplit, and_self]

/-- Legible declarations with the same qualified name have the same owner, name and
    parameters. -/
theorem UnitDecl.Legible.injective {d e : UnitDecl} (hd : d.Legible) (he : e.Legible)
    (h : d.qualifiedName = e.qualifiedName) :
    d.owner = e.owner ∧ d.name = e.name ∧ d.parameters = e.parameters := by
  rcases hd.ofReference with ⟨howner, hname, hparameters⟩
  rw [h] at howner hname hparameters
  rcases he.ofReference with ⟨howner', hname', hparameters'⟩
  exact ⟨howner.symm.trans howner', hname.symm.trans hname', hparameters.symm.trans hparameters'⟩

namespace Program

/-- The unit is known under the qualified name of a declaration, and with its owner, name and
    parameters. -/
structure Registers (p : Program) (d : UnitDecl) (u : CodeUnit) : Prop where
  unit : p.units[u.id]? = some u
  unitId : p.unitId? d.qualifiedName = some u.id
  owner : p.typeName u.owner = d.owner
  typeId : p.typeId? d.owner = some u.owner
  name : u.name = d.name
  parameters : u.parameters = d.parameters

/-- A unit is registered as it reads back. -/
theorem WellFormed.registers {p : Program} (hp : p.WellFormed) {d : UnitDecl} {u : CodeUnit}
    (hu : u ∈ p.units) (hname : u.qualified = d.qualifiedName)
    (howner : (p.readUnit u).owner = d.owner) (hsimple : (p.readUnit u).name = d.name)
    (hparameters : (p.readUnit u).parameters = d.parameters) : p.Registers d u := by
  have hat := hp.getElem?_of_mem hu
  rcases getElem?_of_lt_size (hp.units_inRange _ u hat).owner with ⟨t, ht⟩
  have htype : t.name = d.owner := (typeName_of_getElem? ht).symm.trans howner
  exact
    { unit := hat
      unitId := (findIdx?_eq_some_iff hp.unit_names).2 ⟨u, hat, hname⟩
      owner := howner
      typeId := (findIdx?_eq_some_iff hp.type_names).2 ⟨t, ht, htype⟩
      name := hsimple
      parameters := hparameters }

section MadeFrom

variable {items : List (TypeDecl ⊕ UnitDecl)} {p : Program} (h : MadeFrom items p)
  {d : UnitDecl}
include h

/-- A unit that is only referred to is registered as its legible name tells. -/
theorem MadeFrom.registers_reference (hd : d.Legible)
    (hmention : ∃ e ∈ submissions items, d.qualifiedName ∈ e.mentionedUnits)
    (hnever : ∀ e ∈ submissions items, e.qualifiedName ≠ d.qualifiedName) :
    ∃ u, p.Registers d u ∧ u.submitted = false := by
  rcases h.exists_reference hmention hnever with ⟨u, hu, hname, hexternal, hread⟩
  rcases hd.ofReference with ⟨howner, hsimple, hparameters⟩
  rw [← hread] at howner hsimple hparameters
  exact ⟨u, h.wellFormed.registers hu hname howner hsimple hparameters, hexternal⟩

/-- A unit that was submitted is registered as its declaration says. -/
theorem MadeFrom.registers_submission
    (hlatest : latestUnder d.qualifiedName (submissions items) = some d) :
    ∃ u, p.Registers d u ∧ u.submitted = true := by
  rcases h.exists_unit hlatest with ⟨u, hu, hname, hsubmitted, hread⟩
  have hregisters := h.wellFormed.registers (d := d) hu hname (by rw [hread]) (by rw [hread])
    (by rw [hread])
  exact ⟨u, hregisters, hsubmitted⟩

end MadeFrom

/-- A unit that is registered stays at its position and keeps its signature, whether or not
    it is submitted later. -/
theorem Registers.signature_eq {edits more : List Edit} {d : UnitDecl} {u v : CodeUnit}
    (hu : (({} : Program).editAll edits).Registers d u)
    (hv : (({} : Program).editAll (edits ++ more)).Registers d v) :
    u.id = v.id ∧ u.signature = v.signature := by
  have h := editAll_interned edits
  have h' := editAll_interned (edits ++ more)
  rw [List.flatMap_append] at h'
  have hid := h.units.find_append (by simpa [List.flatMap_append] using h'.units) hu.unitId
  have howner := h.types.find_append (by simpa [List.flatMap_append] using h'.types) hu.typeId
  refine ⟨Option.some.inj (hid.symm.trans hv.unitId), ?_⟩
  rw [CodeUnit.signature, CodeUnit.signature, hu.name, hv.name, hu.parameters, hv.parameters,
    Option.some.inj (howner.symm.trans hv.typeId)]

/-- A name and its parameters are read back as they were written exactly if the name holds no
    parenthesis and the parameters can be told apart. If moreover the owner holds no
    parenthesis and the name no dot, a program that only refers to a unit knows it by the
    same owner, name and parameters as a program to which it was submitted, with the same
    signature if it is submitted later on, and the qualified name tells all of them. -/
theorem names_round_trip :
    (∀ (owner name : String) (parameters : List String),
      Name.split (Name.qualify owner name parameters) owner = (name, parameters) ↔
        '(' ∉ name.toList ∧ ∀ p ∈ parameters, Name.IsParameter p) ∧
    (∀ d : UnitDecl, d.Legible → ∀ edits edits' : List Edit,
      (∃ e ∈ submissions (edits.flatMap Edit.items), d.qualifiedName ∈ e.mentionedUnits) →
      (∀ e ∈ submissions (edits.flatMap Edit.items), e.qualifiedName ≠ d.qualifiedName) →
      latestUnder d.qualifiedName (submissions (edits'.flatMap Edit.items)) = some d →
      ∃ u v, (({} : Program).editAll edits).Registers d u ∧ u.submitted = false ∧
        (({} : Program).editAll edits').Registers d v ∧ v.submitted = true ∧
        (edits <+: edits' → u.id = v.id ∧ u.signature = v.signature)) ∧
    ∀ d e : UnitDecl, d.Legible → e.Legible → d.qualifiedName = e.qualifiedName →
      d.owner = e.owner ∧ d.name = e.name ∧ d.parameters = e.parameters := by
  refine ⟨Name.split_qualify_iff, fun d hd edits edits' hmention hnever hlatest => ?_,
    fun d e hd he h => hd.injective he h⟩
  rcases (editAll_madeFrom edits).registers_reference hd hmention hnever with ⟨u, hu, hexternal⟩
  rcases (editAll_madeFrom edits').registers_submission hlatest with ⟨v, hv, hsubmitted⟩
  refine ⟨u, v, hu, hexternal, hv, hsubmitted, ?_⟩
  rintro ⟨more, rfl⟩
  exact hu.signature_eq hv

/-- A method whose parameters contain dots and parentheses. -/
def applyMethod : UnitDecl :=
  (UnitDecl.method "app.Core" "apply").withParameters ["java.util.List", "fn(int)"]

/-- A unit that calls the method. -/
def applyCaller : UnitDecl :=
  (UnitDecl.method "app.Main" "run").calling "app.Core"
    "app.Core.apply(java.util.List, fn(int))"

theorem applyMethod_legible : applyMethod.Legible := by
  refine ⟨by decide, by decide, by decide, fun p hp => ?_⟩
  have hcases : p = "java.util.List" ∨ p = "fn(int)" := by
    simpa [applyMethod, UnitDecl.withParameters] using hp
  rcases hcases with rfl | rfl
  · exact ⟨by decide, by decide, by decide⟩
  · exact ⟨by decide, by decide, by decide⟩

/-- The method is known by the same signature before and after it is submitted. With a comma
    in a parameter it would not be read back. -/
theorem names_round_trip_applyMethod :
    (∃ u v, (({} : Program).editAll [.declare (.unit applyCaller)]).Registers applyMethod u ∧
      u.submitted = false ∧
      (({} : Program).editAll
        [.declare (.unit applyCaller), .declare (.unit applyMethod)]).Registers applyMethod v ∧
      v.submitted = true ∧ u.signature = v.signature) ∧
    Name.split (Name.qualify "app.Core" "apply" ["Map<K, V>"]) "app.Core" ≠
      ("apply", ["Map<K, V>"]) := by
  rcases names_round_trip with ⟨hsplit, hregisters, _⟩
  constructor
  · rcases hregisters applyMethod applyMethod_legible [.declare (.unit applyCaller)]
      [.declare (.unit applyCaller), .declare (.unit applyMethod)] (by decide +kernel)
      (by decide +kernel) (by decide +kernel) with ⟨u, v, hu, hexternal, hv, hsubmitted, hsame⟩
    exact ⟨u, v, hu, hexternal, hv, hsubmitted, (hsame ⟨_, rfl⟩).2⟩
  · intro hread
    have hcomma := ((hsplit _ _ _).1 hread).2 "Map<K, V>" (by simp)
    exact hcomma.no_comma (by decide)

end Program

end CoreShell
