import CoreShell.Proofs.Edits
import CoreShell.Proofs.Names

/-!
# Order of First Mention

Every name gets its position when it is mentioned for the first time and has it from
then on. What a declaration mentions, and in which order, can be read off it: the
types, the units and the fields in it, each kind in a list of its own. A program has
a name at a position exactly if the name is at that position in the list of all that
was mentioned, without repetitions.

The loops in which a submission interns its names follow the same lists. `Mentions`
is what they share, as `Interns` is for what the names are read back as, and it can
be repeated along a list and followed by another step in the same way.

## Main definitions

* `itemTypes`, `itemUnits`, `itemFields`: What a declaration mentions, in order.
* `Roster`: All names of a program, each at its position.
* `Mentions`: A step that makes the given names known.
* `Numbered`: Keys with numbers in the order of first mention.
* `Program.Interned`: A program in which names and positions are as declarations
  say.

## Theorems

* `Mentions.all`, `Mentions.both`: Steps can be repeated and follow each other.
* `submit_roster`, `declareType_roster`: What a declaration adds to the names.
* `editAll_roster`: The names after any history.
* `Numbered.find_append`: A number is never taken back.
* `interning_exact`: Names and positions after any history.
-/

namespace CoreShell

/-- The types that a declaration mentions, in order. -/
def itemTypes : TypeDecl ⊕ UnitDecl → List String
  | .inl d => d.name :: d.supertypes
  | .inr d => d.mentionedTypes

/-- The units that a declaration mentions, in order. -/
def itemUnits : TypeDecl ⊕ UnitDecl → List String
  | .inl _ => []
  | .inr d => d.unitNames

/-- The fields that a declaration mentions, in order. -/
def itemFields : TypeDecl ⊕ UnitDecl → List FieldRef
  | .inl _ => []
  | .inr d => d.writes ++ d.reads

/-- All names of a program, each at its position. -/
@[ext]
structure Roster where
  types : List String := []
  units : List String := []
  fields : List FieldRef := []

namespace Roster

/-- The names that are known after further ones were mentioned. -/
def mention (r : Roster) (types units : List String) (fields : List FieldRef) : Roster :=
  { types := types.foldl keep r.types
    units := units.foldl keep r.units
    fields := fields.foldl keep r.fields }

theorem mention_mention (r : Roster) (ts us ts' us' : List String) (fs fs' : List FieldRef) :
    (r.mention ts us fs).mention ts' us' fs' = r.mention (ts ++ ts') (us ++ us') (fs ++ fs') := by
  simp only [mention, List.foldl_append]

/-- The names that declarations make known. -/
def ofItems (items : List (TypeDecl ⊕ UnitDecl)) : Roster :=
  ({} : Roster).mention (items.flatMap itemTypes) (items.flatMap itemUnits)
    (items.flatMap itemFields)

theorem ofItems_append (items : List (TypeDecl ⊕ UnitDecl)) (item : TypeDecl ⊕ UnitDecl) :
    ofItems (items ++ [item]) =
      (ofItems items).mention (itemTypes item) (itemUnits item) (itemFields item) := by
  simp only [ofItems, mention_mention, List.flatMap_append, List.flatMap_singleton]

/-- What was mentioned is listed once, in the order of first mention. -/
theorem ofItems_eq (items : List (TypeDecl ⊕ UnitDecl)) :
    ofItems items = { types := (items.flatMap itemTypes).eraseDups
                      units := (items.flatMap itemUnits).eraseDups
                      fields := (items.flatMap itemFields).eraseDups } := by
  rw [ofItems, mention]
  congr 1
  · exact foldl_keep [] _
  · exact foldl_keep [] _
  · exact foldl_keep [] _

end Roster

/-- The names of a program. -/
def Program.roster (p : Program) : Roster :=
  { types := p.types.toList.map TypeInfo.name
    units := p.units.toList.map CodeUnit.qualified
    fields := p.fields.toList }

/-- A step that makes the given names known, and no others. -/
def Mentions {α β : Type} (step : Program → α → Program × β) (types units : α → List String)
    (fields : α → List FieldRef) : Prop :=
  ∀ (p : Program) (a : α), p.WellFormed →
    (step p a).1.roster = p.roster.mention (types a) (units a) (fields a)

section Steps

variable {α β γ δ : Type} {step : Program → α → Program × β} {types units : α → List String}
    {fields : α → List FieldRef}

/-- A step can be repeated along a list. -/
theorem Mentions.all (h : Mentions step types units fields)
    (hwf : ∀ (p : Program) (a : α), p.WellFormed → (step p a).1.WellFormed) :
    Mentions (internAll step) (fun as => as.flatMap types) (fun as => as.flatMap units)
      (fun as => as.flatMap fields) := by
  intro p as hp
  induction as generalizing p with
  | nil => rfl
  | cons a rest ih =>
      -- What the first step has mentioned is known when the others begin.
      simp only [List.flatMap_cons, ← Roster.mention_mention, ← h p a hp]
      exact ih (step p a).1 (hwf p a hp)

/-- Two steps make one. -/
theorem Mentions.both {step' : Program → γ → Program × δ} {types' units' : γ → List String}
    {fields' : γ → List FieldRef} (h : Mentions step types units fields)
    (hwf : ∀ (p : Program) (a : α), p.WellFormed → (step p a).1.WellFormed)
    (h' : Mentions step' types' units' fields') :
    Mentions (internBoth step step') (fun a => types a.1 ++ types' a.2)
      (fun a => units a.1 ++ units' a.2) (fun a => fields a.1 ++ fields' a.2) := by
  intro p a hp
  rw [← Roster.mention_mention, ← h p a.1 hp]
  exact h' (step p a.1).1 a.2 (hwf p a.1 hp)

end Steps

namespace Program

theorem mentions_type : Mentions internType (fun n => [n]) (fun _ => []) (fun _ => []) := by
  intro p name _
  ext1
  · exact intern_keys TypeInfo.name (fun _ => { name }) name p.types fun _ => rfl
  · rfl
  · rfl

theorem internUnit_roster (p : Program) (qualified : String) (owner : TypeId) :
    (p.internUnit qualified owner).1.roster = p.roster.mention [] [qualified] [] := by
  ext1
  · rfl
  · exact intern_keys CodeUnit.qualified (external qualified (p.typeName owner) owner) qualified
      p.units fun _ => rfl
  · rfl

theorem mentions_reference :
    Mentions internReference (fun n => [Name.ownerOf n]) (fun n => [n]) (fun _ => []) := by
  intro p n hp
  rw [internReference, internUnit_roster, mentions_type p _ hp, Roster.mention_mention]
  rfl

theorem mentions_call :
    Mentions internCall (fun c => c.owner :: c.targets.map Name.ownerOf) CallDecl.targets
      (fun _ => []) := by
  intro p c hp
  have htargets := mentions_reference.all interns_reference.wellFormed (p.internType c.owner).1
    c.targets (interns_type.wellFormed p c.owner hp)
  rw [mentions_type p c.owner hp, Roster.mention_mention] at htargets
  have hfields : c.targets.flatMap (fun _ => ([] : List FieldRef)) = [] := by simp
  simpa [internCall, List.map_eq_flatMap, hfields] using htargets

/-- A field that is there can be mentioned again, and so can its owner. -/
theorem roster_mention_field {p : Program} (hp : p.WellFormed) {i : FieldId} {f : FieldRef}
    (hf : p.fields[i]? = some f) : p.roster.mention [f.owner] [] [f] = p.roster := by
  have howner : f.owner ∈ p.types.toList.map TypeInfo.name := by
    rcases hp.field_owners i f hf with ⟨j, t, ht, hname⟩
    exact List.mem_map.2 ⟨t, Array.mem_toList_iff.2 (Array.mem_of_getElem? ht), hname⟩
  have hfield : f ∈ p.fields.toList := Array.mem_toList_iff.2 (Array.mem_of_getElem? hf)
  ext1
  · exact if_pos howner
  · rfl
  · exact if_pos hfield

theorem mentions_field :
    Mentions internField (fun f => [f.owner]) (fun _ => []) (fun f => [f]) := by
  intro p f hp
  rcases internField_cases p f with ⟨i, hi, h⟩ | ⟨hnew, h⟩
  · rw [h]
    exact (roster_mention_field hp hi).symm
  · -- A new field comes with a mention of its owner, which may be known or not.
    rw [h]
    have hunknown : f ∉ p.fields.toList := by
      intro hmem
      rcases Array.mem_iff_getElem?.1 (Array.mem_toList_iff.1 hmem) with ⟨i, hi⟩
      exact hnew i f hi rfl
    have howner := congrArg Roster.types (mentions_type p f.owner hp)
    ext1
    · exact howner
    · rfl
    · exact Array.toList_push.trans (if_neg hunknown).symm

theorem mentions_body :
    Mentions internBody
      (fun a => a.1.flatMap (fun c => c.owner :: c.targets.map Name.ownerOf) ++
        (a.2.1.flatMap (fun f => [f.owner]) ++ (a.2.2.1.flatMap (fun f => [f.owner]) ++
          a.2.2.2.flatMap (fun n => [Name.ownerOf n]))))
      (fun a => a.1.flatMap CallDecl.targets ++
        (a.2.1.flatMap (fun _ => []) ++ (a.2.2.1.flatMap (fun _ => []) ++
          a.2.2.2.flatMap (fun n => [n]))))
      (fun a => a.1.flatMap (fun _ => []) ++
        (a.2.1.flatMap (fun f => [f]) ++ (a.2.2.1.flatMap (fun f => [f]) ++
          a.2.2.2.flatMap (fun _ => [])))) := by
  have hcalls := mentions_call.all interns_call.wellFormed
  have hfields := mentions_field.all interns_field.wellFormed
  have hconstructs := mentions_reference.all interns_reference.wellFormed
  exact hcalls.both interns_call.all.wellFormed (hfields.both interns_field.all.wellFormed
    (hfields.both interns_field.all.wellFormed hconstructs))

/-- A new record for a unit has the old name. -/
theorem replaceUnit_roster (p : Program) (id : UnitId) {f : CodeUnit → CodeUnit}
    (hf : ∀ u, (f u).qualified = u.qualified) : (p.replaceUnit id f).roster = p.roster := by
  ext1
  · rfl
  · exact map_key_modify hf p.units id
  · rfl

/-- A new record for a type has the old name. -/
theorem replaceType_roster (p : Program) (id : TypeId) {f : TypeInfo → TypeInfo}
    (hf : ∀ t, (f t).name = t.name) : (p.replaceType id f).roster = p.roster := by
  ext1
  · exact map_key_modify hf p.types id
  · rfl
  · rfl

theorem declared_qualified (d : UnitDecl) (owner : TypeId)
    (body : List CallSite × List FieldId × List FieldId × List UnitId) (u : CodeUnit) :
    (declared d owner body u).qualified = u.qualified :=
  rfl

theorem declaredType_name (d : TypeDecl) (supertypes : List TypeId) (t : TypeInfo) :
    (declaredType d supertypes t).name = t.name :=
  rfl

theorem submit_roster {p : Program} (hp : p.WellFormed) (d : UnitDecl) :
    (p.submit d).1.roster =
      p.roster.mention (itemTypes (.inr d)) (itemUnits (.inr d)) (itemFields (.inr d)) := by
  have hpOwner := interns_type.wellFormed p d.owner hp
  have hpUnit := internUnit_wellFormed hpOwner d.qualifiedName (interns_type.valid_result p d.owner)
  rw [submit_eq, replaceUnit_roster _ _ (declared_qualified d _ _), mentions_body _ _ hpUnit,
    internUnit_roster, mentions_type p d.owner hp, Roster.mention_mention, Roster.mention_mention]
  -- What is left are the lists of the owner, the unit and the body, one after another. Field
  -- accesses mention no units, and calls and constructions mention no fields.
  have haccesses : ∀ fs : List FieldRef, fs.flatMap (fun _ => ([] : List String)) = [] := by simp
  have hcalls : d.calls.flatMap (fun _ => ([] : List FieldRef)) = [] := by simp
  have hconstructs : d.constructs.flatMap (fun _ => ([] : List FieldRef)) = [] := by simp
  simp [itemTypes, itemUnits, itemFields, UnitDecl.mentionedTypes, UnitDecl.unitNames,
    UnitDecl.mentionedUnits, List.map_eq_flatMap, haccesses, hcalls, hconstructs]

theorem declareType_roster {p : Program} (hp : p.WellFormed) (d : TypeDecl) :
    (p.declareType d).1.roster =
      p.roster.mention (itemTypes (.inl d)) (itemUnits (.inl d)) (itemFields (.inl d)) := by
  have hboth := mentions_type.both interns_type.wellFormed
    (mentions_type.all interns_type.wellFormed) p (d.name, d.supertypes) hp
  have hunits : d.supertypes.flatMap (fun _ => ([] : List String)) = [] := by simp
  have hfields : d.supertypes.flatMap (fun _ => ([] : List FieldRef)) = [] := by simp
  rw [declareType_eq, replaceType_roster _ _ (declaredType_name d _), hboth]
  simp [itemTypes, itemUnits, itemFields, hunits, hfields]

theorem freeze_roster (p : Program) : p.freeze.roster = p.roster := by
  rw [freeze]
  by_cases h : p.frozen = true
  · rw [if_pos h]
  · rw [if_neg h]
    rfl

/-- The names after any history are those that its declarations mention. -/
theorem editAll_roster (edits : List Edit) :
    (({} : Program).editAll edits).roster = Roster.ofItems (edits.flatMap Edit.items) := by
  have hempty : ({} : Program).WellFormed ∧ ({} : Program).roster = Roster.ofItems [] :=
    ⟨wellFormed_empty, rfl⟩
  refine (editAll_induction (P := fun p items => p.WellFormed ∧ p.roster = Roster.ofItems items)
    ?_ ?_ ?_ hempty edits).2
  · rintro p items d ⟨hp, h⟩
    exact ⟨declareType_wellFormed hp d, by rw [declareType_roster hp, h, Roster.ofItems_append]⟩
  · rintro p items d ⟨hp, h⟩
    exact ⟨submit_wellFormed hp d, by rw [submit_roster hp, h, Roster.ofItems_append]⟩
  · rintro p items ⟨hp, h⟩
    exact ⟨freeze_wellFormed hp, by rw [freeze_roster, h]⟩

end Program

/-- Keys with numbers: every key that was mentioned has one, and they are given in
    the order of first mention. -/
structure Numbered {κ : Type} [DecidableEq κ] (mentions keys : List κ) (find : κ → Option Nat) :
    Prop where
  /-- The keys are the mentions without repetitions. -/
  keys_eq : keys = mentions.eraseDups
  nodup : keys.Nodup
  /-- A key is found at the place where it stands. -/
  find_eq_some_iff : ∀ k i, find k = some i ↔ keys[i]? = some k
  /-- What was never mentioned is not found. -/
  isSome_find_iff : ∀ k, (find k).isSome ↔ k ∈ mentions

section Numbered

variable {α κ : Type} [DecidableEq κ]

/-- An array with distinct keys numbers them if they stand in the order of first
    mention. -/
theorem numbered_of_distinct {key : α → κ} {entries : Array α} (h : Distinct key entries)
    {mentions : List κ} (hkeys : entries.toList.map key = mentions.eraseDups) :
    Numbered mentions (entries.toList.map key)
      (fun k => entries.findIdx? fun entry => key entry = k) := by
  have hfind : ∀ k i, entries.findIdx? (fun entry => key entry = k) = some i ↔
      (entries.toList.map key)[i]? = some k := by
    intro k i
    rw [findIdx?_eq_some_iff h, List.getElem?_map, Array.getElem?_toList, Option.map_eq_some_iff]
  refine ⟨hkeys, distinct_nodup h, hfind, fun k => ?_⟩
  rw [← List.mem_eraseDups, ← hkeys, List.mem_iff_getElem?, Option.isSome_iff_exists]
  exact exists_congr fun i => hfind k i

/-- A number is never taken back: more mentions add more keys at the end. -/
theorem Numbered.find_append {mentions more keys keys' : List κ} {find find' : κ → Option Nat}
    (h : Numbered mentions keys find) (h' : Numbered (mentions ++ more) keys' find') {k : κ}
    {i : Nat} (hk : find k = some i) : find' k = some i := by
  -- The old keys are the beginning of the new ones.
  have hat := (h.find_eq_some_iff k i).1 hk
  rw [h'.find_eq_some_iff, h'.keys_eq, List.eraseDups_append, ← h.keys_eq,
    List.getElem?_append_left (List.getElem?_eq_some_iff.1 hat).1]
  exact hat

end Numbered

namespace Program

/-- The position of a field. -/
def fieldId? (p : Program) (f : FieldRef) : Option FieldId :=
  p.fields.findIdx? (· = f)

/-- Names and positions are as the given declarations say. -/
structure Interned (items : List (TypeDecl ⊕ UnitDecl)) (p : Program) : Prop where
  units : Numbered (items.flatMap itemUnits) (p.units.toList.map CodeUnit.qualified) p.unitId?
  types : Numbered (items.flatMap itemTypes) (p.types.toList.map TypeInfo.name) p.typeId?
  fields : Numbered (items.flatMap itemFields) p.fields.toList p.fieldId?
  unit_id : ∀ (i : UnitId) (u : CodeUnit), p.units[i]? = some u → u.id = i
  /-- All positions in a unit exist. -/
  units_inRange : ∀ u ∈ p.units, p.InRange u
  supertypes_inRange : ∀ t ∈ p.types, ∀ j ∈ t.supertypes, j < p.types.size
  submitted_iff : ∀ u ∈ p.units,
    u.submitted = true ↔ ∃ d ∈ submissions items, d.qualifiedName = u.qualified
  /-- A unit that was submitted reads back as its latest declaration. -/
  latest : ∀ u ∈ p.units, u.submitted = true →
    latestUnder u.qualified (submissions items) = some (p.readUnit u) ∧
      u.qualified = Name.qualify (p.typeName u.owner) u.name u.parameters
  /-- Of a unit that was never submitted only the name is known, and it belongs to the
      owner in the name. -/
  external : ∀ u ∈ p.units, u.submitted = false →
    u.calls = [] ∧ u.reads = [] ∧ u.writes = [] ∧ u.constructs = [] ∧
      Name.OwnerIn (p.typeName u.owner) u.qualified

section Records

variable {items : List (TypeDecl ⊕ UnitDecl)} {p : Program} (h : MadeFrom items p) {u : CodeUnit}
  (hu : u ∈ p.units)
include h hu

theorem MadeFrom.latest_of_submitted (hs : u.submitted = true) :
    latestUnder u.qualified (submissions items) = some (p.readUnit u) := by
  rcases Array.mem_iff_getElem?.1 hu with ⟨i, hi⟩
  have hrecord := h.record_eq hi
  rw [recordUnder] at hrecord
  split at hrecord
  · next d hd =>
      rw [hd]
      exact congrArg (fun r => some r.decl) hrecord.symm
  · have hnot : u.submitted = false := congrArg UnitRecord.submitted hrecord
    rw [hs] at hnot
    exact absurd hnot.symm Bool.false_ne_true

theorem MadeFrom.latest_of_external (hs : u.submitted = false) :
    latestUnder u.qualified (submissions items) = none ∧
      p.readUnit u = UnitDecl.ofReference u.qualified := by
  rcases Array.mem_iff_getElem?.1 hu with ⟨i, hi⟩
  have hrecord := h.record_eq hi
  rw [recordUnder] at hrecord
  split at hrecord
  · have hyes : u.submitted = true := congrArg UnitRecord.submitted hrecord
    rw [hs] at hyes
    exact absurd hyes Bool.false_ne_true
  · next hnone => exact ⟨hnone, congrArg UnitRecord.decl hrecord⟩

theorem MadeFrom.submitted_iff :
    u.submitted = true ↔ ∃ d ∈ submissions items, d.qualifiedName = u.qualified := by
  -- The record comes from a submission or from the name, and says so.
  by_cases hs : u.submitted = true
  · have hlatest := h.latest_of_submitted hu hs
    have hmem := List.mem_reverse.1 (List.mem_of_find?_eq_some hlatest)
    exact iff_of_true hs ⟨_, hmem, qualifiedName_of_latestUnder hlatest⟩
  · have hnone := latestUnder_eq_none.1 (h.latest_of_external hu (by simpa using hs)).1
    refine iff_of_false hs ?_
    rintro ⟨d, hd, hname⟩
    exact hnone d hd hname

theorem MadeFrom.external_empty (hs : u.submitted = false) :
    u.calls = [] ∧ u.reads = [] ∧ u.writes = [] ∧ u.constructs = [] ∧
      Name.OwnerIn (p.typeName u.owner) u.qualified := by
  have hread := (h.latest_of_external hu hs).2
  have howner : p.typeName u.owner = Name.ownerOf u.qualified := congrArg UnitDecl.owner hread
  rw [howner]
  exact ⟨List.map_eq_nil_iff.1 (congrArg UnitDecl.calls hread),
    List.map_eq_nil_iff.1 (congrArg UnitDecl.reads hread),
    List.map_eq_nil_iff.1 (congrArg UnitDecl.writes hread),
    List.map_eq_nil_iff.1 (congrArg UnitDecl.constructs hread), Name.ownerIn_ownerOf _⟩

end Records

theorem editAll_interned (edits : List Edit) :
    Interned (edits.flatMap Edit.items) (({} : Program).editAll edits) := by
  have hmade := editAll_madeFrom edits
  have hp := hmade.wellFormed
  have hroster := (editAll_roster edits).trans (Roster.ofItems_eq _)
  constructor
  case units => exact numbered_of_distinct hp.unit_names (congrArg Roster.units hroster)
  case types => exact numbered_of_distinct hp.type_names (congrArg Roster.types hroster)
  case fields =>
    have hfields := numbered_of_distinct hp.field_names
      ((List.map_id' _).trans (congrArg Roster.fields hroster))
    rwa [List.map_id'] at hfields
  case unit_id => exact hp.unit_id
  case units_inRange =>
    intro u hu
    rcases Array.mem_iff_getElem?.1 hu with ⟨i, hi⟩
    exact hp.units_inRange i u hi
  case supertypes_inRange =>
    intro t ht
    rcases Array.mem_iff_getElem?.1 ht with ⟨i, hi⟩
    exact hp.supertypes_inRange i t hi
  case submitted_iff => exact fun u hu => hmade.submitted_iff hu
  case latest =>
    intro u hu hs
    have hlatest := hmade.latest_of_submitted hu hs
    exact ⟨hlatest, (qualifiedName_of_latestUnder hlatest).symm⟩
  case external => exact fun u hu hs => hmade.external_empty hu hs

/-- After any history, names and positions are as the declarations in it say, and
    whatever is declared later, every name stays at its position. -/
theorem interning_exact (edits more : List Edit) :
    Interned (edits.flatMap Edit.items) (({} : Program).editAll edits) ∧
      (∀ n i, (({} : Program).editAll edits).unitId? n = some i →
        (({} : Program).editAll (edits ++ more)).unitId? n = some i) ∧
      (∀ n i, (({} : Program).editAll edits).typeId? n = some i →
        (({} : Program).editAll (edits ++ more)).typeId? n = some i) ∧
      (∀ f i, (({} : Program).editAll edits).fieldId? f = some i →
        (({} : Program).editAll (edits ++ more)).fieldId? f = some i) := by
  have h := editAll_interned edits
  have h' := editAll_interned (edits ++ more)
  rw [List.flatMap_append] at h'
  refine ⟨h, fun n i hi => ?_, fun n i hi => ?_, fun f i hi => ?_⟩
  · exact h.units.find_append (by simpa [List.flatMap_append] using h'.units) hi
  · exact h.types.find_append (by simpa [List.flatMap_append] using h'.types) hi
  · exact h.fields.find_append (by simpa [List.flatMap_append] using h'.fields) hi

end Program

end CoreShell
