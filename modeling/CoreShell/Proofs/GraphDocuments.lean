import CoreShell.Graph.Document
import CoreShell.Proofs.JsonValues

/-!
# Documents of a Graph

A graph has many documents. In each of its records the members may stand in any order, a member
whose value is its default may be missing, and there may be any others that the record does not
know. `Graph.Presents` says this for the records at all levels, and every text of every such
document is read as the graph.

The argument is the same for all records. Looking up a name that occurs once does not depend on
the order, nor on members with other names, so each field is found with the value that stands
for it, or it is not found and is the default.

## Main definitions

* `Json.Slot`: A field of a record: its name, when it may be missing and what stands for it.
* `Json.PresentsRecord`: An object is a document of a record.
* `Graph.Presents`: A value is a document of a graph.

## Theorems

* `Json.record?_of_presents`: The fields of a record are found.
* `Graph.ofJson?_of_presents`: A graph is read back from each of its documents.
* `Graph.presents_toJson`: The document with every field is one of them.
* `Graph.document_round_trip`: A graph is read back from what is written for it and from every
  text of its other documents.
-/

namespace CoreShell

namespace Json

/-- A field of a record: its name, whether it may be missing, and which values stand for it. -/
structure Slot where
  name : String
  omissible : Prop
  shows : Json → Prop

/-- A field that must be there. -/
def Slot.required (name : String) (shows : Json → Prop) : Slot :=
  ⟨name, False, shows⟩

/-- A field that may be missing if it holds its default. -/
def Slot.optional {α : Type} (name : String) (fallback value : α) (shows : Json → Prop) : Slot :=
  ⟨name, value = fallback, shows⟩

/-- What a record holds at a field. -/
def Slot.Holds (slot : Slot) : Option Json → Prop
  | some value => slot.shows value
  | none => slot.omissible

/-- Members for the fields of a record in order, some of them left out. -/
inductive Shown : List Slot → List (String × Json) → Prop
  | nil : Shown [] []
  | present {slot : Slot} {value : Json} {slots : List Slot} {members : List (String × Json)}
      (shows : slot.shows value) (rest : Shown slots members) :
      Shown (slot :: slots) ((slot.name, value) :: members)
  | omitted {slot : Slot} {slots : List Slot} {members : List (String × Json)}
      (omissible : slot.omissible) (rest : Shown slots members) : Shown (slot :: slots) members

/-- A value is a document of a record: its members are those for the fields and others that the
    record does not know, in any order. -/
def PresentsRecord (slots : List Slot) (json : Json) : Prop :=
  ∃ members known extra, json = .fields members ∧ members.Perm (known ++ extra) ∧
    Shown slots known ∧ ∀ m ∈ extra, m.1 ∉ slots.map Slot.name

/-- A value is an array of documents, one for each item of a list. -/
def PresentsList {α : Type} (presents : α → Json → Prop) (xs : List α) (json : Json) : Prop :=
  ∃ items, json = .array items ∧ List.Forall₂ presents xs items

section Records

/-- A name that no field has stands at no member. -/
theorem Shown.filter_eq_nil {slots : List Slot} {members : List (String × Json)}
    (h : Shown slots members) {name : String} (hname : name ∉ slots.map Slot.name) :
    members.filter (·.1 = name) = [] := by
  induction h with
  | nil => rfl
  | present _ _ ih =>
      rw [List.map_cons, List.mem_cons, not_or] at hname
      rw [List.filter_cons_of_neg (by simpa using Ne.symm hname.1), ih hname.2]
  | omitted _ _ ih => exact ih fun hmem => hname (List.mem_cons_of_mem _ hmem)

/-- Each field stands at one member, or at none if it may be missing. -/
theorem Shown.exists_holds {slots : List Slot} {members : List (String × Json)}
    (h : Shown slots members) (hnodup : (slots.map Slot.name).Nodup) {slot : Slot}
    (hslot : slot ∈ slots) :
    ∃ field : Option Json, slot.Holds field ∧
      members.filter (·.1 = slot.name) = field.toList.map (slot.name, ·) := by
  induction h with
  | nil => simp at hslot
  | @present first value slots members hshows hrest ih =>
      rw [List.map_cons, List.nodup_cons] at hnodup
      rcases List.mem_cons.1 hslot with rfl | hslot
      · refine ⟨some value, hshows, ?_⟩
        rw [List.filter_cons_of_pos (by simp), hrest.filter_eq_nil hnodup.1]
        rfl
      · -- Another field has another name, so the first member is passed over.
        have hne : first.name ≠ slot.name := fun heq =>
          hnodup.1 (heq ▸ List.mem_map_of_mem hslot)
        rw [List.filter_cons_of_neg (by simpa using hne)]
        exact ih hnodup.2 hslot
  | omitted homissible hrest ih =>
      rw [List.map_cons, List.nodup_cons] at hnodup
      rcases List.mem_cons.1 hslot with rfl | hslot
      · exact ⟨none, homissible, hrest.filter_eq_nil hnodup.1⟩
      · exact ih hnodup.2 hslot

/-- The same in any order and among members that the record does not know. -/
theorem exists_holds_of_perm {slots : List Slot} {members known extra : List (String × Json)}
    (hperm : members.Perm (known ++ extra)) (hshown : Shown slots known)
    (hextra : ∀ m ∈ extra, m.1 ∉ slots.map Slot.name) (hnodup : (slots.map Slot.name).Nodup)
    {slot : Slot} (hslot : slot ∈ slots) :
    ∃ field : Option Json, slot.Holds field ∧
      members.filter (·.1 = slot.name) = field.toList.map (slot.name, ·) := by
  obtain ⟨field, hholds, hknown⟩ := hshown.exists_holds hnodup hslot
  refine ⟨field, hholds, ?_⟩
  have hnone : extra.filter (·.1 = slot.name) = [] := by
    refine List.filter_eq_nil_iff.2 fun m hm hname => hextra m hm ?_
    rw [of_decide_eq_true hname]
    exact List.mem_map_of_mem hslot
  -- At most one member is left, and one member has only one order.
  have hfilter := hperm.filter (·.1 = slot.name)
  rw [List.filter_append, hnone, List.append_nil, hknown] at hfilter
  cases field with
  | none => exact hfilter.eq_nil
  | some value => exact hfilter.eq_singleton

@[simp] theorem namedMembers?_some (members : List (String × Json)) :
    namedMembers? (members.map fun m => (some m.1, m.2)) = some members := by
  induction members with
  | nil => rfl
  | cons m members ih =>
      rw [namedMembers?] at ih ⊢
      rw [List.map_cons, List.mapM_cons, ih]
      rfl

/-- The fields of a record are found. -/
theorem record?_of_presents {slots : List Slot} {json : Json} (h : PresentsRecord slots json)
    (names : List String) (hnames : slots.map Slot.name = names) (hnodup : names.Nodup) :
    ∃ fields, json.record? names = some fields ∧ List.Forall₂ Slot.Holds slots fields := by
  subst hnames
  obtain ⟨members, known, extra, rfl, hperm, hshown, hextra⟩ := h
  have hholds := fun slot (hslot : slot ∈ slots) =>
    exists_holds_of_perm hperm hshown hextra hnodup hslot
  have honce : ((slots.map Slot.name).any fun name =>
      decide (1 < members.countP (·.1 = name))) = false := by
    simp only [List.any_eq_false, List.mem_map, decide_eq_true_eq, not_lt]
    rintro _ ⟨slot, hslot, rfl⟩
    obtain ⟨field, _, hfilter⟩ := hholds slot hslot
    rw [List.countP_eq_length_filter, hfilter]
    cases field <;> simp
  refine ⟨(slots.map Slot.name).map fun name => (members.find? (·.1 = name)).map (·.2), ?_, ?_⟩
  · rw [fields, record?, namedMembers?_some, Option.bind_eq_bind, Option.bind_some, honce]
    rfl
  · rw [List.map_map, List.forall₂_map_right_iff, List.forall₂_same]
    intro slot hslot
    obtain ⟨field, hfield, hfilter⟩ := hholds slot hslot
    have hfind : members.find? (·.1 = slot.name) = field.map (slot.name, ·) := by
      rw [← List.head?_filter, hfilter]
      cases field <;> rfl
    rw [Function.comp_apply, hfind]
    cases field <;> exact hfield

/-- A required field is read. -/
theorem required?_of_holds {α : Type} {name : String} {shows : Json → Prop}
    {field : Option Json} (h : (Slot.required name shows).Holds field)
    {read? : Json → Option α} {x : α} (hread : ∀ json, shows json → read? json = some x) :
    required? read? field = some x := by
  cases field with
  | none => exact h.elim
  | some json => exact hread json h

/-- An optional field is read, also when it is missing. -/
theorem optional?_of_holds {α : Type} {name : String} {fallback x : α} {shows : Json → Prop}
    {field : Option Json} (h : (Slot.optional name fallback x shows).Holds field)
    {read? : Json → Option α} (hread : ∀ json, shows json → read? json = some x) :
    optional? read? fallback field = some x := by
  cases field with
  | none => exact congrArg some (Eq.symm h)
  | some json => exact hread json h

/-- Documents are read one by one. -/
theorem toList?_of_presents {α : Type} {presents : α → Json → Prop} {read? : Json → Option α}
    (hread : ∀ x json, presents x json → read? json = some x) {xs : List α} {json : Json}
    (h : PresentsList presents xs json) : toList? read? json = some xs := by
  obtain ⟨items, rfl, hitems⟩ := h
  rw [toList?]
  induction hitems with
  | nil => rfl
  | cons hx _ ih =>
      rw [List.mapM_cons, hread _ _ hx, ih]
      rfl

/-- The members for all fields, in order, are a document. -/
theorem Shown.presentsRecord {slots : List Slot} {members : List (String × Json)}
    (h : Shown slots members) : PresentsRecord slots (.fields members) :=
  ⟨members, members, [], rfl, by simp, h, by simp⟩

theorem presentsList_map {α : Type} {presents : α → Json → Prop} {write : α → Json}
    (h : ∀ x, presents x (write x)) (xs : List α) :
    PresentsList presents xs (.array (xs.map write)) := by
  refine ⟨_, rfl, ?_⟩
  rw [List.forall₂_map_right_iff, List.forall₂_same]
  exact fun x _ => h x

end Records

end Json

open Json (Slot Shown PresentsRecord PresentsList)

namespace TypeDecl

/-- The fields of a type. -/
def slots (t : TypeDecl) : List Slot :=
  [.required "name" (· = .text t.name),
   .optional "dispatch" .concrete t.dispatch (· = .text t.dispatch.name),
   .optional "supertypes" [] t.supertypes (· = .texts t.supertypes)]

/-- A value is a document of a type. -/
def Presents (t : TypeDecl) (json : Json) : Prop :=
  PresentsRecord t.slots json

end TypeDecl

namespace FieldRef

/-- The fields of a field reference. -/
def slots (f : FieldRef) : List Slot :=
  [.required "owner" (· = .text f.owner), .required "name" (· = .text f.name)]

/-- A value is a document of a field reference. -/
def Presents (f : FieldRef) (json : Json) : Prop :=
  PresentsRecord f.slots json

end FieldRef

namespace CallDecl

/-- The fields of a call site. -/
def slots (c : CallDecl) : List Slot :=
  [.required "owner" (· = .text c.owner), .required "targets" (· = .texts c.targets)]

/-- A value is a document of a call site. -/
def Presents (c : CallDecl) (json : Json) : Prop :=
  PresentsRecord c.slots json

end CallDecl

namespace UnitDecl

/-- The fields of a unit. -/
def slots (u : UnitDecl) : List Slot :=
  [.required "owner" (· = .text u.owner),
   .required "name" (· = .text u.name),
   .optional "parameters" [] u.parameters (· = .texts u.parameters),
   .optional "kind" .method u.kind (· = .text u.kind.name),
   .optional "native" false u.native (· = .bool u.native),
   .optional "abstract" false u.isAbstract (· = .bool u.isAbstract),
   .optional "returns_void" false u.returnsVoid (· = .bool u.returnsVoid),
   .optional "calls" [] u.calls (PresentsList CallDecl.Presents u.calls),
   .optional "writes" [] u.writes (PresentsList FieldRef.Presents u.writes),
   .optional "reads" [] u.reads (PresentsList FieldRef.Presents u.reads),
   .optional "constructs" [] u.constructs (· = .texts u.constructs)]

/-- A value is a document of a unit. -/
def Presents (u : UnitDecl) (json : Json) : Prop :=
  PresentsRecord u.slots json

end UnitDecl

namespace Graph

/-- The fields of a graph. -/
def slots (g : Graph) : List Slot :=
  [.optional "types" [] g.types (PresentsList TypeDecl.Presents g.types),
   .optional "units" [] g.units (PresentsList UnitDecl.Presents g.units)]

/-- A value is a document of a graph. -/
def Presents (g : Graph) (json : Json) : Prop :=
  PresentsRecord g.slots json

end Graph

section Reading

theorem Json.toText?_text {s : String} :
    ∀ json : Json, json = .text s → json.toText? = some s := by
  rintro _ rfl
  rfl

theorem Json.toBool?_bool {b : Bool} :
    ∀ json : Json, json = .bool b → json.toBool? = some b := by
  rintro _ rfl
  rfl

theorem Json.toList?_texts {xs : List String} :
    ∀ json, json = .texts xs → Json.toList? Json.toText? json = some xs := by
  rintro _ rfl
  have htexts := @presentsList_map String (fun s json => json = text s) text (fun _ => rfl) xs
  exact toList?_of_presents (fun _ => toText?_text) htexts

theorem Dispatch.toChoice?_name {d : Dispatch} :
    ∀ json, json = .text d.name → Json.toChoice? Dispatch.names json = some d := by
  rintro _ rfl
  cases d <;> rfl

theorem UnitKind.toChoice?_name {k : UnitKind} :
    ∀ json, json = .text k.name → Json.toChoice? UnitKind.names json = some k := by
  rintro _ rfl
  cases k <;> rfl

theorem TypeDecl.ofJson?_of_presents (t : TypeDecl) (json : Json) (h : t.Presents json) :
    TypeDecl.ofJson? json = some t := by
  obtain ⟨fields, hrecord, hholds⟩ :=
    Json.record?_of_presents h ["name", "dispatch", "supertypes"] rfl (by decide)
  obtain _ | ⟨hname, _ | ⟨hdispatch, _ | ⟨hsupertypes, _ | _⟩⟩⟩ := hholds
  simp only [ofJson?, hrecord, Option.bind_eq_bind, Option.bind_some,
    Json.required?_of_holds hname Json.toText?_text,
    Json.optional?_of_holds hdispatch Dispatch.toChoice?_name,
    Json.optional?_of_holds hsupertypes Json.toList?_texts]
  rfl

theorem FieldRef.ofJson?_of_presents (f : FieldRef) (json : Json) (h : f.Presents json) :
    FieldRef.ofJson? json = some f := by
  obtain ⟨fields, hrecord, hholds⟩ :=
    Json.record?_of_presents h ["owner", "name"] rfl (by decide)
  obtain _ | ⟨howner, _ | ⟨hname, _ | _⟩⟩ := hholds
  simp only [ofJson?, hrecord, Option.bind_eq_bind, Option.bind_some,
    Json.required?_of_holds howner Json.toText?_text,
    Json.required?_of_holds hname Json.toText?_text]
  rfl

theorem CallDecl.ofJson?_of_presents (c : CallDecl) (json : Json) (h : c.Presents json) :
    CallDecl.ofJson? json = some c := by
  obtain ⟨fields, hrecord, hholds⟩ :=
    Json.record?_of_presents h ["owner", "targets"] rfl (by decide)
  obtain _ | ⟨howner, _ | ⟨htargets, _ | _⟩⟩ := hholds
  simp only [ofJson?, hrecord, Option.bind_eq_bind, Option.bind_some,
    Json.required?_of_holds howner Json.toText?_text,
    Json.required?_of_holds htargets Json.toList?_texts]
  rfl

theorem UnitDecl.ofJson?_of_presents (u : UnitDecl) (json : Json) (h : u.Presents json) :
    UnitDecl.ofJson? json = some u := by
  obtain ⟨fields, hrecord, hholds⟩ := Json.record?_of_presents h fieldNames rfl (by decide)
  obtain _ | ⟨howner, _ | ⟨hname, _ | ⟨hparameters, _ | ⟨hkind, _ | ⟨hnative, _ | ⟨habstract,
    _ | ⟨hvoid, _ | ⟨hcalls, _ | ⟨hwrites, _ | ⟨hreads, _ | ⟨hconstructs, _ | _⟩⟩⟩⟩⟩⟩⟩⟩⟩⟩⟩ :=
    hholds
  simp only [ofJson?, hrecord, Option.bind_eq_bind, Option.bind_some,
    Json.required?_of_holds howner Json.toText?_text,
    Json.required?_of_holds hname Json.toText?_text,
    Json.optional?_of_holds hparameters Json.toList?_texts,
    Json.optional?_of_holds hkind UnitKind.toChoice?_name,
    Json.optional?_of_holds hnative Json.toBool?_bool,
    Json.optional?_of_holds habstract Json.toBool?_bool,
    Json.optional?_of_holds hvoid Json.toBool?_bool,
    Json.optional?_of_holds hcalls
      fun _ => Json.toList?_of_presents CallDecl.ofJson?_of_presents,
    Json.optional?_of_holds hwrites
      fun _ => Json.toList?_of_presents FieldRef.ofJson?_of_presents,
    Json.optional?_of_holds hreads
      fun _ => Json.toList?_of_presents FieldRef.ofJson?_of_presents,
    Json.optional?_of_holds hconstructs Json.toList?_texts]
  rfl

/-- A graph is read back from each of its documents. -/
theorem Graph.ofJson?_of_presents (g : Graph) (json : Json) (h : g.Presents json) :
    Graph.ofJson? json = some g := by
  obtain ⟨fields, hrecord, hholds⟩ :=
    Json.record?_of_presents h ["types", "units"] rfl (by decide)
  obtain _ | ⟨htypes, _ | ⟨hunits, _ | _⟩⟩ := hholds
  simp only [ofJson?, hrecord, Option.bind_eq_bind, Option.bind_some,
    Json.optional?_of_holds htypes
      fun _ => Json.toList?_of_presents TypeDecl.ofJson?_of_presents,
    Json.optional?_of_holds hunits
      fun _ => Json.toList?_of_presents UnitDecl.ofJson?_of_presents]
  rfl

/-- A graph is read back from each text of each of its documents. -/
theorem Graph.parse?_of_presents {g : Graph} {json : Json} {text : String}
    (h : g.Presents json) (htext : json.IsText text) : Graph.parse? text = some g := by
  rw [parse?, Json.parse?_of_isText htext]
  exact ofJson?_of_presents g json h

end Reading

section Writing

theorem TypeDecl.presents_toJson (t : TypeDecl) : t.Presents t.toJson :=
  Shown.presentsRecord (.present rfl (.present rfl (.present rfl .nil)))

theorem FieldRef.presents_toJson (f : FieldRef) : f.Presents f.toJson :=
  Shown.presentsRecord (.present rfl (.present rfl .nil))

theorem CallDecl.presents_toJson (c : CallDecl) : c.Presents c.toJson :=
  Shown.presentsRecord (.present rfl (.present rfl .nil))

theorem UnitDecl.presents_toJson (u : UnitDecl) : u.Presents u.toJson := by
  refine Shown.presentsRecord ?_
  refine .present rfl (.present rfl (.present rfl (.present rfl (.present rfl (.present rfl
    (.present rfl (.present ?_ (.present ?_ (.present ?_ (.present rfl .nil))))))))))
  · exact Json.presentsList_map CallDecl.presents_toJson u.calls
  · exact Json.presentsList_map FieldRef.presents_toJson u.writes
  · exact Json.presentsList_map FieldRef.presents_toJson u.reads

/-- The document with every field is one of a graph. -/
theorem Graph.presents_toJson (g : Graph) : g.Presents g.toJson :=
  Shown.presentsRecord
    (.present (Json.presentsList_map TypeDecl.presents_toJson g.types)
      (.present (Json.presentsList_map UnitDecl.presents_toJson g.units) .nil))

theorem TypeDecl.numbersSpelled_toJson (t : TypeDecl) :
    Json.NumbersSpelled t.toJson.tokens := by
  simp [toJson]

theorem FieldRef.numbersSpelled_toJson (f : FieldRef) :
    Json.NumbersSpelled f.toJson.tokens := by
  simp [toJson]

theorem CallDecl.numbersSpelled_toJson (c : CallDecl) :
    Json.NumbersSpelled c.toJson.tokens := by
  simp [toJson]

theorem UnitDecl.numbersSpelled_toJson (u : UnitDecl) :
    Json.NumbersSpelled u.toJson.tokens := by
  simp [toJson, CallDecl.numbersSpelled_toJson, FieldRef.numbersSpelled_toJson]

theorem Graph.numbersSpelled_toJson (g : Graph) : Json.NumbersSpelled g.toJson.tokens := by
  simp [toJson, TypeDecl.numbersSpelled_toJson, UnitDecl.numbersSpelled_toJson]

end Writing

namespace Graph

/-- A graph is read back from what is written for it, on one line or on many, and from every
    text of every other document of it. -/
theorem document_round_trip (g : Graph) :
    parse? g.render = some g ∧ parse? g.toJson.pretty = some g ∧ g.Presents g.toJson ∧
      ∀ json, g.Presents json → ∀ text, json.IsText text → parse? text = some g := by
  have hdocument := g.presents_toJson
  have hnumbers := g.numbersSpelled_toJson
  refine ⟨?_, ?_, hdocument, ?_⟩
  · exact parse?_of_presents hdocument (Json.isText_compact hnumbers)
  · exact parse?_of_presents hdocument (Json.isText_pretty hnumbers)
  · intro json hjson text htext
    exact parse?_of_presents hjson htext

/-- An abstract unit that calls itself through an interface. -/
def shapes : Graph where
  types := [{ name := "Shape", dispatch := .interface }]
  units := [{ owner := "Shape", name := "area", isAbstract := true,
              calls := [⟨"Shape", ["Shape.area()"]⟩] }]

/-- An object with the members of a record and others behind them, all in reverse. -/
def reversed (known extra : List (String × Json)) : Json :=
  .fields (known ++ extra).reverse

/-- A document of `shapes` with its members in reverse and without those that hold defaults. The
    others are a number, a string that denotes no text and an empty object. -/
def shapesReversed : Json :=
  reversed
    [("types", .array [reversed [("name", .text "Shape"), ("dispatch", .text "interface")] []]),
     ("units", .array [reversed
       [("owner", .text "Shape"), ("name", .text "area"), ("abstract", .bool true),
        ("calls", .array [reversed
          [("owner", .text "Shape"), ("targets", .texts ["Shape.area()"])]
          [("line", .object [])]])]
       [("note", .string none)]])]
    [("version", .number "-1.5e+3")]

theorem presentsRecord_reversed {slots : List Slot} {known extra : List (String × Json)}
    (h : Shown slots known) (hextra : ∀ m ∈ extra, m.1 ∉ slots.map Slot.name) :
    PresentsRecord slots (reversed known extra) :=
  ⟨_, known, extra, rfl, List.reverse_perm _, h, hextra⟩

theorem presents_shapesReversed : shapes.Presents shapesReversed := by
  refine presentsRecord_reversed (.present ⟨_, rfl, .cons ?_ .nil⟩
    (.present ⟨_, rfl, .cons ?_ .nil⟩ .nil)) (by simp [slots, Slot.optional])
  · exact presentsRecord_reversed (.present rfl (.present rfl (.omitted rfl .nil))) (by simp)
  · refine presentsRecord_reversed (.present rfl (.present rfl (.omitted rfl (.omitted rfl
      (.omitted rfl (.present rfl (.omitted rfl (.present ⟨_, rfl, .cons ?_ .nil⟩ (.omitted rfl
      (.omitted rfl (.omitted rfl .nil)))))))))))
      (by simp [UnitDecl.slots, Slot.required, Slot.optional])
    exact presentsRecord_reversed (.present rfl (.present rfl .nil))
      (by simp [CallDecl.slots, Slot.required])

theorem isText_shapesReversed : shapesReversed.IsText shapesReversed.pretty := by
  have hversion : JsonToken.IsNumber ['-', '1', '.', '5', 'e', '+', '3'] :=
    ⟨['-'], ['1'], ['.', '5'], ['e', '+', '3'], rfl, .inr rfl,
      .inr ⟨⟨by simp, by simp⟩, by simp⟩,
      .inr ⟨['5'], rfl, by simp, by simp⟩,
      .inr ⟨'e', ['+'], ['3'], rfl, .inl rfl, .inr (.inl rfl), by simp, by simp⟩⟩
  refine Json.isText_pretty ?_
  simp [shapesReversed, reversed, hversion]

theorem document_round_trip_shapesReversed :
    shapes.Presents shapesReversed ∧ shapesReversed.IsText shapesReversed.pretty ∧
      parse? shapesReversed.pretty = some shapes :=
  ⟨presents_shapesReversed, isText_shapesReversed,
    (document_round_trip shapes).2.2.2 _ presents_shapesReversed _ isText_shapesReversed⟩

end Graph

end CoreShell
