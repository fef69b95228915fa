import CoreShell.Json.Reader
import CoreShell.Proofs.JsonTexts

/-!
# Texts of JSON Values

The tokens of a value, and from them the texts of a value: any spelling of the tokens with any
white space between them. The reader gives the value back from every one of its texts. It keeps
a stack of what is open, so the argument is about a value that is read on top of any stack,
with any tokens behind it; items and members are read into whatever was already found.

Both ways in which values are written give texts of the value, provided that its numbers are
spelled as numbers are.

## Main definitions

* `Json.tokens`: The tokens of a value.
* `Json.IsText`: A text is one of those of a value.

## Theorems

* `ofTokens?_tokens`: The tokens of a value form the value.
* `parse?_of_isText`: A value is read back from each of its texts.
* `isText_compact`, `isText_pretty`: Values are written as one of their texts.
-/

namespace CoreShell

namespace Json

mutual

/-- The tokens of a value. -/
def tokens : Json → List JsonToken
  | .null => [.null]
  | .bool b => [.bool b]
  | .number literal => [.number literal]
  | .string text => [.string text]
  | .array items => .openArray :: (itemTokens items ++ [.closeArray])
  | .object members => .openObject :: (memberTokens members ++ [.closeObject])

/-- The tokens of items, with commas between them. -/
def itemTokens : List Json → List JsonToken
  | [] => []
  | [item] => tokens item
  | item :: rest => tokens item ++ .comma :: itemTokens rest

/-- The tokens of members, with commas between them. -/
def memberTokens : List (Option String × Json) → List JsonToken
  | [] => []
  | [(name, value)] => .string name :: .colon :: tokens value
  | (name, value) :: rest =>
    .string name :: .colon :: (tokens value ++ .comma :: memberTokens rest)

end

/-- A text is one of those of a value. -/
def IsText (value : Json) (text : String) : Prop :=
  JsonToken.Texts value.tokens text.toList

section Reading

theorem foldlM_step {reader next : JsonReader} {t : JsonToken}
    (h : reader.step? t = some next) (ts : List JsonToken) :
    (t :: ts).foldlM JsonReader.step? reader = ts.foldlM JsonReader.step? next := by
  rw [List.foldlM_cons, h]
  rfl

/-- A value does not start like the end of an array. -/
theorem exists_tokens_cons (j : Json) : ∃ t ts, j.tokens = t :: ts ∧ t ≠ .closeArray := by
  cases j <;> exact ⟨_, _, rfl, by simp⟩

/-- An array that was just opened takes a value like one that is waiting for it. -/
theorem foldlM_firstItem (j : Json) (stack : List JsonFrame) (ts : List JsonToken) :
    (j.tokens ++ ts).foldlM JsonReader.step? (.firstItem stack) =
      (j.tokens ++ ts).foldlM JsonReader.step? (.value (.array [] :: stack)) := by
  obtain ⟨t, rest, ht, hne⟩ := exists_tokens_cons j
  have hstep : JsonReader.step? (.firstItem stack) t =
      JsonReader.step? (.value (.array [] :: stack)) t := by
    cases t <;> first | rfl | exact absurd rfl hne
  rw [ht, List.cons_append, List.foldlM_cons, List.foldlM_cons, hstep]

/-- Items start with the tokens of the first one. -/
theorem exists_itemTokens_append (item : Json) (rest : List Json) :
    ∃ ts, itemTokens (item :: rest) = item.tokens ++ ts := by
  cases rest with
  | nil => exact ⟨[], by rw [itemTokens, List.append_nil]⟩
  | cons next rest => exact ⟨.comma :: itemTokens (next :: rest), by rw [itemTokens]; simp⟩

mutual

/-- A value is read on top of any stack, whatever follows it. -/
theorem foldlM_tokens (j : Json) (stack : List JsonFrame) (ts : List JsonToken) :
    (j.tokens ++ ts).foldlM JsonReader.step? (.value stack) =
      ts.foldlM JsonReader.step? (.done j stack) := by
  match j with
  | .null | .bool _ | .number _ | .string _ => exact foldlM_step rfl ts
  | .array [] =>
      simp only [tokens, itemTokens, List.cons_append, List.nil_append]
      rw [foldlM_step rfl, foldlM_step rfl]
  | .array (item :: rest) =>
      -- The first item is read in a state of its own, in which the array might end.
      have hitems := foldlM_itemTokens item rest [] stack ts
      rw [tokens, List.cons_append, List.append_assoc, foldlM_step rfl]
      obtain ⟨behind, hbehind⟩ := exists_itemTokens_append item rest
      rw [hbehind, List.append_assoc] at hitems ⊢
      rw [foldlM_firstItem]
      exact hitems
  | .object [] =>
      simp only [tokens, memberTokens, List.cons_append, List.nil_append]
      rw [foldlM_step rfl, foldlM_step rfl]
  | .object (m :: rest) =>
      rw [tokens, List.cons_append, List.append_assoc, foldlM_step rfl]
      exact foldlM_memberTokens m rest [] true stack ts
termination_by sizeOf j

/-- Items are read behind those that were found. -/
theorem foldlM_itemTokens (item : Json) (rest found : List Json) (stack : List JsonFrame)
    (ts : List JsonToken) :
    (itemTokens (item :: rest) ++ .closeArray :: ts).foldlM JsonReader.step?
        (.value (.array found :: stack)) =
      ts.foldlM JsonReader.step? (.done (.array (found.reverse ++ item :: rest)) stack) := by
  match rest with
  | [] =>
      rw [itemTokens, foldlM_tokens item, foldlM_step rfl, List.reverse_cons]
  | next :: rest =>
      rw [itemTokens, List.append_assoc, foldlM_tokens item, List.cons_append, foldlM_step rfl,
        foldlM_itemTokens next rest, List.reverse_cons, List.append_assoc]
      · rfl
      · simp
termination_by sizeOf (item :: rest)

/-- Members are read behind those that were found. -/
theorem foldlM_memberTokens (m : Option String × Json) (rest found : List (Option String × Json))
    (mayClose : Bool) (stack : List JsonFrame) (ts : List JsonToken) :
    (memberTokens (m :: rest) ++ .closeObject :: ts).foldlM JsonReader.step?
        (.member found mayClose stack) =
      ts.foldlM JsonReader.step? (.done (.object (found.reverse ++ m :: rest)) stack) := by
  match m, rest with
  | (name, value), [] =>
      simp only [memberTokens, List.cons_append]
      rw [foldlM_step rfl, foldlM_step rfl, foldlM_tokens value, foldlM_step rfl,
        List.reverse_cons]
  | (name, value), next :: rest =>
      simp only [memberTokens, List.cons_append, List.append_assoc]
      rw [foldlM_step rfl, foldlM_step rfl, foldlM_tokens value, foldlM_step rfl,
        foldlM_memberTokens next rest, List.reverse_cons, List.append_assoc]
      rfl
termination_by sizeOf (m :: rest)

end

/-- The tokens of a value form the value. -/
theorem ofTokens?_tokens (j : Json) : ofTokens? j.tokens = some j := by
  have hread := foldlM_tokens j [] []
  rw [List.append_nil] at hread
  rw [ofTokens?, hread]
  rfl

/-- A value is read back from each of its texts. -/
theorem parse?_of_isText {j : Json} {text : String} (h : j.IsText text) :
    parse? text = some j := by
  rw [parse?, JsonToken.scan?_texts h]
  exact ofTokens?_tokens j

end Reading

section Writing

open JsonToken

/-- Every number among the tokens is spelled as a number. -/
def NumbersSpelled (ts : List JsonToken) : Prop :=
  ∀ literal, JsonToken.number literal ∈ ts → IsNumber literal.toList

@[simp] theorem numbersSpelled_nil : NumbersSpelled [] := by
  simp [NumbersSpelled]

@[simp] theorem numbersSpelled_cons {t : JsonToken} {ts : List JsonToken} :
    NumbersSpelled (t :: ts) ↔
      (∀ literal, t = .number literal → IsNumber literal.toList) ∧ NumbersSpelled ts := by
  simp only [NumbersSpelled, List.mem_cons, or_imp, forall_and, eq_comm]

@[simp] theorem numbersSpelled_append {ts us : List JsonToken} :
    NumbersSpelled (ts ++ us) ↔ NumbersSpelled ts ∧ NumbersSpelled us := by
  simp only [NumbersSpelled, List.mem_append, or_imp, forall_and]

theorem numbersSpelled_itemTokens (items : List Json) :
    NumbersSpelled (itemTokens items) ↔ ∀ item ∈ items, NumbersSpelled item.tokens := by
  match items with
  | [] => simp [itemTokens]
  | [item] => simp [itemTokens]
  | item :: next :: rest =>
      have hrest := numbersSpelled_itemTokens (next :: rest)
      simp [itemTokens, hrest]

theorem numbersSpelled_memberTokens (members : List (Option String × Json)) :
    NumbersSpelled (memberTokens members) ↔ ∀ m ∈ members, NumbersSpelled m.2.tokens := by
  match members with
  | [] => simp [memberTokens]
  | [(name, value)] => simp [memberTokens]
  | (name, value) :: next :: rest =>
      have hrest := numbersSpelled_memberTokens (next :: rest)
      simp only [List.forall_mem_cons] at hrest ⊢
      simp [memberTokens, hrest]

@[simp] theorem numbersSpelled_bool (b : Bool) : NumbersSpelled (bool b).tokens := by
  simp [tokens]

@[simp] theorem numbersSpelled_number (literal : String) :
    NumbersSpelled (number literal).tokens ↔ IsNumber literal.toList := by
  simp [tokens]

@[simp] theorem numbersSpelled_string (text : Option String) :
    NumbersSpelled (string text).tokens := by
  simp [tokens]

@[simp] theorem numbersSpelled_array {items : List Json} :
    NumbersSpelled (array items).tokens ↔ ∀ item ∈ items, NumbersSpelled item.tokens := by
  simp [tokens, numbersSpelled_itemTokens]

@[simp] theorem numbersSpelled_object {members : List (Option String × Json)} :
    NumbersSpelled (object members).tokens ↔ ∀ m ∈ members, NumbersSpelled m.2.tokens := by
  simp [tokens, numbersSpelled_memberTokens]

@[simp] theorem numbersSpelled_text (s : String) : NumbersSpelled (text s).tokens :=
  numbersSpelled_string (some s)

@[simp] theorem numbersSpelled_texts (xs : List String) : NumbersSpelled (texts xs).tokens := by
  simp [texts]

@[simp] theorem numbersSpelled_fields {members : List (String × Json)} :
    NumbersSpelled (fields members).tokens ↔ ∀ m ∈ members, NumbersSpelled m.2.tokens := by
  rw [fields, numbersSpelled_object, List.forall_mem_map]

theorem texts_newLine (depth : Nat) {ts : List JsonToken} {cs : List Char} (h : Texts ts cs) :
    Texts ts (newLine depth ++ cs) := by
  have hindent : ∀ n, Texts ts (List.replicate n ' ' ++ cs) := by
    intro n
    induction n with
    | zero => exact h
    | succ n ih => exact .space rfl ih
  exact .space rfl (hindent _)

theorem clear_newLine (depth : Nat) (cs : List Char) :
    Clear continuesNumber (newLine depth ++ cs) :=
  clear_cons.2 rfl

/-- What a token of one character adds to a text. -/
theorem texts_mark {t : JsonToken} {c : Char} (hspells : Spells t [c])
    (hnumber : t.isNumber = Bool.false) {ts : List JsonToken} {cs : List Char}
    (h : Texts ts cs) : Texts (t :: ts) (c :: cs) :=
  .token hspells (by simp [hnumber]) h

mutual

/-- A value without white space, in front of any text that could not go on with a number. -/
theorem texts_compact (j : Json) (hj : NumbersSpelled j.tokens) {ts : List JsonToken}
    {cs : List Char} (hcs : Clear continuesNumber cs) (h : Texts ts cs) :
    Texts (j.tokens ++ ts) (compact j ++ cs) := by
  match j with
  | .null => exact .token .null nofun h
  | .bool true => exact .token .true nofun h
  | .bool false => exact .token .false nofun h
  | .number literal =>
      exact .token (.number (hj literal (by simp [tokens]))) (fun _ => hcs) h
  | .string text => exact .token (spells_quoted text) nofun h
  | .array items =>
      simp only [tokens, numbersSpelled_cons, numbersSpelled_append] at hj
      have hitems :=
        texts_compactItems items hj.2.1 (clear_cons.2 rfl) (texts_mark .closeArray rfl h)
      simpa [tokens, compact] using texts_mark .openArray rfl hitems
  | .object members =>
      simp only [tokens, numbersSpelled_cons, numbersSpelled_append] at hj
      have hmembers :=
        texts_compactMembers members hj.2.1 (clear_cons.2 rfl) (texts_mark .closeObject rfl h)
      simpa [tokens, compact] using texts_mark .openObject rfl hmembers
termination_by sizeOf j

theorem texts_compactItems (items : List Json) (hj : NumbersSpelled (itemTokens items))
    {ts : List JsonToken} {cs : List Char} (hcs : Clear continuesNumber cs) (h : Texts ts cs) :
    Texts (itemTokens items ++ ts) (compactItems items ++ cs) := by
  match items with
  | [] => exact h
  | [item] => exact texts_compact item hj hcs h
  | item :: next :: rest =>
      simp only [itemTokens, numbersSpelled_cons, numbersSpelled_append] at hj
      have hrest := texts_compactItems (next :: rest) hj.2.2 hcs h
      simpa [itemTokens, compactItems] using
        texts_compact item hj.1 (clear_cons.2 rfl) (texts_mark .comma rfl hrest)
termination_by sizeOf items

theorem texts_compactMembers (members : List (Option String × Json))
    (hj : NumbersSpelled (memberTokens members)) {ts : List JsonToken} {cs : List Char}
    (hcs : Clear continuesNumber cs) (h : Texts ts cs) :
    Texts (memberTokens members ++ ts) (compactMembers members ++ cs) := by
  match members with
  | [] => exact h
  | [(name, value)] =>
      simp only [memberTokens, numbersSpelled_cons] at hj
      have hvalue := texts_mark .colon rfl (texts_compact value hj.2.2 hcs h)
      simpa [memberTokens, compactMembers] using
        Texts.token (spells_quoted name) nofun hvalue
  | (name, value) :: next :: rest =>
      simp only [memberTokens, numbersSpelled_cons, numbersSpelled_append] at hj
      have hrest := texts_compactMembers (next :: rest) hj.2.2.2.2 hcs h
      have hvalue := texts_mark .colon rfl
        (texts_compact value hj.2.2.1 (clear_cons.2 rfl) (texts_mark .comma rfl hrest))
      simpa [memberTokens, compactMembers] using
        Texts.token (spells_quoted name) nofun hvalue
termination_by sizeOf members

end

mutual

/-- A value on several lines, in front of any text that could not go on with a number. -/
theorem texts_prettyAt (depth : Nat) (j : Json) (hj : NumbersSpelled j.tokens)
    {ts : List JsonToken} {cs : List Char} (hcs : Clear continuesNumber cs) (h : Texts ts cs) :
    Texts (j.tokens ++ ts) (prettyAt depth j ++ cs) := by
  match j with
  | .null => exact .token .null nofun h
  | .bool true => exact .token .true nofun h
  | .bool false => exact .token .false nofun h
  | .number literal =>
      exact .token (.number (hj literal (by simp [tokens]))) (fun _ => hcs) h
  | .string text => exact .token (spells_quoted text) nofun h
  | .array [] => exact texts_mark .openArray rfl (texts_mark .closeArray rfl h)
  | .array (item :: rest) =>
      simp only [tokens, numbersSpelled_cons, numbersSpelled_append] at hj
      have hitems := texts_prettyItems (depth + 1) (item :: rest) hj.2.1 (clear_newLine depth _)
        (texts_newLine depth (texts_mark .closeArray rfl h))
      simpa [tokens, prettyAt] using texts_mark .openArray rfl hitems
  | .object [] => exact texts_mark .openObject rfl (texts_mark .closeObject rfl h)
  | .object (m :: rest) =>
      simp only [tokens, numbersSpelled_cons, numbersSpelled_append] at hj
      have hmembers := texts_prettyMembers (depth + 1) (m :: rest) hj.2.1 (clear_newLine depth _)
        (texts_newLine depth (texts_mark .closeObject rfl h))
      simpa [tokens, prettyAt] using texts_mark .openObject rfl hmembers
termination_by sizeOf j

theorem texts_prettyItems (depth : Nat) (items : List Json)
    (hj : NumbersSpelled (itemTokens items)) {ts : List JsonToken} {cs : List Char}
    (hcs : Clear continuesNumber cs) (h : Texts ts cs) :
    Texts (itemTokens items ++ ts) (prettyItems depth items ++ cs) := by
  match items with
  | [] => exact h
  | [item] =>
      simpa [prettyItems, itemTokens] using
        texts_newLine depth (texts_prettyAt depth item hj hcs h)
  | item :: next :: rest =>
      simp only [itemTokens, numbersSpelled_cons, numbersSpelled_append] at hj
      have hrest := texts_prettyItems depth (next :: rest) hj.2.2 hcs h
      simpa [itemTokens, prettyItems] using texts_newLine depth
        (texts_prettyAt depth item hj.1 (clear_cons.2 rfl) (texts_mark .comma rfl hrest))
termination_by sizeOf items

theorem texts_prettyMembers (depth : Nat) (members : List (Option String × Json))
    (hj : NumbersSpelled (memberTokens members)) {ts : List JsonToken} {cs : List Char}
    (hcs : Clear continuesNumber cs) (h : Texts ts cs) :
    Texts (memberTokens members ++ ts) (prettyMembers depth members ++ cs) := by
  match members with
  | [] => exact h
  | [(name, value)] =>
      simp only [memberTokens, numbersSpelled_cons] at hj
      have hvalue := texts_mark .colon rfl
        (.space (c := ' ') rfl (texts_prettyAt depth value hj.2.2 hcs h))
      simpa [memberTokens, prettyMembers] using
        texts_newLine depth (.token (spells_quoted name) nofun hvalue)
  | (name, value) :: next :: rest =>
      simp only [memberTokens, numbersSpelled_cons, numbersSpelled_append] at hj
      have hrest := texts_prettyMembers depth (next :: rest) hj.2.2.2.2 hcs h
      have hvalue := texts_mark .colon rfl (.space (c := ' ') rfl
        (texts_prettyAt depth value hj.2.2.1 (clear_cons.2 rfl) (texts_mark .comma rfl hrest)))
      simpa [memberTokens, prettyMembers] using
        texts_newLine depth (.token (spells_quoted name) nofun hvalue)
termination_by sizeOf members

end

/-- A value on one line is a text of it. -/
theorem isText_compact {j : Json} (hj : NumbersSpelled j.tokens) :
    j.IsText (String.ofList (compact j)) := by
  have htexts := texts_compact j hj (clear_nil _) .nil
  simpa [IsText] using htexts

/-- A value with one item or member per line is a text of it. -/
theorem isText_pretty {j : Json} (hj : NumbersSpelled j.tokens) : j.IsText j.pretty := by
  have htexts := texts_prettyAt 0 j hj (clear_nil _) .nil
  simpa [IsText, pretty] using htexts

end Writing

end Json

end CoreShell
