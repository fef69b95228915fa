import CoreShell.Text.Blank
import CoreShell.Text.Pieces
import Mathlib.Data.List.DropRight

/-!
# Laws of Texts

What taking texts apart and putting them together have to do with each other. Splitting a
text leaves pieces without the separator, which is why joined pieces can be told apart, and
trimming a text takes off what would be taken for the space between pieces.

## Main definitions

* `InLayer`: An owner begins with one of the names of a layer.
* `Text.Trimmed`: A text without blanks at its ends.

## Theorems

* `startsWithAny_iff`: The test for it.
* `Text.trim_of_trimmed`, `Text.trimmed_trim`: Trimmed texts are those that trimming leaves.
* `Text.dropStart?_append`: The beginning of a text can be taken off.
* `Text.intercalate_comma_space`: Joining with a comma and a space.
* `Text.not_mem_of_mem_splitOn`: Pieces do not hold the separator.
* `Text.exists_tail_of_splitOn`: A text begins with its first piece.
* `Text.splitOn_intercalate_filter`: Joined pieces are found again.
* `Text.intercalate_prefix`: Fewer pieces make a beginning of the text.
-/

namespace CoreShell

/-- The owner begins with one of the names of a layer. -/
def InLayer (layer : List String) (owner : String) : Prop :=
  ∃ start ∈ layer, start.toList <+: owner.toList

instance (layer : List String) (owner : String) : Decidable (InLayer layer owner) :=
  inferInstanceAs (Decidable (∃ start ∈ layer, _))

theorem startsWithAny_iff (layer : List String) (owner : String) :
    Text.startsWithAny layer owner = true ↔ InLayer layer owner := by
  simp [Text.startsWithAny, Text.startsWith, InLayer]

namespace Text

/-- A text that neither begins nor ends with a blank. -/
def Trimmed (cs : List Char) : Prop :=
  (∀ c ∈ cs.head?, isBlank c = false) ∧ ∀ c ∈ cs.getLast?, isBlank c = false

instance (cs : List Char) : Decidable (Trimmed cs) :=
  decidable_of_iff (cs.head?.all (!isBlank ·) = true ∧ cs.getLast?.all (!isBlank ·) = true)
    (by simp [Trimmed, Option.all_eq_true])

theorem dropWhile_isBlank_eq_self {cs : List Char} (h : ∀ c ∈ cs.head?, isBlank c = false) :
    cs.dropWhile isBlank = cs := by
  cases cs with
  | nil => rfl
  | cons c rest => exact List.dropWhile_cons_of_neg (by simp [h c rfl])

theorem not_isBlank_of_mem_head?_dropWhile {cs : List Char} {c : Char}
    (h : c ∈ (cs.dropWhile isBlank).head?) : isBlank c = false := by
  have hhead := List.head?_dropWhile_not isBlank cs
  rw [Option.mem_def.1 h] at hhead
  exact hhead

theorem trim_of_trimmed {cs : List Char} (h : Trimmed cs) : trim cs = cs := by
  rw [trim, dropWhile_isBlank_eq_self h.1,
    dropWhile_isBlank_eq_self (by simpa only [List.head?_reverse] using h.2), List.reverse_reverse]

theorem trim_prefix_dropWhile (cs : List Char) : trim cs <+: cs.dropWhile isBlank :=
  List.rdropWhile_prefix isBlank _

theorem trimmed_trim (cs : List Char) : Trimmed (trim cs) := by
  constructor
  · intro c hc
    -- What is taken off at the end leaves the beginning as it is.
    rcases trim_prefix_dropWhile cs with ⟨rest, hrest⟩
    have hhead : c ∈ (cs.dropWhile isBlank).head? := by
      rw [← hrest, List.head?_append, Option.mem_def.1 hc]
      rfl
    exact not_isBlank_of_mem_head?_dropWhile hhead
  · intro c hc
    rw [trim, List.getLast?_reverse] at hc
    exact not_isBlank_of_mem_head?_dropWhile hc

theorem mem_of_mem_trim {cs : List Char} {c : Char} (h : c ∈ trim cs) : c ∈ cs :=
  (List.dropWhile_sublist isBlank).subset ((trim_prefix_dropWhile cs).subset h)

/-- A space in front is taken off. -/
theorem trim_space_cons (cs : List Char) : trim (' ' :: cs) = trim cs := by
  rw [trim, List.dropWhile_cons_of_pos (by decide), trim]

theorem dropStart?_append (start text : List Char) :
    dropStart? start (start ++ text) = some text := by
  induction start with
  | nil => rfl
  | cons c rest ih => rw [List.cons_append, dropStart?, if_pos rfl, ih]

/-- Spaces between pieces can be counted as their beginnings. -/
theorem intercalate_comma_space (piece : List Char) (rest : List (List Char)) :
    [',', ' '].intercalate (piece :: rest) = [','].intercalate (piece :: rest.map (' ' :: ·)) := by
  induction rest generalizing piece with
  | nil => rfl
  | cons next rest ih =>
      rw [List.intercalate_cons_cons, ih, List.map_cons, List.intercalate_cons_cons]
      cases rest <;> simp [List.intercalate_cons_cons]

/-- No piece holds what the text was split at. -/
theorem not_mem_of_mem_splitOn {c : Char} {text piece : List Char}
    (h : piece ∈ text.splitOn c) : c ∉ piece := by
  induction text generalizing piece with
  | nil =>
      rw [List.splitOn_nil, List.mem_singleton] at h
      rw [h]
      exact List.not_mem_nil
  | cons x rest ih =>
      rw [List.splitOn_cons_eq_if_modifyHead] at h
      by_cases hx : x = c
      · rw [if_pos (by simpa using hx), List.mem_cons] at h
        rcases h with rfl | h
        · exact List.not_mem_nil
        · exact ih h
      · rw [if_neg (by simpa using hx)] at h
        -- The character goes to the first piece, the others stay.
        rcases hpieces : rest.splitOn c with _ | ⟨first, others⟩
        · exact absurd hpieces (List.splitOn_ne_nil c rest)
        rw [hpieces] at h ih
        rcases List.mem_cons.1 h with rfl | h
        · rw [List.mem_cons, not_or]
          exact ⟨fun hc => hx hc.symm, ih List.mem_cons_self⟩
        · exact ih (List.mem_cons_of_mem first h)

/-- A text begins with its first piece, and what follows begins with the separator. -/
theorem exists_tail_of_splitOn {c : Char} {text first : List Char} {others : List (List Char)}
    (h : text.splitOn c = first :: others) :
    ∃ tail, text = first ++ tail ∧ (tail = [] ∨ ∃ more, tail = c :: more) := by
  have htext : [c].intercalate (text.splitOn c) = text := List.intercalate_splitOn c
  rw [h] at htext
  rcases others with _ | ⟨next, others⟩
  · exact ⟨[], by rw [← htext, List.intercalate_singleton, List.append_nil], Or.inl rfl⟩
  · rw [List.intercalate_cons_cons, List.append_assoc] at htext
    exact ⟨_, htext.symm, Or.inr ⟨_, rfl⟩⟩

/-- Joined pieces are found again, and no pieces count as an empty one. -/
theorem splitOn_intercalate_filter {c : Char} {pieces : List (List Char)}
    (h : ∀ piece ∈ pieces, c ∉ piece) {keep : List Char → Bool} (hempty : keep [] = false) :
    (([c].intercalate pieces).splitOn c).filter keep = pieces.filter keep := by
  by_cases hnone : pieces = []
  · rw [hnone]
    simp [hempty]
  · rw [List.splitOn_intercalate c h hnone]

/-- Fewer pieces make a beginning of the text. -/
theorem intercalate_prefix (separator : List Char) {kept pieces : List (List Char)}
    (h : kept <+: pieces) : separator.intercalate kept <+: separator.intercalate pieces := by
  induction kept generalizing pieces with
  | nil => exact List.nil_prefix
  | cons first rest ih =>
      rcases h with ⟨others, rfl⟩
      rcases rest with _ | ⟨second, rest⟩
      · rw [List.intercalate_singleton]
        rcases others with _ | ⟨next, others⟩
        · exact ⟨[], by rw [List.append_nil, List.append_nil, List.intercalate_singleton]⟩
        · rw [List.cons_append, List.nil_append, List.intercalate_cons_cons, List.append_assoc]
          exact List.prefix_append _ _
      · rw [List.intercalate_cons_cons, List.cons_append, List.cons_append,
          List.intercalate_cons_cons]
        exact (List.prefix_append_right_inj _).2 (ih ⟨others, rfl⟩)

end Text

end CoreShell
