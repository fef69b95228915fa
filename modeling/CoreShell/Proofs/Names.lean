import CoreShell.Name
import Mathlib.Data.List.TakeWhile

/-!
# What a Name Tells

A unit that is only referred to belongs to the owner in its name. `OwnerIn` says which
one that is without taking the name apart: the name is a head and a rest, the rest
begins with the first parenthesis, and the head ends in the owner, a dot and a piece
without a dot.

## Main definitions

* `Name.OwnerIn`: The owner in a qualified name.

## Theorems

* `ownerIn_ownerOf`: Taking a name apart gives its owner.
-/

namespace CoreShell

namespace Name

/-- The first text is the owner in the second: what stands before the last dot in
    front of the first opening parenthesis, or all of the text in front of it if there
    is no dot. -/
def OwnerIn (owner qualified : String) : Prop :=
  ∃ head rest : List Char, qualified.toList = head ++ rest ∧ '(' ∉ head ∧
    (rest = [] ∨ ∃ more, rest = '(' :: more) ∧
    ((∃ piece, head = owner.toList ++ '.' :: piece ∧ '.' ∉ piece) ∨
      (head = owner.toList ∧ '.' ∉ head))

/-- A text up to the first occurrence of a character does not hold it. -/
theorem not_mem_takeWhile_ne (c : Char) (text : List Char) : c ∉ text.takeWhile (· ≠ c) := by
  intro h
  simpa using List.mem_takeWhile_imp h

/-- The rest of a text behind that is empty or begins with the character. -/
theorem dropWhile_ne_cases (c : Char) (text : List Char) :
    text.dropWhile (· ≠ c) = [] ∨ ∃ more, text.dropWhile (· ≠ c) = c :: more := by
  induction text with
  | nil => exact Or.inl rfl
  | cons a rest ih =>
      by_cases ha : a = c
      · exact Or.inr ⟨rest, by simp [ha]⟩
      · rw [List.dropWhile_cons_of_pos (by simpa using ha)]
        exact ih

/-- Taking a name apart gives its owner. -/
theorem ownerIn_ownerOf (qualified : String) : OwnerIn (ownerOf qualified) qualified := by
  refine ⟨qualified.toList.takeWhile (· ≠ '('), qualified.toList.dropWhile (· ≠ '('),
    List.takeWhile_append_dropWhile.symm, not_mem_takeWhile_ne '(' _,
    dropWhile_ne_cases '(' _, ?_⟩
  rw [ownerOf]
  generalize qualified.toList.takeWhile (· ≠ '(') = head
  by_cases hdot : '.' ∈ head
  · rw [if_pos hdot, String.toList_ofList]
    left
    -- Read backwards, the head is a piece without a dot, the dot and the owner.
    have hsplit := List.takeWhile_append_dropWhile (p := (· ≠ '.')) (l := head.reverse)
    rcases dropWhile_ne_cases '.' head.reverse with hnone | ⟨owner, howner⟩
    · rw [hnone, List.append_nil] at hsplit
      refine absurd (List.mem_reverse.2 hdot) ?_
      rw [← hsplit]
      exact not_mem_takeWhile_ne '.' _
    · refine ⟨(head.reverse.takeWhile (· ≠ '.')).reverse, ?_, ?_⟩
      · rw [howner, List.tail_cons]
        have hback := congrArg List.reverse hsplit
        rw [howner, List.reverse_reverse, List.reverse_append, List.reverse_cons,
          List.append_assoc] at hback
        exact hback.symm
      · rw [List.mem_reverse]
        exact not_mem_takeWhile_ne '.' _
  · rw [if_neg hdot, String.toList_ofList]
    exact Or.inr ⟨rfl, hdot⟩

end Name

end CoreShell
