import CoreShell.Error
import CoreShell.Text.Pieces
import Mathlib.Data.List.Induction
import Mathlib.Tactic.Common

/-!
# Errors in Context

What becomes of an error that is wrapped in one context after another. Its text only grows:
the contexts stand in front of it, the last one first, and the text of the error itself is
the end of it.

Its cause does not fare so well. The first context turns the error into a text, and all that
is known about a text is that somebody wrapped it. So whether the caller can do something
about the error is forgotten, and every wrapped error counts as one the caller can mend. That
is right for all causes but one: a contradiction in the analysis itself, once it is wrapped,
looks like a mistake of the caller. `contradiction_passes_for_mistake` is the shortest case.

## Main definitions

* `Error.inContexts`: An error wrapped in one context after another.

## Theorems

* `Text.join_cons`: The first piece and the others.
* `Error.foldl_during_error`: Notes on a failed result are contexts of its error.
* `Error.message_inContexts`: The text of a wrapped error.
* `Error.isCallerFixable_inContexts`: Wrapped errors pass for mistakes of the caller.
* `Error.contexts_precede_text`: What contexts do to the error of a result.
-/

namespace CoreShell

/-- The first piece comes before the others, with the separator behind it. -/
theorem Text.join_cons (separator first : String) {rest : List String} (h : rest ≠ []) :
    Text.join separator (first :: rest) = first ++ separator ++ Text.join separator rest := by
  rcases rest with _ | ⟨second, others⟩
  · exact absurd rfl h
  · unfold Text.join
    rw [← String.toList_inj]
    simp only [List.map_cons, List.intercalate_cons_cons, String.toList_append,
      String.toList_ofList, List.append_assoc]

namespace Error

/-- The error with one context after another around it. -/
def inContexts (e : Error) (contexts : List String) : Error :=
  contexts.foldl inContext e

section Contexts

variable (e : Error) (contexts : List String)

theorem inContexts_append_singleton (last : String) :
    e.inContexts (contexts ++ [last]) = (e.inContexts contexts).inContext last := by
  unfold inContexts
  rw [List.foldl_append, List.foldl_cons, List.foldl_nil]

/-- Notes on a failed result, one after another, are contexts of its error. -/
theorem foldl_during_error (α : Type) :
    contexts.foldl (fun result context => during context result) (.error e : Except Error α) =
      .error (e.inContexts contexts) := by
  induction contexts generalizing e with
  | nil => rfl
  | cons first rest ih => exact ih (e.inContext first)

/-- The contexts precede the text of an error, the last one first. -/
theorem message_inContexts :
    (e.inContexts contexts).message = Text.join ": " (contexts.reverse ++ [e.message]) := by
  -- The last context is the outermost, so the induction takes it off.
  induction contexts using List.reverseRecOn with
  | nil => simp [inContexts, Text.join]
  | append_singleton before last ih =>
      have hrest : before.reverse ++ [e.message] ≠ [] := by simp
      rw [inContexts_append_singleton, List.reverse_append, List.reverse_singleton,
        List.singleton_append, List.cons_append, Text.join_cons _ _ hrest, ← ih]
      rfl

/-- An error passes for a mistake of the caller if it is one, or if it is wrapped. -/
theorem isCallerFixable_inContexts :
    (e.inContexts contexts).isCallerFixable = (e.isCallerFixable || !contexts.isEmpty) := by
  rcases List.eq_nil_or_concat contexts with rfl | ⟨before, last, rfl⟩
  · simp [inContexts]
  · rw [List.concat_eq_append, inContexts_append_singleton]
    simp [inContext, isCallerFixable]

end Contexts

/-- Whatever contexts a failed result gets, one after another, it stays a failed result. The
    text of its error is the contexts, the last one first, and the text it had, with colons
    between them. Whether the caller can do something about it stays as it was exactly if
    the caller could do something about it before, or there is no context at all. -/
theorem contexts_precede_text (α : Type) (e : Error) (contexts : List String) :
    ∃ wrapped, contexts.foldl (fun result context => during context result)
        (.error e : Except Error α) = .error wrapped ∧
      wrapped.message = Text.join ": " (contexts.reverse ++ [e.message]) ∧
      (wrapped.isCallerFixable = e.isCallerFixable ↔
        contexts = [] ∨ ∀ text, e ≠ .invariant text) := by
  refine ⟨e.inContexts contexts, foldl_during_error e contexts α, message_inContexts e contexts, ?_⟩
  rw [isCallerFixable_inContexts]
  cases e <;> simp [isCallerFixable]

/-- A contradiction in the analysis is nothing the caller can mend, until somebody notes what
    was being done. -/
theorem contradiction_passes_for_mistake :
    ∃ wrapped, during "evaluating app.json" (.error (.invariant "no floor") : Except Error Unit) =
        .error wrapped ∧
      wrapped.message = "evaluating app.json: Internal invariant violated: no floor" ∧
      (Error.invariant "no floor").isCallerFixable = false ∧ wrapped.isCallerFixable = true :=
  ⟨_, rfl, by decide, rfl, rfl⟩

end Error

end CoreShell
