import CoreShell.Proofs.Reruns

/-!
# Computing Runs

A search for supertypes ends because there is less and less to see, and this is
an argument that a proof follows but a computation does not. A search that is
allowed a number of steps gives the same answer if it comes to its end, and it
can be computed. With it, so can the registry of a program and a run.

## Main definitions

* `Digraph.walkWithin`: A search that is allowed a number of steps.
* `Program.freezeWithin`: Freezing with such searches.
* `Session.runWithin`: A run of a program frozen in this way.

## Theorems

* `walk_of_within`, `freeze_of_within`: The answers are the same.
* `map_run_of_within`: What is computed of a run holds of the run.
-/

namespace CoreShell

/-- The nodes a depth-first search finds from a stack, if it needs no more than
    a number of steps. -/
def Digraph.walkWithin (g : Digraph) : Nat → List Nat → List Nat → Option (List Nat)
  | _, _, [] => some []
  | 0, _, _ :: _ => none
  | n + 1, seen, node :: rest =>
    if node ∈ seen then g.walkWithin n seen rest
    else (g.walkWithin n (node :: seen) ((g.successors node).reverse ++ rest)).map (node :: ·)

theorem Digraph.walk_of_within {g : Digraph} {n : Nat} {seen stack found : List Nat}
    (h : g.walkWithin n seen stack = some found) : g.walk seen stack = found := by
  -- The steps that are allowed decrease in both cases of the search.
  induction n generalizing seen stack found with
  | zero =>
      cases stack with
      | nil => rw [walk, Option.some.inj h]
      | cons node rest => exact absurd h (by simp [walkWithin])
  | succ n ih =>
      cases stack with
      | nil => rw [walk, Option.some.inj h]
      | cons node rest =>
          rw [walkWithin] at h
          rw [walk]
          by_cases hseen : node ∈ seen
          · rw [if_pos hseen] at h ⊢
            exact ih h
          · rw [if_neg hseen] at h ⊢
            rcases Option.map_eq_some_iff.1 h with ⟨later, hlater, rfl⟩
            rw [ih hlater]

namespace Program

/-- The registry entries of some units, if no search for supertypes needs more
    than a number of steps. -/
def entriesWithin (p : Program) (n : Nat) : List CodeUnit → Option (List (Signature × UnitId))
  | [] => some []
  | u :: rest => do
    let above ← p.hierarchy.walkWithin n [u.owner] (p.hierarchy.successors u.owner).reverse
    let later ← p.entriesWithin n rest
    let entries := above.map fun ancestor => ({ u.signature with owner := ancestor }, u.id)
    return (if p.isConcrete u then entries else []) ++ later

theorem entries_of_within {p : Program} {n : Nat} {us : List CodeUnit}
    {entries : List (Signature × UnitId)} (h : p.entriesWithin n us = some entries) :
    us.flatMap p.registryEntries = entries := by
  induction us generalizing entries with
  | nil => exact Option.some.inj h
  | cons u rest ih =>
      rcases Option.bind_eq_some_iff.1 h with ⟨above, habove, h⟩
      rcases Option.bind_eq_some_iff.1 h with ⟨later, hlater, h⟩
      rw [List.flatMap_cons, ih hlater, registryEntries, ancestors, Digraph.after,
        Digraph.walk_of_within habove]
      exact Option.some.inj h

/-- The frozen program, if no search for supertypes needs more than a number of
    steps. -/
def freezeWithin (p : Program) (n : Nat) : Option Program :=
  (p.entriesWithin n p.units.toList).map fun entries =>
    { p with
      index := { writers := p.buildIndex.writers, registry := { entries } }
      frozen := true }

theorem freeze_of_within {p q : Program} {n : Nat} (hfrozen : p.frozen = false)
    (h : p.freezeWithin n = some q) : p.freeze = q := by
  rcases Option.map_eq_some_iff.1 h with ⟨entries, hentries, rfl⟩
  rw [freeze, if_neg (by simp [hfrozen]), buildIndex, buildRegistry, entries_of_within hentries]

end Program

namespace Session

/-- A session that was started over is run as it is. -/
theorem run_startedOver {s : Session} (h : s.program.frozen = false) :
    s.run = s.startedOver.run := by
  have hfrozen : s.startedOver.program.frozen = true := s.program.freeze_frozen
  refine run_congr ?_
  rw [prepared_of_not_frozen h, prepared_of_frozen hfrozen]
  rfl

/-- A run of a changed program, if no search for supertypes needs more than a
    number of steps. -/
def runWithin (s : Session) (n : Nat) : Option (Except Error (Session × RunSummary)) :=
  (s.program.freezeWithin n).map fun q => ({ s with program := q } : Session).reset.run

/-- What is computed of a run holds of the run. -/
theorem map_run_of_within {α : Type} {s : Session} {n : Nat} (hfrozen : s.program.frozen = false)
    {f : Session × RunSummary → α} {x : Except Error α}
    (h : (s.runWithin n).map (f <$> ·) = some x) : f <$> s.run = x := by
  rcases Option.map_eq_some_iff.1 h with ⟨run, hrun, rfl⟩
  rcases Option.map_eq_some_iff.1 hrun with ⟨q, hq, rfl⟩
  rw [← Program.freeze_of_within hfrozen hq]
  exact congrArg (f <$> ·) (run_startedOver hfrozen)

end Session

end CoreShell
