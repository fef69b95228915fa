import CoreShell.Rule.Call
import Mathlib.Tactic.Common

/-!
# One Look at All Calls

The calls of a unit are looked at in one go, site by site and target by target, with a
floor and a first failing target carried along and an early end at an undecided target.
What that comes to can be said by three questions that are asked one after another:
whether some target is undecided, which exposed target is the first to fail, and whether
some target keeps to its domain.

Both loops have the same shape. Looking at some targets and then at further ones is the
same as looking at all of them, and that carries the inner loop over the targets of a site
as well as the outer one over the sites.

## Main definitions

* `Program.exposedTargets`: The targets whose failures count.
* `CallScan.across`: A look at several targets, by the three questions.

## Theorems

* `CallScan.across_append`: Looking at some targets and then at further ones.
* `CallScan.visit_eq`, `CallScan.visitSite_eq`, `CallScan.visitSites_eq`: One target, one
  site, and all sites.
* `Program.evaluateCalls_eq`: The outcome for a unit by the three questions.
-/

namespace CoreShell

/-- The targets of the call sites whose declared owner the unit does not
    construct locally, in call order. -/
def Program.exposedTargets (p : Program) (u : CodeUnit) : List UnitId :=
  (u.calls.filter fun call => decide (call.owner ∉ p.constructedTypes u)).flatMap (·.targets)

theorem Grade.weakenTo_weakenTo (a b : Grade) : (a.weakenTo b).weakenTo b = a.weakenTo b := by
  unfold weakenTo
  by_cases h : a.rank ≤ b.rank
  · rw [if_pos h, if_pos h]
  · rw [if_neg h, if_pos (Nat.le_refl _)]

namespace CallScan

/-- What a look at targets comes to, some of which are exposed: nothing if one of them is
    undecided. Otherwise one of them may lower the floor, and an exposed one may be the
    first to fail. -/
def across (grades : Array Grade) (targets exposed : List UnitId) (scan : CallScan) :
    Option CallScan :=
  if targets.any fun t => (gradeAt grades t).isTemporary then none
  else
    some
      { floor :=
          if targets.any fun t => decide (gradeAt grades t = .domain) then
            scan.floor.weakenTo .domain
          else scan.floor
        absorbedBy := scan.absorbedBy.or
          (exposed.find? fun t => decide (gradeAt grades t = .not)) }

variable (grades : Array Grade)

theorem across_nil (scan : CallScan) : scan.across grades [] [] = some scan := by
  simp [across]

/-- Looking at some targets and then at further ones is looking at all of them. -/
theorem across_append (targets exposed targets' exposed' : List UnitId) (scan : CallScan) :
    (scan.across grades targets exposed).bind (across grades targets' exposed') =
      scan.across grades (targets ++ targets') (exposed ++ exposed') := by
  unfold across
  rw [List.any_append, List.any_append, List.find?_append]
  by_cases hundecided : (targets.any fun t => (gradeAt grades t).isTemporary) = true
  · simp only [hundecided, if_true, Bool.true_or, Option.bind_none]
  · rw [Bool.eq_false_iff.2 hundecided, Bool.false_or]
    -- The first failure is in the first part or else in the second, and a floor that was
    -- lowered by both is lowered once.
    by_cases hlow : (targets.any fun t => decide (gradeAt grades t = .domain)) = true
    · simp [hlow, Option.or_assoc, Grade.weakenTo_weakenTo]
    · simp [Bool.eq_false_iff.2 hlow, Option.or_assoc]

theorem visit_eq (exempt : Bool) (scan : CallScan) (t : UnitId) :
    scan.visit grades exempt t = scan.across grades [t] (if exempt then [] else [t]) := by
  unfold visit across
  cases hgrade : gradeAt grades t <;> cases exempt <;> simp [hgrade, Grade.isTemporary]

/-- A site is looked at target by target. -/
theorem visitSite_eq (exempt : Bool) (scan : CallScan) (call : CallSite) :
    scan.visitSite grades exempt call =
      scan.across grades call.targets (if exempt then [] else call.targets) := by
  unfold visitSite
  induction call.targets generalizing scan with
  | nil =>
      rw [ite_self, across_nil]
      rfl
  | cons t rest ih =>
      have hrest : List.foldlM (visit grades exempt) scan (t :: rest) =
          (scan.across grades [t] (if exempt then [] else [t])).bind
            (across grades rest (if exempt then [] else rest)) := by
        rw [List.foldlM_cons, visit_eq]
        exact congrArg _ (funext ih)
      rw [hrest, across_append]
      cases exempt with
      | true => rfl
      | false => rfl

/-- All sites are looked at one after another. -/
theorem visitSites_eq (constructed : List TypeId) (calls : List CallSite) (scan : CallScan) :
    calls.foldlM (fun scan call =>
        scan.visitSite grades (decide (call.owner ∈ constructed)) call) scan =
      scan.across grades (calls.flatMap (·.targets))
        ((calls.filter fun call => decide (call.owner ∉ constructed)).flatMap (·.targets)) := by
  induction calls generalizing scan with
  | nil => exact (across_nil grades scan).symm
  | cons call rest ih =>
      rw [List.foldlM_cons, visitSite_eq]
      -- The other sites are looked at with what the first one has left.
      refine (congrArg _ (funext ih)).trans ?_
      refine (across_append grades _ _ _ _ scan).trans ?_
      by_cases hexempt : call.owner ∈ constructed
      · simp [hexempt]
      · simp [hexempt]

end CallScan

namespace Program

section Outcome

variable (p : Program) {grades : Array Grade} (floor : Grade) {u : CodeUnit}

/-- The outcome for a unit is what the three questions come to over all of its targets. -/
theorem evaluateCalls_eq (grades : Array Grade) (u : CodeUnit) :
    p.evaluateCalls grades floor u =
      ((CallScan.across grades u.targets (p.exposedTargets u) { floor }).map
        CallScan.outcome).getD .deferred := by
  have hscan := CallScan.visitSites_eq grades (p.constructedTypes u) u.calls { floor }
  unfold evaluateCalls
  dsimp only
  rw [hscan, exposedTargets, CodeUnit.targets]
  cases CallScan.across grades _ _ _ with
  | none => rfl
  | some scan => rfl

/-- It waits if some target is undecided. -/
theorem evaluateCalls_of_undecided
    (h : (u.targets.any fun t => (gradeAt grades t).isTemporary) = true) :
    p.evaluateCalls grades floor u = .deferred := by
  rw [evaluateCalls_eq, CallScan.across, if_pos h]
  rfl

variable (h : ¬ (u.targets.any fun t => (gradeAt grades t).isTemporary) = true)
include h

/-- If all is decided, it fails with the first exposed target that fails. -/
theorem evaluateCalls_of_failing {via : UnitId}
    (hfails : (p.exposedTargets u).find? (fun t => decide (gradeAt grades t = .not)) = some via) :
    p.evaluateCalls grades floor u = .absorbed via := by
  rw [evaluateCalls_eq, CallScan.across, if_neg h, hfails]
  rfl

/-- If nothing fails either, a target that keeps to its domain lowers the floor. -/
theorem evaluateCalls_of_safe
    (hsafe : (p.exposedTargets u).find? (fun t => decide (gradeAt grades t = .not)) = none) :
    p.evaluateCalls grades floor u =
      .settled (if u.targets.any fun t => decide (gradeAt grades t = .domain) then
        floor.weakenTo .domain else floor) := by
  rw [evaluateCalls_eq, CallScan.across, if_neg h, hsafe]
  rfl

end Outcome

end Program

end CoreShell
