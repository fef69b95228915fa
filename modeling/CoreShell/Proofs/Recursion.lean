import CoreShell.Proofs.Endings
import Mathlib.Logic.Relation

/-!
# Recursion Stays Open

A unit with a floor gets a verdict once all of its call targets have one. So the
units on a call cycle wait on each other, and whoever leads the way would have to
have its verdict before it gets it. A unit that calls them waits as well, and so
does a unit that calls something nobody knows anything about.

The argument is about derivations. A set of such units is unfounded if every one
of them calls a member of the set or an unknown unit: the first of them to be
derived would need another one before it. No matter what else a member calls, no
matter where the rounds stop and what has happened before, nothing is derived for
it. What a run has looked at and derives nothing for is unsure.

## Main definitions

* `Session.Provisional`: A unit that waits on nothing but its calls.
* `Session.Unknown`: An external unit that the catalogue does not list.
* `Session.CallsOn`: One such unit calls another.
* `Session.Stuck`: A unit on a cycle, or one that calls an unknown unit.

## Theorems

* `not_derives_of_unfounded`: Nothing is derived for an unfounded set.
* `unfounded_of_stuck`: The units that lead to a stuck one are unfounded.
* `recursion_stays_unsure`: They are unsure after every run of every history.
-/

namespace CoreShell

open Relation (ReflTransGen TransGen)

namespace Session

/-- The local rule leaves the unit a floor and nothing to wait on but its calls. -/
def Provisional (s : Session) (id : UnitId) : Prop :=
  ∃ u floor, Subject s.catalog s.program id u ∧ s.axis.judge s.program u = .provisional floor

/-- An external unit that the catalogue does not list. -/
def Unknown (s : Session) (id : UnitId) : Prop :=
  ∃ u, s.program.units[id]? = some u ∧ u.submitted = false ∧
    s.catalog.lookup u.qualified = none

/-- A provisional unit calls a provisional unit. -/
structure CallsOn (s : Session) (a b : UnitId) : Prop where
  caller : s.Provisional a
  target : s.Provisional b
  calls : s.program.Calls a b

instance (s : Session) (id : UnitId) : Decidable (s.Provisional id) :=
  decidable_of_iff
    (∃ u ∈ s.program.units[id]?, u.submitted = true ∧ s.catalog.lookup u.qualified = none ∧
      ∃ floor ∈ [Grade.strict, Grade.domain], s.axis.judge s.program u = .provisional floor) <| by
    constructor
    · rintro ⟨u, hu, hsubmitted, hunlisted, floor, _, hjudge⟩
      exact ⟨u, floor, ⟨hu, hsubmitted, hunlisted⟩, hjudge⟩
    · rintro ⟨u, floor, hsubject, hjudge⟩
      -- There are only two floors to try.
      have hfloor : floor ∈ [Grade.strict, Grade.domain] := by
        simpa using judge_provisional hjudge
      exact ⟨u, hsubject.unit, hsubject.submitted, hsubject.unlisted, floor, hfloor, hjudge⟩

instance (s : Session) (a b : UnitId) : Decidable (s.CallsOn a b) :=
  decidable_of_iff (s.Provisional a ∧ s.Provisional b ∧ s.program.Calls a b)
    ⟨fun h => ⟨h.1, h.2.1, h.2.2⟩, fun h => ⟨h.caller, h.target, h.calls⟩⟩

/-- A unit whose calls lead back to it, or to something that nobody knows. -/
inductive Stuck (s : Session) (id : UnitId) : Prop
  /-- It calls itself in the end, and only provisional units are on the way. -/
  | cycle (cycle : TransGen s.CallsOn id id)
  /-- It calls a unit that nothing is known of. -/
  | unknown {b : UnitId} (caller : s.Provisional id) (calls : s.program.Calls id b)
      (unknown : s.Unknown b)

/-- Every unit of the set calls another one of it, or an unknown unit. -/
def Unfounded (s : Session) (S : UnitId → Prop) : Prop :=
  ∀ id, S id → s.Provisional id ∧ ∃ b, s.program.Calls id b ∧ (S b ∨ s.Unknown b)

theorem not_derives_of_unfounded {s : Session} {S : UnitId → Prop} (hS : s.Unfounded S)
    {id : UnitId} {g : Grade} (h : Derives s.axis s.catalog s.program id g) :
    ¬ S id ∧ ¬ s.Unknown id := by
  -- Unknown units go along in the induction, since a member may rest on one of them.
  refine h.induction (P := fun id _ => ¬ S id ∧ ¬ s.Unknown id) ?_ ?_
  · intro id u g hu hlist
    constructor
    · intro hmember
      rcases (hS id hmember).1 with ⟨v, _, hsubject, _⟩
      rw [Option.some.inj (hu.symm.trans hsubject.unit), hsubject.unlisted] at hlist
      exact absurd hlist (by simp)
    · rintro ⟨v, hv, _, hunlisted⟩
      rw [Option.some.inj (hu.symm.trans hv), hunlisted] at hlist
      exact absurd hlist (by simp)
  · intro id u g grade hsubject hknown hverdict
    constructor
    · intro hmember
      rcases hS id hmember with ⟨⟨v, floor, hv, hjudge⟩, b, ⟨w, hw, htarget⟩, hb⟩
      rw [Option.some.inj (hv.unit.symm.trans hsubject.unit)] at hjudge
      rw [Option.some.inj (hw.symm.trans hsubject.unit)] at htarget
      -- The call rule waits until every target is decided, whatever the others are.
      rw [unitVerdict_provisional_iff hjudge] at hverdict
      have hderived := hknown b (hverdict.decided b htarget)
      exact hb.elim hderived.1 hderived.2
    · rintro ⟨v, hv, hexternal, _⟩
      rw [Option.some.inj (hv.symm.trans hsubject.unit), hsubject.submitted] at hexternal
      exact absurd hexternal (by decide)

/-- The units that lead to a stuck one are unfounded. -/
theorem unfounded_of_stuck (s : Session) :
    s.Unfounded fun id => ∃ last, ReflTransGen s.CallsOn id last ∧ s.Stuck last := by
  rintro id ⟨last, hchain, hstuck⟩
  rcases hchain.cases_head with rfl | ⟨b, hcall, hrest⟩
  · cases hstuck with
    | cycle hcycle =>
        -- One call further along the cycle, its start is still to come.
        rcases TransGen.head'_iff.1 hcycle with ⟨b, hcall, hback⟩
        exact ⟨hcall.caller, b, hcall.calls, Or.inl ⟨id, hback, .cycle hcycle⟩⟩
    | unknown hcaller hcalls hunknown => exact ⟨hcaller, _, hcalls, Or.inr hunknown⟩
  · exact ⟨hcall.caller, b, hcall.calls, Or.inl ⟨last, hrest, hstuck⟩⟩

/-- What has been looked at is unsure if nothing is derived for it. -/
theorem gradeOf_eq_unsure {s : Session} (hsound : s.Sound) (hlooked : s.Looked) {id : UnitId}
    {u : CodeUnit} (hsubject : Subject s.catalog s.program id u)
    (hnone : ∀ g, ¬ Derives s.axis s.catalog s.program id g) : s.gradeOf id = .unsure := by
  have htemporary : (s.gradeOf id).isTemporary = true := by
    by_contra hc
    exact hnone _ (hsound id (Grade.isFinal_of_not_temporary hc))
  exact ((Grade.isTemporary_iff _).1 htemporary).resolve_left
    (hlooked id u hsubject.unit hsubject.submitted)

/-- Recursion is never resolved. After every run of every history, a unit is unsure
    if it lies on a call cycle of provisional units, or if a chain of calls through
    provisional units leads from it to such a cycle or to an external unit that the
    catalogue does not list, whatever else the units on the way call. -/
theorem recursion_stays_unsure (axis : Axis) (catalog : Catalog) (scope : List String)
    (ops : List Operation) :
    ∃ s t summary, (start axis catalog scope).performAll ops = .ok s ∧
      s.run = .ok (t, summary) ∧ t.axis = axis ∧ t.catalog = catalog ∧
      t.program = (({} : Program).declareAll (Operation.declarations ops)).freeze ∧
      ∀ id last, ReflTransGen t.CallsOn id last → t.Stuck last → t.gradeOf id = .unsure := by
  rcases history_ending axis catalog scope ops with ⟨s, r, summary, hperform, hrun, _, hr⟩
  rcases hr.task s.roundBound with ⟨haxis, hcatalog, hprogram⟩
  refine ⟨s, _, summary, hperform, hrun, haxis, hcatalog, hprogram, fun id last hchain hstuck => ?_⟩
  have hsound : (r.finish s.roundBound).Sound := by
    rw [r.finish_eq]
    exact hr.grounded.sound
  have hunfounded := (r.finish s.roundBound).unfounded_of_stuck
  rcases hunfounded id ⟨last, hchain, hstuck⟩ with ⟨⟨u, floor, hsubject, _⟩, _⟩
  refine gradeOf_eq_unsure hsound (history_looked hperform hrun) hsubject fun g hderived => ?_
  exact (not_derives_of_unfounded hunfounded hderived).1 ⟨last, hchain, hstuck⟩

/-- Two units that call each other, one of which also calls a unit that fails, and
    a unit that calls the first of them. The limit is on the first of two runs. -/
def loggedCycle : List Operation :=
  [.declare (.unit (((UnitDecl.method "a.A" "ping").calling "a.A" "a.A.pong()").calling "a.Log"
      "a.Log.write()")),
    .declare (.unit ((UnitDecl.method "a.A" "pong").calling "a.A" "a.A.ping()")),
    .declare (.unit (UnitDecl.method "a.Log" "write").asNative),
    .declare (.unit ((UnitDecl.method "a.Main" "main").calling "a.A" "a.A.ping()")),
    .limitRounds 1, .run]

/-- That one of them calls a failing unit does not break the cycle. -/
theorem recursion_stays_unsure_loggedCycle :
    ∃ s t summary, (start .purity {} []).performAll loggedCycle = .ok s ∧
      s.run = .ok (t, summary) ∧ t.gradeOf 2 = .not ∧
      (∃ u ∈ t.program.units[0]?, 2 ∈ t.program.exposedTargets u) ∧
      TransGen t.CallsOn 0 0 ∧ t.CallsOn 3 0 ∧ t.gradeOf 0 = .unsure ∧ t.gradeOf 3 = .unsure := by
  rcases recursion_stays_unsure .purity {} [] loggedCycle with
    ⟨s, t, summary, hperform, hrun, _, _, _, hunsure⟩
  have hcheck : ((start .purity {} []).performAll loggedCycle >>= fun s =>
      (fun x => (x.1.gradeOf 2,
        decide (∃ u ∈ x.1.program.units[0]?, 2 ∈ x.1.program.exposedTargets u),
        decide (x.1.CallsOn 0 1), decide (x.1.CallsOn 1 0), decide (x.1.CallsOn 3 0))) <$> s.run) =
      .ok (.not, true, true, true, true) := by decide +kernel
  rw [hperform] at hcheck
  change _ <$> s.run = _ at hcheck
  rw [hrun] at hcheck
  have hfound := Except.ok.inj hcheck
  simp only [Prod.mk.injEq, decide_eq_true_eq] at hfound
  rcases hfound with ⟨hnot, hexposed, hpong, hping, hmain⟩
  have hcycle : TransGen t.CallsOn 0 0 := .tail (.single hpong) hping
  exact ⟨s, t, summary, hperform, hrun, hnot, hexposed, hcycle, hmain,
    hunsure 0 0 .refl (.cycle hcycle), hunsure 3 0 (.single hmain) (.cycle hcycle)⟩

end Session

end CoreShell
