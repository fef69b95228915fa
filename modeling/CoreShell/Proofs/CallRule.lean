import CoreShell.Proofs.Verdict
import Mathlib.Data.List.Basic

/-!
# The Rule for Calls

What the calls of a unit do to it, said without a way to find it out. There are three
questions about the targets of a unit: whether one of them is undecided, whether one fails
where the unit is not spared, and whether one keeps to its domain. They are asked in this
order, and each of them is about which targets are called at sites of which owners. So the
order of sites and targets cannot matter for the answer, and neither can repetitions. It
matters for one thing only, which is the failing target that is named.

The list of undecided targets is made in another way, with a question of its own. It is
empty exactly if the first of the three has the answer no.

## Main definitions

* `CallsTo`: A target is called at a site with a declared owner.
* `Program.Spares`: A unit is spared at sites with a declared owner.
* `CodeUnit.Waits`, `Program.Fails`, `CodeUnit.Lowered`: The three questions.
* `Program.FirstFailure`: The failing target that is named.
* `Program.failureAt`: The search for it at one site.
* `CallRule`: The rule.
* `Rearranged`: The same calls, with sites and targets in another order or repeated.
* `CallOutcome.SameKind`: Outcomes that differ in the named target at most.

## Theorems

* `find?_exposed_eq_some_iff`: What is found first is the first failure.
* `evaluateCalls_eq_iff`: The outcome is the one of the rule.
* `Rearranged.callsTo_iff`: Rearranging adds and removes no call.
* `evaluateCalls_sameKind`: Rearranging keeps the kind of outcome and the grade.
* `pairwise_idxOf_eraseDups`: What is kept once stands in the order of first mention.
* `calls_follow_rule`: Outcomes and undecided targets, by the rule.
-/

namespace CoreShell

/-- Some site with the declared owner may call the target. -/
def CallsTo (calls : List CallSite) (owner : TypeId) (t : UnitId) : Prop :=
  ∃ site ∈ calls, site.owner = owner ∧ t ∈ site.targets

/-- The unit constructs an object of the type, and calls with this declared owner may go
    to it. -/
def Program.Spares (p : Program) (u : CodeUnit) (owner : TypeId) : Prop :=
  ∃ c ∈ u.constructs, ∃ v, p.units[c]? = some v ∧ v.owner = owner

/-- A grade that is not decided yet. -/
def Grade.Undecided (g : Grade) : Prop :=
  g = .unchecked ∨ g = .unsure

/-- Some target is undecided. -/
def CodeUnit.Waits (u : CodeUnit) (grades : Array Grade) : Prop :=
  ∃ owner t, CallsTo u.calls owner t ∧ (gradeAt grades t).Undecided

/-- Some target fails where the unit is not spared. -/
def Program.Fails (p : Program) (grades : Array Grade) (u : CodeUnit) : Prop :=
  ∃ owner t, CallsTo u.calls owner t ∧ ¬ p.Spares u owner ∧ gradeAt grades t = .not

/-- Some target keeps to its domain, spared or not. -/
def CodeUnit.Lowered (u : CodeUnit) (grades : Array Grade) : Prop :=
  ∃ owner t, CallsTo u.calls owner t ∧ gradeAt grades t = .domain

/-- The first target in call order that fails where the unit is not spared: no such target
    is at an earlier site, and none comes earlier at its own. -/
def Program.FirstFailure (p : Program) (grades : Array Grade) (u : CodeUnit) (via : UnitId) :
    Prop :=
  ∃ before site after earlier later, u.calls = before ++ site :: after ∧
    site.targets = earlier ++ via :: later ∧ ¬ p.Spares u site.owner ∧
    gradeAt grades via = .not ∧ (∀ t ∈ earlier, gradeAt grades t ≠ .not) ∧
    ∀ s ∈ before, ¬ p.Spares u s.owner → ∀ t ∈ s.targets, gradeAt grades t ≠ .not

/-- What the calls of a unit do to it over a floor. -/
inductive CallRule (p : Program) (grades : Array Grade) (floor : Grade) (u : CodeUnit) :
    CallOutcome → Prop
  | deferred (waits : u.Waits grades) : CallRule p grades floor u .deferred
  | absorbed {via : UnitId} (decided : ¬ u.Waits grades) (first : p.FirstFailure grades u via) :
      CallRule p grades floor u (.absorbed via)
  | domain (decided : ¬ u.Waits grades) (safe : ¬ p.Fails grades u)
      (low : floor = .domain ∨ u.Lowered grades) : CallRule p grades floor u (.settled .domain)
  | strict (decided : ¬ u.Waits grades) (safe : ¬ p.Fails grades u)
      (high : ¬ (floor = .domain ∨ u.Lowered grades)) : CallRule p grades floor u (.settled .strict)

/-- Outcomes of one kind, with the same grade if they have one. -/
inductive CallOutcome.SameKind : CallOutcome → CallOutcome → Prop
  | deferred : SameKind .deferred .deferred
  | absorbed (via via' : UnitId) : SameKind (.absorbed via) (.absorbed via')
  | settled (g : Grade) : SameKind (.settled g) (.settled g)

/-- Call sites in another order or once more, with targets in another order or once
    more. -/
inductive Rearranged : List CallSite → List CallSite → Prop
  | sites {calls calls' : List CallSite} (order : calls.Perm calls') : Rearranged calls calls'
  | againSite {site : CallSite} {calls : List CallSite} (made : site ∈ calls) :
      Rearranged calls (site :: calls)
  | targets {owner : TypeId} {ts ts' : List UnitId} (rest : List CallSite) (order : ts.Perm ts') :
      Rearranged (⟨owner, ts⟩ :: rest) (⟨owner, ts'⟩ :: rest)
  | againTarget {owner : TypeId} {t : UnitId} {ts : List UnitId} (rest : List CallSite)
      (named : t ∈ ts) : Rearranged (⟨owner, ts⟩ :: rest) (⟨owner, t :: ts⟩ :: rest)
  | symm {calls calls' : List CallSite} (h : Rearranged calls calls') : Rearranged calls' calls
  | trans {calls calls' calls'' : List CallSite} (h : Rearranged calls calls')
      (h' : Rearranged calls' calls'') : Rearranged calls calls''

/-- The first failing target at a site, unless the unit is spared there. -/
def Program.failureAt (p : Program) (grades : Array Grade) (u : CodeUnit) (site : CallSite) :
    Option UnitId :=
  if site.owner ∈ p.constructedTypes u then none
  else site.targets.find? fun t => decide (gradeAt grades t = .not)

section Questions

variable {p : Program} {grades : Array Grade} {u : CodeUnit}

theorem Grade.undecided_iff (g : Grade) : g.Undecided ↔ g.isTemporary = true := by
  rw [Undecided, isTemporary_iff]

theorem CodeUnit.mem_targets_iff {t : UnitId} :
    t ∈ u.targets ↔ ∃ owner, CallsTo u.calls owner t := by
  unfold targets CallsTo
  rw [List.mem_flatMap]
  constructor
  · rintro ⟨site, hsite, ht⟩
    exact ⟨site.owner, site, hsite, rfl, ht⟩
  · rintro ⟨_, site, hsite, _, ht⟩
    exact ⟨site, hsite, ht⟩

theorem mem_constructedTypes_iff {owner : TypeId} :
    owner ∈ p.constructedTypes u ↔ p.Spares u owner := by
  unfold Program.constructedTypes Program.Spares
  simp only [List.mem_filterMap, Option.map_eq_some_iff]

theorem any_temporary_iff :
    (u.targets.any fun t => (gradeAt grades t).isTemporary) = true ↔ u.Waits grades := by
  rw [List.any_eq_true]
  constructor
  · rintro ⟨t, ht, htemporary⟩
    rcases CodeUnit.mem_targets_iff.1 ht with ⟨owner, hcall⟩
    exact ⟨owner, t, hcall, (Grade.undecided_iff _).2 htemporary⟩
  · rintro ⟨owner, t, hcall, hundecided⟩
    exact ⟨t, CodeUnit.mem_targets_iff.2 ⟨owner, hcall⟩, (Grade.undecided_iff _).1 hundecided⟩

theorem any_domain_iff :
    (u.targets.any fun t => decide (gradeAt grades t = .domain)) = true ↔ u.Lowered grades := by
  rw [List.any_eq_true]
  constructor
  · rintro ⟨t, ht, hdomain⟩
    rcases CodeUnit.mem_targets_iff.1 ht with ⟨owner, hcall⟩
    exact ⟨owner, t, hcall, of_decide_eq_true hdomain⟩
  · rintro ⟨owner, t, hcall, hdomain⟩
    exact ⟨t, CodeUnit.mem_targets_iff.2 ⟨owner, hcall⟩, decide_eq_true hdomain⟩

theorem failureAt_eq_none_iff {site : CallSite} : p.failureAt grades u site = none ↔
    (¬ p.Spares u site.owner → ∀ t ∈ site.targets, gradeAt grades t ≠ .not) := by
  unfold Program.failureAt
  by_cases hspared : p.Spares u site.owner
  · rw [if_pos (mem_constructedTypes_iff.2 hspared)]
    exact iff_of_true rfl fun hexposed => absurd hspared hexposed
  · rw [if_neg fun hc => hspared (mem_constructedTypes_iff.1 hc), List.find?_eq_none]
    simp [hspared]

theorem failureAt_eq_some_iff {site : CallSite} {via : UnitId} :
    p.failureAt grades u site = some via ↔ ¬ p.Spares u site.owner ∧ gradeAt grades via = .not ∧
      ∃ earlier later, site.targets = earlier ++ via :: later ∧
        ∀ t ∈ earlier, gradeAt grades t ≠ .not := by
  unfold Program.failureAt
  by_cases hspared : p.Spares u site.owner
  · rw [if_pos (mem_constructedTypes_iff.2 hspared)]
    exact iff_of_false (by simp only [reduceCtorEq, not_false_eq_true]) fun h => h.1 hspared
  · rw [if_neg fun hc => hspared (mem_constructedTypes_iff.1 hc), List.find?_eq_some_iff_append]
    simp [hspared]

/-- The search for a failing target goes through the sites one after another. -/
theorem find?_exposed_eq_findSome? :
    (p.exposedTargets u).find? (fun t => decide (gradeAt grades t = .not)) =
      u.calls.findSome? (p.failureAt grades u) := by
  unfold Program.exposedTargets
  rw [List.find?_flatMap]
  induction u.calls with
  | nil => rfl
  | cons site rest ih =>
      rw [List.findSome?_cons, Program.failureAt]
      by_cases hspared : site.owner ∈ p.constructedTypes u
      · rw [List.filter_cons_of_neg (by simpa using hspared), ih, if_pos hspared]
      · rw [List.filter_cons_of_pos (by simpa using hspared), List.findSome?_cons, ih,
          if_neg hspared]

theorem find?_exposed_eq_none_iff :
    (p.exposedTargets u).find? (fun t => decide (gradeAt grades t = .not)) = none ↔
      ¬ p.Fails grades u := by
  rw [find?_exposed_eq_findSome?, List.findSome?_eq_none_iff]
  simp only [failureAt_eq_none_iff]
  constructor
  · rintro hsafe ⟨_, t, ⟨site, hsite, rfl, ht⟩, hexposed, hfails⟩
    exact hsafe site hsite hexposed t ht hfails
  · intro hsafe site hsite hexposed t ht hfails
    exact hsafe ⟨site.owner, t, ⟨site, hsite, rfl, ht⟩, hexposed, hfails⟩

/-- What the search finds is the first failure. -/
theorem find?_exposed_eq_some_iff {via : UnitId} :
    (p.exposedTargets u).find? (fun t => decide (gradeAt grades t = .not)) = some via ↔
      p.FirstFailure grades u via := by
  rw [find?_exposed_eq_findSome?, List.findSome?_eq_some_iff]
  simp only [failureAt_eq_none_iff, failureAt_eq_some_iff]
  constructor
  · rintro ⟨before, site, after, hcalls, ⟨hexposed, hfails, earlier, later, htargets, hearlier⟩,
      hbefore⟩
    exact ⟨before, site, after, earlier, later, hcalls, htargets, hexposed, hfails, hearlier,
      hbefore⟩
  · rintro ⟨before, site, after, earlier, later, hcalls, htargets, hexposed, hfails, hearlier,
      hbefore⟩
    exact ⟨before, site, after, hcalls, ⟨hexposed, hfails, earlier, later, htargets, hearlier⟩,
      hbefore⟩

/-- A unit fails exactly if there is a first failure. -/
theorem Program.fails_iff : p.Fails grades u ↔ ∃ via, p.FirstFailure grades u via := by
  rw [← not_iff_not, ← find?_exposed_eq_none_iff, Option.eq_none_iff_forall_ne_some, not_exists]
  simp only [ne_eq, find?_exposed_eq_some_iff]

end Questions

section Outcomes

variable {p : Program} {grades : Array Grade} {floor : Grade} {u : CodeUnit}

/-- The grade that is left when all is decided and nothing fails. -/
theorem floor_left_eq (hfloor : floor = .strict ∨ floor = .domain) (lowered : Prop)
    [Decidable lowered] :
    (if lowered then floor.weakenTo .domain else floor) =
      if floor = .domain ∨ lowered then .domain else .strict := by
  by_cases h : lowered
  · simp only [h, if_true, or_true]
    rcases hfloor with rfl | rfl <;> rfl
  · rcases hfloor with rfl | rfl <;> simp [h]

/-- The outcome is one that the rule allows. -/
theorem callRule_evaluateCalls (hfloor : floor = .strict ∨ floor = .domain) :
    CallRule p grades floor u (p.evaluateCalls grades floor u) := by
  by_cases hwaits : u.Waits grades
  · rw [p.evaluateCalls_of_undecided floor (any_temporary_iff.2 hwaits)]
    exact .deferred hwaits
  have hdecided := mt any_temporary_iff.1 hwaits
  rcases hfind : (p.exposedTargets u).find? fun t => decide (gradeAt grades t = .not) with _ | via
  · have hsafe := find?_exposed_eq_none_iff.1 hfind
    rw [p.evaluateCalls_of_safe floor hdecided hfind, floor_left_eq hfloor]
    by_cases hlow : floor = .domain ∨ u.Lowered grades
    · rw [if_pos (hlow.imp_right any_domain_iff.2)]
      exact .domain hwaits hsafe hlow
    · rw [if_neg fun hc => hlow (hc.imp_right any_domain_iff.1)]
      exact .strict hwaits hsafe hlow
  · rw [p.evaluateCalls_of_failing floor hdecided hfind]
    exact .absorbed hwaits (find?_exposed_eq_some_iff.1 hfind)

/-- The kind of outcome and the grade are settled by the three questions. -/
theorem CallRule.sameKind {u' : CodeUnit} {o o' : CallOutcome}
    (hwaits : u'.Waits grades ↔ u.Waits grades) (hfails : p.Fails grades u' ↔ p.Fails grades u)
    (hlowered : u'.Lowered grades ↔ u.Lowered grades) (h : CallRule p grades floor u o)
    (h' : CallRule p grades floor u' o') : o.SameKind o' := by
  cases h with
  | deferred hwait =>
      cases h' with
      | deferred => exact .deferred
      | absorbed hdecided | domain hdecided | strict hdecided =>
          exact absurd (hwaits.2 hwait) hdecided
  | absorbed hdecided hfirst =>
      have hfail := Program.fails_iff.2 ⟨_, hfirst⟩
      cases h' with
      | deferred hwait => exact absurd (hwaits.1 hwait) hdecided
      | absorbed => exact .absorbed _ _
      | domain _ hsafe | strict _ hsafe => exact absurd (hfails.2 hfail) hsafe
  | domain hdecided hsafe hlow =>
      cases h' with
      | deferred hwait => exact absurd (hwaits.1 hwait) hdecided
      | absorbed _ hfirst => exact absurd (hfails.1 (Program.fails_iff.2 ⟨_, hfirst⟩)) hsafe
      | domain => exact .settled _
      | strict _ _ hhigh => exact absurd (hlow.imp_right hlowered.2) hhigh
  | strict hdecided hsafe hhigh =>
      cases h' with
      | deferred hwait => exact absurd (hwaits.1 hwait) hdecided
      | absorbed _ hfirst => exact absurd (hfails.1 (Program.fails_iff.2 ⟨_, hfirst⟩)) hsafe
      | domain _ _ hlow => exact absurd (hlow.imp_right hlowered.1) hhigh
      | strict => exact .settled _

theorem CallRule.waits (h : CallRule p grades floor u .deferred) : u.Waits grades := by
  cases h with
  | deferred hwait => exact hwait

/-- The rule allows one outcome only. -/
theorem CallRule.unique {o o' : CallOutcome} (h : CallRule p grades floor u o)
    (h' : CallRule p grades floor u o') : o = o' := by
  cases h.sameKind Iff.rfl Iff.rfl Iff.rfl h' with
  | deferred | settled => rfl
  | absorbed via via' =>
      -- Both targets are the one that the search finds.
      cases h with
      | absorbed _ hfirst =>
          cases h' with
          | absorbed _ hfirst' =>
              have hvia := find?_exposed_eq_some_iff.2 hfirst
              rw [find?_exposed_eq_some_iff.2 hfirst'] at hvia
              rw [Option.some.inj hvia]

/-- The outcome is the one of the rule. -/
theorem evaluateCalls_eq_iff (hfloor : floor = .strict ∨ floor = .domain) (o : CallOutcome) :
    p.evaluateCalls grades floor u = o ↔ CallRule p grades floor u o := by
  constructor
  · rintro rfl
    exact callRule_evaluateCalls hfloor
  · exact (callRule_evaluateCalls hfloor).unique

/-- Rearranging adds and removes no call. -/
theorem Rearranged.callsTo_iff {calls calls' : List CallSite} (h : Rearranged calls calls')
    (owner : TypeId) (t : UnitId) : CallsTo calls' owner t ↔ CallsTo calls owner t := by
  induction h with
  | sites order =>
      unfold CallsTo
      simp only [order.mem_iff]
  | againSite made =>
      unfold CallsTo
      rw [List.exists_mem_cons_iff, or_iff_right_iff_imp]
      exact fun hfirst => ⟨_, made, hfirst⟩
  | targets rest order =>
      unfold CallsTo
      simp only [List.exists_mem_cons_iff, order.mem_iff]
  | againTarget rest named =>
      unfold CallsTo
      rw [List.exists_mem_cons_iff, List.exists_mem_cons_iff]
      refine or_congr_left (and_congr_right fun _ => ?_)
      rw [List.mem_cons, or_iff_right_iff_imp]
      rintro rfl
      exact named
  | symm _ ih => exact ih.symm
  | trans _ _ ih ih' => exact ih'.trans ih

/-- Rearranging the calls of a unit keeps the kind of outcome and the grade. -/
theorem evaluateCalls_sameKind (hfloor : floor = .strict ∨ floor = .domain)
    {calls : List CallSite} (h : Rearranged u.calls calls) :
    (p.evaluateCalls grades floor u).SameKind (p.evaluateCalls grades floor { u with calls }) := by
  -- None of the three questions is about the order of calls.
  have hwaits : ({ u with calls } : CodeUnit).Waits grades ↔ u.Waits grades := by
    simp only [CodeUnit.Waits, h.callsTo_iff]
  have hfails : p.Fails grades { u with calls } ↔ p.Fails grades u := by
    simp only [Program.Fails, h.callsTo_iff]
    rfl
  have hlowered : ({ u with calls } : CodeUnit).Lowered grades ↔ u.Lowered grades := by
    simp only [CodeUnit.Lowered, h.callsTo_iff]
  exact (callRule_evaluateCalls hfloor).sameKind hwaits hfails hlowered
    (callRule_evaluateCalls hfloor)

end Outcomes

section Undecided

/-- What is kept once, of the members that pass a test, stands in the order of first
    mention. -/
theorem pairwise_idxOf_eraseDups {α : Type} [DecidableEq α] (test : α → Bool) (l : List α) :
    (l.filter test).eraseDups.Pairwise fun a b => l.idxOf a < l.idxOf b := by
  induction l generalizing test with
  | nil => exact List.Pairwise.nil
  | cons x rest ih =>
      -- Members other than the first one are all further on by one.
      have hshift : ∀ {kept : List α}, x ∉ kept →
          kept.Pairwise (fun a b => rest.idxOf a < rest.idxOf b) →
          kept.Pairwise fun a b => (x :: rest).idxOf a < (x :: rest).idxOf b := by
        intro kept hx hkept
        refine hkept.imp_of_mem fun ha hb hlt => ?_
        rw [List.idxOf_cons_ne rest (ne_of_mem_of_not_mem ha hx).symm,
          List.idxOf_cons_ne rest (ne_of_mem_of_not_mem hb hx).symm]
        omega
      by_cases htest : test x = true
      · rw [List.filter_cons_of_pos htest, List.eraseDups_cons, List.filter_filter]
        have hx : x ∉ (rest.filter fun a => (!a == x) && test a).eraseDups := by
          simp [List.mem_eraseDups]
        refine List.pairwise_cons.2 ⟨fun a ha => ?_, hshift hx (ih _)⟩
        rw [List.idxOf_cons_self, List.idxOf_cons_ne rest (ne_of_mem_of_not_mem ha hx).symm]
        exact Nat.succ_pos _
      · rw [List.filter_cons_of_neg htest]
        refine hshift (fun hx => ?_) (ih test)
        rw [List.mem_eraseDups, List.mem_filter] at hx
        exact htest hx.2

variable {grades : Array Grade} {u : CodeUnit}

theorem mem_undecidedCallees {t : UnitId} : t ∈ u.undecidedCallees grades ↔
    (∃ owner, CallsTo u.calls owner t) ∧ (gradeAt grades t).Undecided := by
  unfold CodeUnit.undecidedCallees
  rw [List.mem_eraseDups, List.mem_filter, CodeUnit.mem_targets_iff, Grade.undecided_iff]

/-- A unit waits exactly if it has undecided targets to name. -/
theorem waits_iff_undecidedCallees : u.Waits grades ↔ u.undecidedCallees grades ≠ [] := by
  constructor
  · rintro ⟨owner, t, hcall, hundecided⟩
    exact List.ne_nil_of_mem (mem_undecidedCallees.2 ⟨⟨owner, hcall⟩, hundecided⟩)
  · intro hne
    rcases List.exists_mem_of_ne_nil _ hne with ⟨t, ht⟩
    rcases mem_undecidedCallees.1 ht with ⟨⟨owner, hcall⟩, hundecided⟩
    exact ⟨owner, t, hcall, hundecided⟩

end Undecided

/-- Over a strict or domain floor, the calls of a unit have the outcome of the rule and no
    other. The unit is deferred exactly if some target is undecided, wherever it stands, and
    then it has undecided targets to name: these are listed once each, in the order of first
    mention. Rearranging or repeating call sites and targets keeps the kind of outcome and
    the grade. -/
theorem calls_follow_rule (p : Program) (grades : Array Grade) (floor : Grade) (u : CodeUnit)
    (hfloor : floor = .strict ∨ floor = .domain) :
    (∀ outcome, p.evaluateCalls grades floor u = outcome ↔ CallRule p grades floor u outcome) ∧
    (p.evaluateCalls grades floor u = .deferred ↔ u.Waits grades) ∧
    (u.Waits grades ↔ u.undecidedCallees grades ≠ []) ∧
    (∀ t, t ∈ u.undecidedCallees grades ↔
      (∃ owner, CallsTo u.calls owner t) ∧ (gradeAt grades t).Undecided) ∧
    ((u.undecidedCallees grades).Pairwise fun a b => u.targets.idxOf a < u.targets.idxOf b) ∧
    ∀ calls, Rearranged u.calls calls → (p.evaluateCalls grades floor u).SameKind
      (p.evaluateCalls grades floor { u with calls }) := by
  refine ⟨evaluateCalls_eq_iff hfloor, ?_, waits_iff_undecidedCallees,
    fun t => mem_undecidedCallees, ?_, fun calls => evaluateCalls_sameKind hfloor⟩
  · rw [evaluateCalls_eq_iff hfloor]
    exact ⟨fun h => h.waits, .deferred⟩
  · exact pairwise_idxOf_eraseDups _ u.targets

/-- A unit that fills a box of its own, opens a log and writes to it. -/
def boxAndLog : Program :=
  let make := (UnitDecl.method "a.Maker" "make").constructing "lib.Box.<init>()"
  let fill := make.calling "lib.Box" "lib.Box.put()"
  (({} : Program).submit (fill.callingAny "lib.Log" ["lib.Log.open()", "lib.Log.write()"])).1

/-- Filling and writing fail, and opening keeps to its domain. -/
def boxAndLogGrades : Array Grade :=
  #[.unsure, .not, .domain, .not, .unchecked]

/-- The box is spared, so it is writing that counts, also if the sites change places and the
    log is opened once more. -/
theorem calls_follow_rule_boxAndLog :
    ∃ u, boxAndLog.units[0]? = some u ∧ u.calls = [⟨1, [1]⟩, ⟨2, [2, 3]⟩] ∧
      CallRule boxAndLog boxAndLogGrades .strict u (.absorbed 3) ∧
      u.undecidedCallees boxAndLogGrades = [] ∧
      (boxAndLog.evaluateCalls boxAndLogGrades .strict u).SameKind
        (boxAndLog.evaluateCalls boxAndLogGrades .strict
          { u with calls := [⟨2, [2, 2, 3]⟩, ⟨1, [1]⟩] }) := by
  have hunit : boxAndLog.units[0]?.map (fun u =>
      (u.calls, boxAndLog.evaluateCalls boxAndLogGrades .strict u)) =
      some ([⟨1, [1]⟩, ⟨2, [2, 3]⟩], .absorbed 3) := by decide +kernel
  rcases Option.map_eq_some_iff.1 hunit with ⟨u, hu, hfound⟩
  rcases Prod.mk.inj hfound with ⟨hcalls, houtcome⟩
  rcases calls_follow_rule boxAndLog boxAndLogGrades .strict u (Or.inl rfl) with
    ⟨hrule, hdeferred, hwaits, _, _, hkind⟩
  refine ⟨u, hu, hcalls, (hrule _).1 houtcome, ?_, hkind _ ?_⟩
  · -- A unit that fails is not deferred, so nothing is listed.
    by_contra hne
    rw [hdeferred.2 (hwaits.2 hne)] at houtcome
    exact absurd houtcome (by simp only [reduceCtorEq, not_false_eq_true])
  · rw [hcalls]
    exact .trans (.sites (List.Perm.swap _ _ _)) (.againTarget _ List.mem_cons_self)

end CoreShell
