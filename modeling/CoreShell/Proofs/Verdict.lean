import CoreShell.Proofs.CallScan
import CoreShell.Rule.Local
import CoreShell.Rule.Overrider

/-!
# Verdicts

What the rules say about one unit, given grades for all others. A verdict is
either there or not, and once it is there it does not change as more becomes
known about other units: it rests on final grades only, and a final grade is
never revised.

The three relations below say when a verdict is there without saying how it is
found. The call rule and the dispatch rule then turn out to find exactly these
verdicts in a table of grades. Grades come as a function, so that the same
relations serve for tables and for grades that are merely derivable.

## Main definitions

* `CallVerdict`: What the call rule says over a floor.
* `DispatchVerdict`: What the dispatch rule says.
* `UnitVerdict`: What the rules say about a unit.
* `LocalOutcome.Fits`: What the local rules may say about a unit.
* `Agrees`: Grades that keep all final ones of others.

## Theorems

* `evaluateCalls_cases`, `resolveDispatch_cases`: The rules find exactly the
  verdicts.
* `judge_fits`: What the local rules may say.
* `judge_dispatch`, `judge_provisional_body`: Which units are judged by their
  overriders.
* `unitVerdict_rejected_iff`, `unitVerdict_dispatch_iff`,
  `unitVerdict_provisional_iff`: The local rule decides which other rule counts.
* `UnitVerdict.isFinal`: Verdicts are final grades.
* `UnitVerdict.agrees`: Verdicts stay when more is known.
* `UnitVerdict.unique`: There is at most one verdict.
-/

namespace CoreShell

/-- What the call rule makes of a floor, with the given grades for targets. -/
inductive CallVerdict (p : Program) (u : CodeUnit) (floor : Grade) (grade : UnitId → Grade) :
    Grade → Prop
  /-- A failing target outside the objects the unit keeps to itself. -/
  | absorbed {t : UnitId} (decided : ∀ t ∈ u.targets, (grade t).isFinal = true)
      (exposed : t ∈ p.exposedTargets u) (fails : grade t = .not) : CallVerdict p u floor grade .not
  /-- No such target, but one that keeps to its domain. -/
  | lowered {t : UnitId} (decided : ∀ t ∈ u.targets, (grade t).isFinal = true)
      (safe : ∀ t ∈ p.exposedTargets u, grade t ≠ .not) (target : t ∈ u.targets)
      (domain : grade t = .domain) : CallVerdict p u floor grade (floor.weakenTo .domain)
  /-- Neither of them. -/
  | kept (decided : ∀ t ∈ u.targets, (grade t).isFinal = true)
      (safe : ∀ t ∈ p.exposedTargets u, grade t ≠ .not)
      (high : ∀ t ∈ u.targets, grade t ≠ .domain) : CallVerdict p u floor grade floor

/-- What the dispatch rule says, with the given grades for overriders. -/
inductive DispatchVerdict (p : Program) (u : CodeUnit) (grade : UnitId → Grade) : Grade → Prop
  | strict (some : p.overridersOf u ≠ []) (all : ∀ o ∈ p.overridersOf u, grade o = .strict) :
      DispatchVerdict p u grade .strict
  | domain {o : UnitId} (all : ∀ o ∈ p.overridersOf u, grade o = .strict ∨ grade o = .domain)
      (overrider : o ∈ p.overridersOf u) (domain : grade o = .domain) :
      DispatchVerdict p u grade .domain
  | failed {o : UnitId} (overrider : o ∈ p.overridersOf u) (fails : grade o = .not) :
      DispatchVerdict p u grade .not

/-- What the rules of an axis say about a unit, with the given grades for all
    others. -/
inductive UnitVerdict (axis : Axis) (p : Program) (u : CodeUnit) (grade : UnitId → Grade) :
    Grade → Prop
  | rejected {finding : Finding} (judged : axis.judge p u = .rejected finding) :
      UnitVerdict axis p u grade .not
  | called {floor g : Grade} (judged : axis.judge p u = .provisional floor)
      (calls : CallVerdict p u floor grade g) : UnitVerdict axis p u grade g
  | dispatched {g : Grade} (judged : axis.judge p u = .dispatch)
      (dispatch : DispatchVerdict p u grade g) : UnitVerdict axis p u grade g

/-- The second grades keep every final one of the first. -/
def Agrees (grade grade' : UnitId → Grade) : Prop :=
  ∀ id, (grade id).isFinal = true → grade' id = grade id

theorem agrees_refl (grade : UnitId → Grade) : Agrees grade grade :=
  fun _ _ => rfl

namespace Grade

theorem isFinal_iff (g : Grade) : g.isFinal = true ↔ g = .not ∨ g = .domain ∨ g = .strict := by
  cases g <;> decide

theorem isTemporary_iff (g : Grade) : g.isTemporary = true ↔ g = .unchecked ∨ g = .unsure := by
  cases g <;> decide

theorem isFinal_eq_not (g : Grade) : g.isFinal = !g.isTemporary :=
  rfl

theorem isFinal_of_not_temporary {g : Grade} (h : g.isTemporary ≠ true) : g.isFinal = true := by
  rw [isFinal_eq_not, Bool.not_eq_true', Bool.eq_false_iff]
  exact h

theorem atLeast_domain_iff (g : Grade) : g.atLeast .domain = true ↔ g = .strict ∨ g = .domain := by
  cases g <;> decide

end Grade

theorem Program.exposedTargets_subset (p : Program) (u : CodeUnit) {t : UnitId}
    (h : t ∈ p.exposedTargets u) : t ∈ u.targets := by
  rcases List.mem_flatMap.1 h with ⟨call, hcall, ht⟩
  exact List.mem_flatMap.2 ⟨call, (List.mem_filter.1 hcall).1, ht⟩

/-- A unit has calls if and only if it has a target. -/
theorem CodeUnit.hasCalls_iff (u : CodeUnit) : u.hasCalls = true ↔ u.targets ≠ [] := by
  rw [hasCalls, targets, List.any_eq_true, ne_eq, List.flatMap_eq_nil_iff]
  push Not
  constructor
  · rintro ⟨call, hcall, hne⟩
    exact ⟨call, hcall, by simpa using hne⟩
  · rintro ⟨call, hcall, hne⟩
    exact ⟨call, hcall, by simpa using hne⟩

/-- The call rule has nothing to say before all targets are decided. -/
theorem CallVerdict.decided {p : Program} {u : CodeUnit} {floor g : Grade}
    {grade : UnitId → Grade} (h : CallVerdict p u floor grade g) :
    ∀ t ∈ u.targets, (grade t).isFinal = true := by
  cases h <;> assumption

/-- The call rule finds its verdict, and defers the unit exactly if there is
    none. -/
theorem evaluateCalls_cases (p : Program) (grades : Array Grade) (floor : Grade) (u : CodeUnit) :
    (p.evaluateCalls grades floor u = .deferred ∧ ∀ g, ¬ CallVerdict p u floor (gradeAt grades) g) ∨
    (∃ via, p.evaluateCalls grades floor u = .absorbed via ∧
      CallVerdict p u floor (gradeAt grades) .not) ∨
    ∃ g, p.evaluateCalls grades floor u = .settled g ∧ (g = floor ∨ g = floor.weakenTo .domain) ∧
      CallVerdict p u floor (gradeAt grades) g := by
  by_cases htemp : (u.targets.any fun t => (gradeAt grades t).isTemporary) = true
  · -- One undecided target is enough to rule out every verdict.
    rcases List.any_eq_true.1 htemp with ⟨t, ht, hundecided⟩
    refine Or.inl ⟨p.evaluateCalls_of_undecided floor htemp, fun g hg => ?_⟩
    have hfinal := hg.decided t ht
    rw [Grade.isFinal_eq_not, hundecided] at hfinal
    exact absurd hfinal (by decide)
  · have hdecided : ∀ t ∈ u.targets, (gradeAt grades t).isFinal = true := by
      intro t ht
      rw [Grade.isFinal_eq_not, Bool.not_eq_true']
      by_contra hc
      exact htemp (List.any_eq_true.2 ⟨t, ht, by simpa using hc⟩)
    right
    -- A failing target goes before the domain ones, which then no longer count.
    rcases hfind : (p.exposedTargets u).find? fun t => decide (gradeAt grades t = .not) with _ | via
    · have hsafe : ∀ t ∈ p.exposedTargets u, gradeAt grades t ≠ .not := by
        intro t ht
        simpa using List.find?_eq_none.1 hfind t ht
      right
      rw [p.evaluateCalls_of_safe floor htemp hfind]
      by_cases hdomain : (u.targets.any fun t => decide (gradeAt grades t = .domain)) = true
      · rcases List.any_eq_true.1 hdomain with ⟨t, ht, hd⟩
        refine ⟨floor.weakenTo .domain, by rw [if_pos hdomain], Or.inr rfl, ?_⟩
        exact .lowered hdecided hsafe ht (by simpa using hd)
      · refine ⟨floor, by rw [if_neg hdomain], Or.inl rfl, .kept hdecided hsafe ?_⟩
        intro t ht hd
        exact hdomain (List.any_eq_true.2 ⟨t, ht, by simpa using hd⟩)
    · left
      exact ⟨via, p.evaluateCalls_of_failing floor htemp hfind,
        .absorbed hdecided (List.mem_of_find?_eq_some hfind) (by simpa using List.find?_some hfind)⟩

/-- The dispatch rule finds its verdict, and waits exactly if there is none. -/
theorem resolveDispatch_cases (p : Program) (grades : Array Grade) (u : CodeUnit) :
    (p.resolveDispatch grades u = .pending ∧ ∀ g, ¬ DispatchVerdict p u (gradeAt grades) g) ∨
    (∃ via, p.resolveDispatch grades u = .absorbed via ∧
      DispatchVerdict p u (gradeAt grades) .not) ∨
    ∃ g, p.resolveDispatch grades u = .resolved g ∧ g ≠ .not ∧
      DispatchVerdict p u (gradeAt grades) g := by
  simp only [Program.resolveDispatch, List.isEmpty_iff]
  by_cases hnone : p.overridersOf u = []
  · rw [if_pos hnone]
    refine Or.inl ⟨rfl, fun g hg => ?_⟩
    cases hg with
    | strict hsome _ => exact hsome hnone
    | domain _ ho _ => exact absurd ho (by simp [hnone])
    | failed ho _ => exact absurd ho (by simp [hnone])
  rw [if_neg hnone]
  by_cases hstrict : (p.overridersOf u).all (fun id => decide (gradeAt grades id = .strict)) = true
  · rw [if_pos hstrict]
    have hall : ∀ o ∈ p.overridersOf u, gradeAt grades o = .strict := by simpa using hstrict
    exact Or.inr (Or.inr ⟨.strict, rfl, by decide, .strict hnone hall⟩)
  rw [if_neg hstrict]
  by_cases hfree : (p.overridersOf u).all (fun id => (gradeAt grades id).atLeast .domain) = true
  · rw [if_pos hfree]
    have hall : ∀ o ∈ p.overridersOf u, gradeAt grades o = .strict ∨ gradeAt grades o = .domain :=
      fun o ho => (Grade.atLeast_domain_iff _).1 (List.all_eq_true.1 hfree o ho)
    -- Not all of them are strict, so one of them keeps to its domain.
    have hone : ∃ o ∈ p.overridersOf u, gradeAt grades o ≠ .strict := by simpa using hstrict
    rcases hone with ⟨o, ho, hne⟩
    exact Or.inr (Or.inr ⟨.domain, rfl, by decide, .domain hall ho ((hall o ho).resolve_left hne)⟩)
  rw [if_neg hfree]
  rcases hfind : (p.overridersOf u).find? fun id => decide (gradeAt grades id = .not) with _ | via
  · have hsafe : ∀ o ∈ p.overridersOf u, gradeAt grades o ≠ .not := by
      intro o ho
      simpa using List.find?_eq_none.1 hfind o ho
    -- Each kind of verdict would have been found by one of the checks above.
    refine Or.inl ⟨rfl, fun g hg => ?_⟩
    cases hg with
    | strict _ hall => exact hstrict (by simpa using hall)
    | domain hall _ _ =>
        exact hfree (List.all_eq_true.2 fun o ho => (Grade.atLeast_domain_iff _).2 (hall o ho))
    | failed ho hnot => exact hsafe _ ho hnot
  · refine Or.inr (Or.inl ⟨via, rfl, ?_⟩)
    exact .failed (List.mem_of_find?_eq_some hfind) (by simpa using List.find?_some hfind)

theorem floorOf_cases (scopes : List FieldScope) :
    Program.floorOf scopes = .strict ∨ Program.floorOf scopes = .domain := by
  rw [Program.floorOf]
  by_cases h : FieldScope.own ∈ scopes
  · rw [if_pos h]
    exact Or.inr rfl
  · rw [if_neg h]
    exact Or.inl rfl

/-- What the local rule of an axis may say about a unit, whatever the unit
    touches. -/
inductive LocalOutcome.Fits (p : Program) (u : CodeUnit) : LocalOutcome → Prop
  /-- A rejection is about what the unit is or does itself. -/
  | rejected {finding : Finding}
      (own : finding.reason ∈ [.voidReturn, .opaqueOperation, .fieldWrite, .fieldRead]) :
      Fits p u (.rejected finding)
  /-- Only a unit without a body of its own is left to its overriders. -/
  | dispatch (virtual : p.dispatchesVirtually u = true) : Fits p u .dispatch
  /-- Floors are strict or domain, and units with a floor have a body. -/
  | provisional {floor : Grade} (body : p.dispatchesVirtually u = false)
      (free : floor = .strict ∨ floor = .domain) : Fits p u (.provisional floor)

theorem judge_fits (axis : Axis) (p : Program) (u : CodeUnit) : (axis.judge p u).Fits p u := by
  cases axis with
  | purity =>
      simp only [Axis.judge, Axis.judgePurity]
      split_ifs with hvoid hnative hvirtual hconstructor hshared
      · exact .rejected (by simp)
      · exact .rejected (by simp)
      · exact .dispatch hvirtual
      · exact .provisional (by simpa using hvirtual) (Or.inl rfl)
      · exact .rejected (by simp)
      · exact .provisional (by simpa using hvirtual) (floorOf_cases _)
  | determinism =>
      simp only [Axis.judge, Axis.judgeDeterminism]
      split_ifs with hnative hvirtual hvoid
      · exact .rejected (by simp)
      · exact .dispatch hvirtual
      · exact .provisional (by simpa using hvirtual) (Or.inl rfl)
      · split
        · exact .rejected (by simp)
        · exact .provisional (by simpa using hvirtual) (floorOf_cases _)

theorem judge_provisional {axis : Axis} {p : Program} {u : CodeUnit} {floor : Grade}
    (h : axis.judge p u = .provisional floor) : floor = .strict ∨ floor = .domain := by
  have hfits := judge_fits axis p u
  rw [h] at hfits
  cases hfits with
  | provisional _ hfree => exact hfree

theorem judge_dispatch {axis : Axis} {p : Program} {u : CodeUnit}
    (h : axis.judge p u = .dispatch) : p.dispatchesVirtually u = true := by
  have hfits := judge_fits axis p u
  rw [h] at hfits
  cases hfits with
  | dispatch hvirtual => exact hvirtual

theorem judge_provisional_body {axis : Axis} {p : Program} {u : CodeUnit} {floor : Grade}
    (h : axis.judge p u = .provisional floor) : p.dispatchesVirtually u = false := by
  have hfits := judge_fits axis p u
  rw [h] at hfits
  cases hfits with
  | provisional hbody _ => exact hbody

/-- Over a floor that is strict or domain, a lowered one is domain. -/
theorem weakenTo_domain {floor : Grade} (h : floor = .strict ∨ floor = .domain) :
    floor.weakenTo .domain = .domain := by
  rcases h with rfl | rfl <;> decide

theorem CallVerdict.isFinal {p : Program} {u : CodeUnit} {floor g : Grade}
    {grade : UnitId → Grade} (hfloor : floor = .strict ∨ floor = .domain)
    (h : CallVerdict p u floor grade g) : g.isFinal = true := by
  cases h with
  | absorbed _ _ _ => rfl
  | lowered _ _ _ _ =>
      rw [weakenTo_domain hfloor]
      rfl
  | kept _ _ _ => rcases hfloor with rfl | rfl <;> rfl

theorem DispatchVerdict.isFinal {p : Program} {u : CodeUnit} {g : Grade} {grade : UnitId → Grade}
    (h : DispatchVerdict p u grade g) : g.isFinal = true := by
  cases h <;> rfl

theorem UnitVerdict.isFinal {axis : Axis} {p : Program} {u : CodeUnit} {g : Grade}
    {grade : UnitId → Grade} (h : UnitVerdict axis p u grade g) : g.isFinal = true := by
  cases h with
  | rejected _ => rfl
  | called hjudge hcalls => exact hcalls.isFinal (judge_provisional hjudge)
  | dispatched _ hdispatch => exact hdispatch.isFinal

section Agrees

variable {p : Program} {u : CodeUnit} {grade grade' : UnitId → Grade} (h : Agrees grade grade')
include h

/-- The call rule looks at decided targets only. -/
theorem CallVerdict.agrees {floor g : Grade} (hv : CallVerdict p u floor grade g) :
    CallVerdict p u floor grade' g := by
  have hfinal : (∀ t ∈ u.targets, (grade t).isFinal = true) →
      ∀ t ∈ u.targets, (grade' t).isFinal = true := by
    intro hdec t ht
    rw [h t (hdec t ht)]
    exact hdec t ht
  -- The exposed targets are some of the targets, so they are decided as well.
  have hsame : (∀ t ∈ u.targets, (grade t).isFinal = true) →
      ∀ t ∈ p.exposedTargets u, grade' t = grade t :=
    fun hdec t ht => h t (hdec t (p.exposedTargets_subset u ht))
  cases hv with
  | absorbed hdec hexp hnot => exact .absorbed (hfinal hdec) hexp (by rw [hsame hdec _ hexp, hnot])
  | lowered hdec hsafe ht hdomain =>
      refine .lowered (hfinal hdec) (fun t ht => ?_) ht (by rw [h _ (hdec _ ht), hdomain])
      rw [hsame hdec t ht]
      exact hsafe t ht
  | kept hdec hsafe hhigh =>
      refine .kept (hfinal hdec) (fun t ht => ?_) (fun t ht => ?_)
      · rw [hsame hdec t ht]
        exact hsafe t ht
      · rw [h t (hdec t ht)]
        exact hhigh t ht

/-- The dispatch rule may leave overriders aside, but only once one of them
    fails for good. -/
theorem DispatchVerdict.agrees {g : Grade} (hv : DispatchVerdict p u grade g) :
    DispatchVerdict p u grade' g := by
  cases hv with
  | strict hsome hall =>
      refine .strict hsome (fun o ho => ?_)
      rw [h o (by rw [hall o ho]; rfl), hall o ho]
  | domain hall ho hdomain =>
      refine .domain (fun o ho => ?_) ho (by rw [h _ (by rw [hdomain]; rfl), hdomain])
      rw [h o (by rcases hall o ho with ho' | ho' <;> rw [ho'] <;> rfl)]
      exact hall o ho
  | failed ho hnot => exact .failed ho (by rw [h _ (by rw [hnot]; rfl), hnot])

/-- A verdict stays when more is known about other units. -/
theorem UnitVerdict.agrees {axis : Axis} {g : Grade} (hv : UnitVerdict axis p u grade g) :
    UnitVerdict axis p u grade' g := by
  cases hv with
  | rejected hjudge => exact .rejected hjudge
  | called hjudge hcalls => exact .called hjudge (hcalls.agrees h)
  | dispatched hjudge hdispatch => exact .dispatched hjudge (hdispatch.agrees h)

end Agrees

theorem CallVerdict.unique {p : Program} {u : CodeUnit} {floor g g' : Grade}
    {grade : UnitId → Grade} (h : CallVerdict p u floor grade g)
    (h' : CallVerdict p u floor grade g') : g = g' := by
  cases h with
  | absorbed _ hexp hnot =>
      cases h' with
      | absorbed _ _ _ => rfl
      | lowered _ hsafe _ _ => exact absurd hnot (hsafe _ hexp)
      | kept _ hsafe _ => exact absurd hnot (hsafe _ hexp)
  | lowered _ hsafe ht hdomain =>
      cases h' with
      | absorbed _ hexp hnot => exact absurd hnot (hsafe _ hexp)
      | lowered _ _ _ _ => rfl
      | kept _ _ hhigh => exact absurd hdomain (hhigh _ ht)
  | kept _ hsafe hhigh =>
      cases h' with
      | absorbed _ hexp hnot => exact absurd hnot (hsafe _ hexp)
      | lowered _ _ ht hdomain => exact absurd hdomain (hhigh _ ht)
      | kept _ _ _ => rfl

theorem DispatchVerdict.unique {p : Program} {u : CodeUnit} {g g' : Grade}
    {grade : UnitId → Grade} (h : DispatchVerdict p u grade g)
    (h' : DispatchVerdict p u grade g') : g = g' := by
  cases h with
  | strict _ hall =>
      cases h' with
      | strict _ _ => rfl
      | domain _ ho hdomain => exact absurd hdomain (by rw [hall _ ho]; decide)
      | failed ho hnot => exact absurd hnot (by rw [hall _ ho]; decide)
  | domain hall ho hdomain =>
      cases h' with
      | strict _ hall' => exact absurd hdomain (by rw [hall' _ ho]; decide)
      | domain _ _ _ => rfl
      | failed ho' hnot => exact absurd hnot (by rcases hall _ ho' with h | h <;> rw [h] <;> decide)
  | failed ho hnot =>
      cases h' with
      | strict _ hall => exact absurd hnot (by rw [hall _ ho]; decide)
      | domain hall _ _ => exact absurd hnot (by rcases hall _ ho with h | h <;> rw [h] <;> decide)
      | failed _ _ => rfl

section Judged

variable {axis : Axis} {p : Program} {u : CodeUnit} {grade : UnitId → Grade} {g : Grade}

theorem unitVerdict_rejected_iff {finding : Finding} (h : axis.judge p u = .rejected finding) :
    UnitVerdict axis p u grade g ↔ g = .not := by
  constructor
  · intro hv
    cases hv with
    | rejected _ => rfl
    | called hjudge _ => exact absurd (h.symm.trans hjudge) (by simp)
    | dispatched hjudge _ => exact absurd (h.symm.trans hjudge) (by simp)
  · rintro rfl
    exact .rejected h

theorem unitVerdict_dispatch_iff (h : axis.judge p u = .dispatch) :
    UnitVerdict axis p u grade g ↔ DispatchVerdict p u grade g := by
  constructor
  · intro hv
    cases hv with
    | rejected hjudge => exact absurd (h.symm.trans hjudge) (by simp)
    | called hjudge _ => exact absurd (h.symm.trans hjudge) (by simp)
    | dispatched _ hdispatch => exact hdispatch
  · exact .dispatched h

theorem unitVerdict_provisional_iff {floor : Grade} (h : axis.judge p u = .provisional floor) :
    UnitVerdict axis p u grade g ↔ CallVerdict p u floor grade g := by
  constructor
  · intro hv
    cases hv with
    | rejected hjudge => exact absurd (h.symm.trans hjudge) (by simp)
    | called hjudge hcalls =>
        have hfloor := h.symm.trans hjudge
        simp only [LocalOutcome.provisional.injEq] at hfloor
        rw [hfloor]
        exact hcalls
    | dispatched hjudge _ => exact absurd (h.symm.trans hjudge) (by simp)
  · exact .called h

/-- There is at most one verdict. -/
theorem UnitVerdict.unique {g' : Grade} (h : UnitVerdict axis p u grade g)
    (h' : UnitVerdict axis p u grade g') : g = g' := by
  rcases hjudge : axis.judge p u with finding | _ | floor
  · rw [unitVerdict_rejected_iff hjudge] at h h'
    rw [h, h']
  · rw [unitVerdict_dispatch_iff hjudge] at h h'
    exact h.unique h'
  · rw [unitVerdict_provisional_iff hjudge] at h h'
    exact h.unique h'

end Judged

end CoreShell
